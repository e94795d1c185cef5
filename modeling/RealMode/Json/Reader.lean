import RealMode.Json.Basic
import RealMode.Text.Position

/-!
# Reading JSON text

A reader takes the characters that are left and returns a value with what is left after
it. When it fails it says why and where: a `Stop` holds the characters that were left and
how many bytes beyond them the fault is seen, so that no position has to be carried along.

- `readString`, `readNumber` and `readKeyword` read the scalars.
- `readElements` and `readFields` read containers up to their closing bracket, given
  readers for what is in them.
- `readValue` reads any value with at most the given number of nested containers. Its
  loops are bounded by a number of rounds, for which the length of the text is always
  enough.
-/

namespace RealMode.Json

/-- What can be wrong with the text of a value. -/
inductive Defect
  | endInValue
  | endInObject
  | endInArray
  | endInString
  | noValue
  | badKeyword
  | keyNotString
  | noColon
  | noCommaOrBrace
  | noCommaOrBracket
  | trailingComma
  | trailingCharacters
  | badNumber
  | numberOutOfRange
  | controlCharacter
  | badEscape
  | loneSurrogate
  | brokenSurrogatePair
  | tooDeep
deriving DecidableEq, Repr

/-- The wording of a defect. -/
def Defect.message : Defect → String
  | .endInValue => "EOF while parsing a value"
  | .endInObject => "EOF while parsing an object"
  | .endInArray => "EOF while parsing a list"
  | .endInString => "EOF while parsing a string"
  | .noValue => "expected value"
  | .badKeyword => "expected ident"
  | .keyNotString => "key must be a string"
  | .noColon => "expected `:`"
  | .noCommaOrBrace => "expected `,` or `\x7d`"
  | .noCommaOrBracket => "expected `,` or `]`"
  | .trailingComma => "trailing comma"
  | .trailingCharacters => "trailing characters"
  | .badNumber => "invalid number"
  | .numberOutOfRange => "number out of range"
  | .controlCharacter =>
    "control character (\\u0000-\\u001F) found while parsing a string"
  | .badEscape => "invalid escape"
  | .loneSurrogate => "lone leading surrogate in hex escape"
  | .brokenSurrogatePair => "unexpected end of hex escape"
  | .tooDeep => "recursion limit exceeded"

/-- Why and where a reader stopped: `ahead` bytes beyond the point where `rest` is left,
or at the end of the text if that is nearer. -/
structure Stop (ε : Type) where
  reason : ε
  rest : List Char
  ahead : Nat

namespace Stop

variable {ε : Type}

/-- Stops right after what has been read. -/
def here (reason : ε) (rest : List Char) : Stop ε :=
  ⟨reason, rest, 0⟩

/-- Stops at the next byte. -/
def next (reason : ε) (rest : List Char) : Stop ε :=
  ⟨reason, rest, 1⟩

/-- The position of a stop in the text that was read. -/
def position (stop : Stop ε) (text : List Char) : Text.Position :=
  .ofIndex text (Text.byteLength text - Text.byteLength stop.rest + stop.ahead)

end Stop

/-- The result of a reader: a value and the characters left after it. -/
abbrev Read (ε α : Type) : Type :=
  Except (Stop ε) (α × List Char)

namespace Read

variable {ε α β : Type}

/-- Goes on with the value and the characters left after it. -/
def andThen (result : Read ε α) (next : α → List Char → Read ε β) : Read ε β :=
  match result with
  | .ok (value, rest) => next value rest
  | .error stop => .error stop

@[simp] theorem andThen_ok (value : α) (rest : List Char)
    (next : α → List Char → Read ε β) :
    andThen (.ok (value, rest)) next = next value rest := rfl

@[simp] theorem andThen_error (stop : Stop ε) (next : α → List Char → Read ε β) :
    andThen (.error stop) next = .error stop := rfl

theorem andThen_eq_ok_iff {result : Read ε α} {next : α → List Char → Read ε β} {b : β}
    {left : List Char} :
    andThen result next = .ok (b, left) ↔
      ∃ value rest, result = .ok (value, rest) ∧ next value rest = .ok (b, left) := by
  rcases result with stop | ⟨value, rest⟩
  · simp
  · exact ⟨fun h => ⟨value, rest, rfl, h⟩, by rintro ⟨_, _, ⟨⟩, h⟩; exact h⟩

/-- The result with its reasons seen as reasons of another type. -/
def mapReason {δ : Type} (wrap : δ → ε) : Read δ α → Read ε α
  | .ok p => .ok p
  | .error stop => .error ⟨wrap stop.reason, stop.rest, stop.ahead⟩

end Read

/-- Whether a character may stand between the tokens of a value. -/
def isSpace (c : Char) : Bool :=
  c == ' ' || c == '\t' || c == '\n' || c == '\r'

/-- Drops the space before a token. -/
def skipSpace (cs : List Char) : List Char :=
  cs.dropWhile isSpace

/-! ## Keywords -/

/-- Reads the given characters and returns `value`. -/
def readKeyword (value : Json) : List Char → List Char → Read Defect Json
  | [], cs => .ok (value, cs)
  | _ :: _, [] => .error (.here .endInValue [])
  | e :: es, c :: cs =>
    if c = e then readKeyword value es cs else .error (.next .badKeyword (c :: cs))

/-! ## Strings -/

/-- The value of a hexadecimal digit. -/
def hexValue? (c : Char) : Option Nat :=
  if '0' ≤ c ∧ c ≤ '9' then some (c.toNat - '0'.toNat)
  else if 'a' ≤ c ∧ c ≤ 'f' then some (c.toNat - 'a'.toNat + 10)
  else if 'A' ≤ c ∧ c ≤ 'F' then some (c.toNat - 'A'.toNat + 10)
  else none

/-- The value of four hexadecimal digits. -/
def hexValue4? (a b c d : Char) : Option Nat := do
  let a ← hexValue? a
  let b ← hexValue? b
  let c ← hexValue? c
  let d ← hexValue? d
  return ((a * 16 + b) * 16 + c) * 16 + d

/-- Reads the four hexadecimal digits of an escape. The four bytes are taken as one, so a
fault is seen after them. -/
def readHex : List Char → Read Defect Nat
  | a :: b :: c :: d :: rest =>
    match hexValue4? a b c d with
    | some n => .ok (n, rest)
    | none => .error ⟨.badEscape, a :: b :: c :: d :: rest, 4⟩
  | cs =>
    if Text.byteLength cs < 4 then .error (.here .endInString [])
    else .error ⟨.badEscape, cs, 4⟩

/-- Reads the second half of a surrogate pair whose first half is `high`. -/
def readLowSurrogate (high : Nat) : List Char → Read Defect Char
  | '\\' :: 'u' :: rest =>
    (readHex rest).andThen fun low rest =>
      if low < 0xdc00 || 0xdfff < low then .error (.here .loneSurrogate rest)
      else .ok (Char.ofNat ((high - 0xd800) * 0x400 + (low - 0xdc00) + 0x10000), rest)
  | ['\\'] => .error (.here .endInString [])
  | '\\' :: rest => .error (.next .brokenSurrogatePair rest)
  | [] => .error (.here .endInString [])
  | cs => .error (.next .brokenSurrogatePair cs)

/-- Reads a hexadecimal escape after its mark: one code unit, or two that form a surrogate
pair. -/
def readUnicode (cs : List Char) : Read Defect Char :=
  (readHex cs).andThen fun n rest =>
    if 0xdc00 ≤ n && n ≤ 0xdfff then .error (.here .loneSurrogate rest)
    else if 0xd800 ≤ n && n ≤ 0xdbff then readLowSurrogate n rest
    else .ok (Char.ofNat n, rest)

/-- Reads what follows the backslash of an escape. -/
def readEscape : List Char → Read Defect Char
  | [] => .error (.here .endInString [])
  | '"' :: rest => .ok ('"', rest)
  | '\\' :: rest => .ok ('\\', rest)
  | '/' :: rest => .ok ('/', rest)
  | 'b' :: rest => .ok ('\x08', rest)
  | 'f' :: rest => .ok ('\x0c', rest)
  | 'n' :: rest => .ok ('\n', rest)
  | 'r' :: rest => .ok ('\r', rest)
  | 't' :: rest => .ok ('\t', rest)
  | 'u' :: rest => readUnicode rest
  | c :: rest => .error (.next .badEscape (c :: rest))

theorem length_of_readHex {cs rest : List Char} {n : Nat}
    (h : readHex cs = .ok (n, rest)) :
    rest.length < cs.length := by
  unfold readHex at h
  split at h
  · split at h
    · simp only [Except.ok.injEq, Prod.mk.injEq] at h
      simp only [← h.2, List.length_cons]
      omega
    · simp at h
  · split at h <;> simp at h

theorem length_of_readLowSurrogate {high : Nat} {cs rest : List Char} {c : Char}
    (h : readLowSurrogate high cs = .ok (c, rest)) : rest.length < cs.length := by
  unfold readLowSurrogate at h
  split at h
  · obtain ⟨low, left, hx, h⟩ := Read.andThen_eq_ok_iff.1 h
    have hlen := length_of_readHex hx
    split at h
    · simp at h
    · simp only [Except.ok.injEq, Prod.mk.injEq] at h
      simp only [← h.2, List.length_cons]
      omega
  all_goals simp at h

theorem length_of_readUnicode {cs rest : List Char} {c : Char}
    (h : readUnicode cs = .ok (c, rest)) :
    rest.length < cs.length := by
  obtain ⟨n, left, hx, h⟩ := Read.andThen_eq_ok_iff.1 h
  have hlen := length_of_readHex hx
  split at h
  · simp at h
  · split at h
    · exact Nat.lt_trans (length_of_readLowSurrogate h) hlen
    · simp only [Except.ok.injEq, Prod.mk.injEq] at h
      exact h.2 ▸ hlen

/-- An escape takes at least one character. -/
theorem length_of_readEscape {cs rest : List Char} {c : Char}
    (h : readEscape cs = .ok (c, rest)) :
    rest.length < cs.length := by
  unfold readEscape at h
  split at h
  case h_10 more => exact Nat.lt_succ_of_lt (length_of_readUnicode h)
  all_goals first
    | (simp only [Except.ok.injEq, Prod.mk.injEq] at h; simp [← h.2])
    | simp at h

/-- Reads a string after its opening quote. The characters read so far are in `acc`, the
last one first. -/
def readString (acc : List Char) (cs : List Char) : Read Defect String :=
  match cs with
  | [] => .error (.here .endInString [])
  | '"' :: rest => .ok (String.ofList acc.reverse, rest)
  | '\\' :: more =>
    match h : readEscape more with
    | .ok (c, rest) =>
      have := length_of_readEscape h
      readString (c :: acc) rest
    | .error stop => .error stop
  | c :: rest =>
    if c.toNat < 0x20 then .error (.next .controlCharacter (c :: rest))
    else readString (c :: acc) rest
termination_by cs.length
decreasing_by all_goals simp only [List.length_cons]; omega

/-! ## Numbers -/

/-- Whether the text goes on with a digit. -/
def startsWithDigit : List Char → Bool
  | c :: _ => c.isDigit
  | [] => false

/-- Appends digits to a number as long as it stays within `limit`. Returns the number, how
many digits were taken, and what is left; a digit that is left would exceed the limit. -/
def takeDigits (limit : Nat) (value count : Nat) : List Char → Nat × Nat × List Char
  | [] => (value, count, [])
  | c :: rest =>
    if c.isDigit then
      let next := value * 10 + (c.toNat - '0'.toNat)
      if limit < next then (value, count, c :: rest)
      else takeDigits limit next (count + 1) rest
    else (value, count, c :: rest)

/-- The greatest 64-bit natural number. -/
def maxNatural : Nat := Nat.pow 2 64 - 1

/-- The greatest exponent that is computed with. -/
def maxExponent : Nat := Nat.pow 2 31 - 1

/-- The double for `significand · 10 ^ exponent`. The significand and the power of ten are
rounded first, then their product or quotient; exponents below -308 divide twice. -/
def scale? (negative : Bool) (significand : Nat) (exponent : Int) : Option Binary64 := do
  let x ← Binary64.ofRatio? negative significand 1
  if x.isZero then some x
  else if 308 < exponent then none
  else if 0 ≤ exponent then
    let power ← Binary64.ofRatio? false (Nat.pow 10 exponent.toNat) 1
    x.mul? power
  else
    let power308 ← Binary64.ofRatio? false (Nat.pow 10 308) 1
    if -308 ≤ exponent then
      let power ← Binary64.ofRatio? false (Nat.pow 10 exponent.natAbs) 1
      x.div? power
    else if -616 ≤ exponent then
      let power ← Binary64.ofRatio? false (Nat.pow 10 (exponent.natAbs - 308)) 1
      (← x.div? power308).div? power
    else some (.zero negative)

/-- Ends a number that is a double. -/
def finishFloat (negative : Bool) (significand : Nat) (exponent : Int)
    (rest : List Char) : Read Defect Json :=
  match scale? negative significand exponent with
  | some x => .ok (.float x, rest)
  | none => .error (.here .numberOutOfRange rest)

/-- Reads an exponent after its mark and ends the number. An exponent too large to compute
with makes the number zero or puts it out of range. -/
def readExponent (negative : Bool) (significand : Nat) (start : Int) (cs : List Char) :
    Read Defect Json :=
  let (down, cs) := Decimal.splitSign cs
  match cs with
  | [] => .error (.here .endInValue [])
  | c :: rest =>
    if !c.isDigit then .error (.next .badNumber (c :: rest))
    else
      let (exponent, _, left) := takeDigits maxExponent 0 0 (c :: rest)
      if startsWithDigit left then
        if significand ≠ 0 && !down then .error (.here .numberOutOfRange (left.drop 1))
        else .ok (.float (.zero negative), left.dropWhile Char.isDigit)
      else finishFloat negative significand
        (if down then start - exponent else start + exponent) left

/-- Reads an optional exponent and ends the number. -/
def readOptionalExponent (negative : Bool) (significand : Nat) (exponent : Int)
    (cs : List Char) :
    Read Defect Json :=
  match cs with
  | c :: rest =>
    if c == 'e' || c == 'E' then readExponent negative significand exponent rest
    else finishFloat negative significand exponent cs
  | [] => finishFloat negative significand exponent []

/-- Reads the digits after a point. Digits beyond the range of the significand are
dropped. -/
def readFraction (negative : Bool) (significand : Nat) (start : Int) (cs : List Char) :
    Read Defect Json :=
  if !startsWithDigit cs then
    match cs with
    | [] => .error (.here .endInValue [])
    | _ :: _ => .error (.next .badNumber cs)
  else
    let (significand, count, rest) := takeDigits maxNatural significand 0 cs
    readOptionalExponent negative significand (start - count)
      (rest.dropWhile Char.isDigit)

/-- Reads what follows the integer part of a number. Without a fraction or an exponent the
number is an integer, unless it does not fit 64 bits or is a negative zero. -/
def readAfterInteger (negative : Bool) (significand : Nat) (cs : List Char) :
    Read Defect Json :=
  match cs with
  | '.' :: rest => readFraction negative significand 0 rest
  | cs =>
    if cs.head? = some 'e' || cs.head? = some 'E' then
      readExponent negative significand 0 (cs.drop 1)
    else if !negative then .ok (.natural significand, cs)
    else if significand = 0 || Nat.pow 2 63 < significand then
      finishFloat true significand 0 cs
    else .ok (.negative significand, cs)

/-- Reads what follows an integer part that does not fit 64 bits; `dropped` of its digits
are not in the significand. -/
def readAfterLongInteger (negative : Bool) (significand dropped : Nat) (cs : List Char) :
    Read Defect Json :=
  match cs with
  | '.' :: rest => readFraction negative significand dropped rest
  | cs => readOptionalExponent negative significand dropped cs

/-- Reads a number after its sign. -/
def readNumber (negative : Bool) : List Char → Read Defect Json
  | [] => .error (.here .endInValue [])
  | '0' :: rest =>
    if startsWithDigit rest then .error (.next .badNumber rest)
    else readAfterInteger negative 0 rest
  | c :: rest =>
    if !c.isDigit then .error (.next .badNumber (c :: rest))
    else
      let (significand, _, left) := takeDigits maxNatural 0 0 (c :: rest)
      if startsWithDigit left then
        let dropped := (left.takeWhile Char.isDigit).length
        readAfterLongInteger negative significand dropped (left.dropWhile Char.isDigit)
      else readAfterInteger negative significand left

/-! ## Containers -/

section Containers

variable {ε : Type}

/-- Reads the elements of an array up to its closing bracket, in at most the given number
of rounds. The elements read so far are in `acc`, the last one first, and `element` may
look at them. Every round takes a character, so more rounds than there are characters are
never needed. -/
def readElements (wrap : Defect → ε) (element : List Json → List Char → Read ε Json) :
    Nat → List Json → List Char → Read ε Json
  | 0, _, _ => .error (.here (wrap .endInArray) [])
  | rounds + 1, acc, cs =>
    match skipSpace cs with
    | [] => .error (.here (wrap .endInArray) [])
    | ']' :: rest => .ok (.array acc.reverse, rest)
    | c :: rest =>
      if acc.isEmpty then
        (element acc (c :: rest)).andThen fun value rest =>
          readElements wrap element rounds (value :: acc) rest
      else if c = ',' then
        match skipSpace rest with
        | [] => .error (.here (wrap .endInValue) [])
        | ']' :: rest => .error (.next (wrap .trailingComma) (']' :: rest))
        | rest =>
          (element acc rest).andThen fun value rest =>
            readElements wrap element rounds (value :: acc) rest
      else .error (.next (wrap .noCommaOrBracket) (c :: rest))

/-- Reads the colon between a key and its value. -/
def readColon (cs : List Char) : Read Defect Unit :=
  match skipSpace cs with
  | [] => .error (.here .endInObject [])
  | ':' :: rest => .ok ((), rest)
  | rest => .error (.next .noColon rest)

/-- Reads the fields of an object up to its closing brace, in at most the given number of
rounds. The fields read so far are in `acc`, the last one first. After a key, `field`
reads the colon and the value, and may look at the key and at the earlier fields. -/
def readFields (wrap : Defect → ε)
    (field : List (String × Json) → String → List Char → Read ε Json) :
    Nat → List (String × Json) → List Char → Read ε Json
  | 0, _, _ => .error (.here (wrap .endInObject) [])
  | rounds + 1, acc, cs =>
    match skipSpace cs with
    | [] => .error (.here (wrap .endInObject) [])
    | '\x7d' :: rest => .ok (.object acc.reverse, rest)
    | c :: rest =>
      if acc.isEmpty then
        if c = '"' then
          ((readString [] rest).mapReason wrap).andThen fun key rest =>
            (field acc key rest).andThen fun value rest =>
              readFields wrap field rounds ((key, value) :: acc) rest
        else .error (.next (wrap .keyNotString) (c :: rest))
      else if c = ',' then
        match skipSpace rest with
        | [] => .error (.here (wrap .endInValue) [])
        | '"' :: rest =>
          ((readString [] rest).mapReason wrap).andThen fun key rest =>
            (field acc key rest).andThen fun value rest =>
              readFields wrap field rounds ((key, value) :: acc) rest
        | '\x7d' :: rest => .error (.next (wrap .trailingComma) ('\x7d' :: rest))
        | rest => .error (.next (wrap .keyNotString) rest)
      else .error (.next (wrap .noCommaOrBrace) (c :: rest))

end Containers

/-- Reads a value in which at most `levels` containers are nested, each with fewer than
`rounds` characters. -/
def readValue (rounds levels : Nat) (cs : List Char) : Read Defect Json :=
  match skipSpace cs with
  | [] => .error (.here .endInValue [])
  | '"' :: rest => (readString [] rest).andThen fun s rest => .ok (.string s, rest)
  | 'n' :: rest => readKeyword .null ['u', 'l', 'l'] rest
  | 't' :: rest => readKeyword (.bool true) ['r', 'u', 'e'] rest
  | 'f' :: rest => readKeyword (.bool false) ['a', 'l', 's', 'e'] rest
  | '-' :: rest => readNumber true rest
  | '[' :: rest =>
    match levels with
    | 0 => .error (.next .tooDeep ('[' :: rest))
    | levels + 1 => readElements id (fun _ => readValue rounds levels) rounds [] rest
  | '\x7b' :: rest =>
    match levels with
    | 0 => .error (.next .tooDeep ('\x7b' :: rest))
    | levels + 1 =>
      let field := fun _ _ cs =>
        (readColon cs).andThen fun _ cs => readValue rounds levels cs
      readFields id field rounds [] rest
  | c :: rest =>
    if c.isDigit then readNumber false (c :: rest)
    else .error (.next .noValue (c :: rest))

end RealMode.Json
