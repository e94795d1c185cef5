import RealMode.Json.Reader
import RealMode.Json.Writer

/-!
# Reading what was written

The text that `Json.write` gives for a value is read back to the value by
`Json.readValue`, unless more containers are nested in it than the reader allows for; then
reading stops at that.

- `readString_escaped`: a string is read back, whatever characters it has.
- `ReadsBack value` says that reading the text of the value gives one or the other. It is
  kept by objects (`ReadsBack.object`). The rounds of the reader are bounded by the number
  of characters that are left, so that lengths of texts are compared along the way.
- `nested_readValue`: no value that is read, from whatever text, is nested deeper than the
  reader allows for.

Numbers and arrays are not written for programs, so nothing is said here about reading
them back.
-/

namespace RealMode.Json

/-! ## Strings -/

/-- A digit reads as its value. -/
theorem hexValue?_digitChar {n : Nat} (h : n < 16) :
    hexValue? (Nat.digitChar n) = some n := by
  have hall : ∀ n : Fin 16, hexValue? (Nat.digitChar n) = some n.val := by decide
  exact hall ⟨n, h⟩

/-- A control character is read back from its four hexadecimal digits. -/
theorem readEscape_control {c : Char} (h : c.toNat < 0x20) (rest : List Char) :
    readEscape ('u' :: '0' :: '0' :: Nat.digitChar (c.toNat / 16) ::
      Nat.digitChar (c.toNat % 16) :: rest) = .ok (c, rest) := by
  have hzero : hexValue? '0' = some 0 := by decide
  have hhigh : hexValue? (Nat.digitChar (c.toNat / 16)) = some (c.toNat / 16) :=
    hexValue?_digitChar (by omega)
  have hlow : hexValue? (Nat.digitChar (c.toNat % 16)) = some (c.toNat % 16) :=
    hexValue?_digitChar (by omega)
  have hhex :
      hexValue4? '0' '0' (Nat.digitChar (c.toNat / 16)) (Nat.digitChar (c.toNat % 16)) =
        some c.toNat := by
    rw [hexValue4?, hzero, hhigh, hlow]
    refine congrArg some ?_
    omega
  -- The code unit is far below the surrogates.
  have hnotLow : ¬ 0xdc00 ≤ c.toNat := by omega
  have hnotHigh : ¬ 0xd800 ≤ c.toNat := by omega
  rw [readEscape, readUnicode, readHex, hhex]
  simp [hnotLow, hnotHigh]

/-- After an escape, reading a string goes on with the character that was escaped. -/
theorem readString_of_readEscape {acc more rest : List Char} {c : Char}
    (h : readEscape more = .ok (c, rest)) :
    readString acc ('\\' :: more) = readString (c :: acc) rest := by
  rw [readString]
  split
  · rename_i heq
    rw [h] at heq
    cases heq
    rfl
  · rename_i heq
    rw [h] at heq
    cases heq

/-- A character is read back from the way it stands in a string. -/
theorem readString_escapeChar (acc : List Char) (c : Char) (rest : List Char) :
    readString acc (escapeChar c ++ rest) = readString (c :: acc) rest := by
  unfold escapeChar
  split
  case h_8 hquote hbackslash _ _ _ _ _ =>
    by_cases hcontrol : c.toNat < 0x20
    · rw [if_pos hcontrol]
      exact readString_of_readEscape (readEscape_control hcontrol rest)
    · rw [if_neg hcontrol, List.singleton_append, readString, if_neg hcontrol]
      · exact hquote
      · exact hbackslash
  all_goals exact readString_of_readEscape rfl

/-- The characters of a string are read back up to the closing quote. -/
theorem readString_escaped (acc cs rest : List Char) :
    readString acc (cs.flatMap escapeChar ++ '"' :: rest) =
      .ok (String.ofList (acc.reverse ++ cs), rest) := by
  induction cs generalizing acc with
  | nil =>
    rw [List.flatMap_nil, List.nil_append, readString, List.append_nil]
  | cons c cs ih =>
    rw [List.flatMap_cons, List.append_assoc, readString_escapeChar, ih,
      List.reverse_cons, List.append_assoc, List.singleton_append]

/-- A string is read back from its escaped characters. -/
theorem readString_toList (s : String) (rest : List Char) :
    readString [] (s.toList.flatMap escapeChar ++ '"' :: rest) = .ok (s, rest) := by
  rw [readString_escaped, List.reverse_nil, List.nil_append, String.ofList_toList]

/-! ## Space -/

/-- Nothing is skipped before a character that is not blank. -/
theorem skipSpace_cons_of_not_isSpace {c : Char} (h : isSpace c = false)
    (rest : List Char) :
    skipSpace (c :: rest) = c :: rest := by
  rw [skipSpace, List.dropWhile_cons_of_neg (by simp [h])]

/-- The indentation of a line is skipped. -/
theorem skipSpace_writeLine (level : Nat) (rest : List Char) :
    skipSpace (writeLine level rest) = skipSpace rest := by
  have hblanks : ∀ n, skipSpace (List.replicate n ' ' ++ rest) = skipSpace rest := by
    intro n
    induction n with
    | zero => rfl
    | succ n ih => exact ih
  exact hblanks (2 * level)

/-! ## What follows -/

theorem write_string (level : Nat) (s : String) (rest : List Char) :
    write level (.string s) rest = writeString s rest := rfl

theorem write_object_cons (level : Nat) (key : String) (value : Json)
    (more : List (String × Json)) (rest : List Char) :
    write level (.object ((key, value) :: more)) rest =
      '\x7b' :: writeLine (level + 1)
        (writeString key
          (':' :: ' ' :: write (level + 1) value (writeFields level more rest))) :=
  rfl

/-- A writer keeps what comes after it: its text ends in the `rest` it is given. -/
theorem suffix_writeLine (level : Nat) (rest : List Char) :
    rest <:+ writeLine level rest :=
  (List.suffix_append _ rest).trans (List.suffix_cons _ _)

theorem suffix_writeString (s : String) (rest : List Char) :
    rest <:+ writeString s rest :=
  (List.suffix_cons _ rest).trans ((List.suffix_append _ _).trans (List.suffix_cons _ _))

/-- The text of a field, up to its value, stands before what follows. -/
theorem suffix_writeField (level : Nat) (key : String) (rest : List Char) :
    rest <:+ writeLine level (writeString key (':' :: ' ' :: rest)) := by
  have hmark : rest <:+ ':' :: ' ' :: rest :=
    (List.suffix_cons _ rest).trans (List.suffix_cons _ _)
  exact (hmark.trans (suffix_writeString key _)).trans (suffix_writeLine level _)

mutual

/-- A value is written in front of what follows. -/
theorem suffix_write (level : Nat) (value : Json) (rest : List Char) :
    rest <:+ write level value rest := by
  match value with
  | .null | .bool true | .bool false | .natural _ | .float _ =>
    exact List.suffix_append _ _
  | .negative _ => exact (List.suffix_append _ _).trans (List.suffix_cons _ _)
  | .string s => exact suffix_writeString s rest
  | .array [] | .object [] => exact (List.suffix_cons _ _).trans (List.suffix_cons _ _)
  | .array (value :: more) =>
    have hmore := suffix_writeElements level more rest
    have hvalue := suffix_write (level + 1) value (writeElements level more rest)
    exact ((hmore.trans hvalue).trans (suffix_writeLine _ _)).trans (List.suffix_cons _ _)
  | .object ((key, value) :: more) =>
    have hmore := suffix_writeFields level more rest
    have hvalue := suffix_write (level + 1) value (writeFields level more rest)
    exact ((hmore.trans hvalue).trans (suffix_writeField _ key _)).trans
      (List.suffix_cons _ _)

theorem suffix_writeElements (level : Nat) (elements : List Json) (rest : List Char) :
    rest <:+ writeElements level elements rest := by
  match elements with
  | [] => exact (List.suffix_cons _ rest).trans (suffix_writeLine _ _)
  | value :: more =>
    have hmore := suffix_writeElements level more rest
    have hvalue := suffix_write (level + 1) value (writeElements level more rest)
    exact ((hmore.trans hvalue).trans (suffix_writeLine _ _)).trans (List.suffix_cons _ _)

theorem suffix_writeFields (level : Nat) (fields : List (String × Json))
    (rest : List Char) :
    rest <:+ writeFields level fields rest := by
  match fields with
  | [] => exact (List.suffix_cons _ rest).trans (suffix_writeLine _ _)
  | (key, value) :: more =>
    have hmore := suffix_writeFields level more rest
    have hvalue := suffix_write (level + 1) value (writeFields level more rest)
    exact ((hmore.trans hvalue).trans (suffix_writeField _ key _)).trans
      (List.suffix_cons _ _)

end

/-! ## Values -/

section Reading

variable {ε : Type} {tooDeep : ε} {fits fits' : Prop} {value value' : Json}
  {rest rest' : List Char}

/-- What a reader makes of the text of a value: the value, if it fits, with what follows
it; or else a stop because it is nested too deeply. -/
inductive Gives (tooDeep : ε) (fits : Prop) (value : Json) (rest : List Char) :
    Read ε Json → Prop
  | value (h : fits) : Gives tooDeep fits value rest (.ok (value, rest))
  | stop (h : ¬ fits) (stop : Stop ε) (hreason : stop.reason = tooDeep) :
      Gives tooDeep fits value rest (.error stop)

/-- The condition may be replaced by an equivalent one. -/
theorem Gives.of_iff {result : Read ε Json} (h : Gives tooDeep fits value rest result)
    (hiff : fits ↔ fits') : Gives tooDeep fits' value rest result := by
  rwa [propext hiff] at h

/-- Where the value fits, it is what is read. -/
theorem Gives.eq_ok {result : Read ε Json} (h : Gives tooDeep fits value rest result)
    (hfits : fits) : result = .ok (value, rest) := by
  cases h with
  | value _ => rfl
  | stop hnot => exact absurd hfits hnot

/-- Where it does not, reading stops for the reason given. -/
theorem Gives.exists_eq_error {result : Read ε Json}
    (h : Gives tooDeep fits value rest result) (hnot : ¬ fits) :
    ∃ stop, result = .error stop ∧ stop.reason = tooDeep := by
  cases h with
  | value hfits => exact absurd hfits hnot
  | stop _ stop hreason => exact ⟨stop, rfl, hreason⟩

/-- One reader after the other: both values have to fit. -/
theorem Gives.andThen {result : Read ε Json} {next : Json → List Char → Read ε Json}
    (h : Gives tooDeep fits value rest result)
    (hnext : Gives tooDeep fits' value' rest' (next value rest)) :
    Gives tooDeep (fits ∧ fits') value' rest' (result.andThen next) := by
  cases h with
  | stop h stop hreason => exact .stop (fun hboth => h hboth.1) stop hreason
  | value h => exact hnext.of_iff (and_iff_right h).symm

/-- One reader after the other, where the second one only looks at the value. -/
theorem Gives.andThen_of_eq_ok {result : Read ε Json}
    {next : Json → List Char → Read ε Json} (h : Gives tooDeep fits value rest result)
    (hnext : next value rest = .ok (value', rest')) :
    Gives tooDeep fits value' rest' (result.andThen next) := by
  have hthen : Gives tooDeep True value' rest' (next value rest) := by
    rw [hnext]
    exact .value trivial
  exact (h.andThen hthen).of_iff (and_iff_left trivial)

/-- Renaming the reasons renames this one. -/
theorem Gives.mapReason {δ : Type} {deep : δ} {result : Read δ Json} (wrap : δ → ε)
    (h : Gives deep fits value rest result) :
    Gives (wrap deep) fits value rest (result.mapReason wrap) := by
  cases h with
  | value h => exact .value h
  | stop h stop hreason => exact .stop h _ (congrArg wrap hreason)

end Reading

/-- Reading the text of the value gives the value back, with whatever follows it, if the
reader allows for its nesting; else it stops at that. -/
def ReadsBack (value : Json) : Prop :=
  ∀ (levels rounds level : Nat) (rest : List Char),
    (write level value rest).length ≤ rounds →
    Gives .tooDeep (value.nesting ≤ levels) value rest
      (readValue rounds levels (write level value rest))

/-- A value without nesting that is read back is read back within any number of levels. -/
theorem ReadsBack.of_eq {value : Json} (hnesting : value.nesting = 0)
    (h : ∀ (levels rounds level : Nat) (rest : List Char),
      readValue rounds levels (write level value rest) = .ok (value, rest)) :
    ReadsBack value := by
  intro levels rounds level rest _
  rw [h]
  exact .value (by omega)

theorem readsBack_null : ReadsBack .null := by
  refine .of_eq rfl fun levels rounds level rest => ?_
  unfold readValue
  rfl

theorem readsBack_bool (b : Bool) : ReadsBack (.bool b) := by
  refine .of_eq rfl fun levels rounds level rest => ?_
  unfold readValue
  cases b <;> rfl

/-- A string reads back at every level, since it nests nothing. -/
theorem readsBack_string (s : String) : ReadsBack (.string s) := by
  refine .of_eq rfl fun levels rounds level rest => ?_
  unfold readValue
  rw [write_string, writeString, skipSpace_cons_of_not_isSpace rfl]
  show (readString [] _).andThen _ = _
  rw [readString_toList]
  rfl

/-! ## Objects -/

section Fields

variable {ε : Type} {wrap : Defect → ε} {levels bound level : Nat}
  {field : List (String × Json) → String → List Char → Read ε Json}

/-- A reader of fields that has read `acc` gives back a field with the given key and
value, as long as no more than `bound` characters are left from the value on. -/
def FieldReadsBack (wrap : Defect → ε) (levels bound level : Nat)
    (field : List (String × Json) → String → List Char → Read ε Json)
    (acc : List (String × Json)) (key : String) (value : Json) : Prop :=
  ∀ rest, (write (level + 1) value rest).length ≤ bound →
    Gives (wrap .tooDeep) (value.nesting ≤ levels) value rest
      (field acc key (':' :: ' ' :: write (level + 1) value rest))

/-- Before the first field there is no comma to read. -/
theorem readFields_first (rounds level : Nat) (key : String) (text : List Char) :
    readFields wrap field (rounds + 1) [] (writeLine level (writeString key text)) =
      (field [] key text).andThen fun value rest =>
        readFields wrap field rounds [(key, value)] rest := by
  rw [readFields, skipSpace_writeLine, writeString, skipSpace_cons_of_not_isSpace rfl]
  show Read.andThen (Read.mapReason wrap (readString [] _)) _ = _
  rw [readString_toList]
  rfl

/-- Before each later field there is one. -/
theorem readFields_comma {acc : List (String × Json)} (hacc : acc.isEmpty = false)
    (rounds level : Nat) (key : String) (text : List Char) :
    readFields wrap field (rounds + 1) acc
      (',' :: writeLine level (writeString key text)) =
      (field acc key text).andThen fun value rest =>
        readFields wrap field rounds ((key, value) :: acc) rest := by
  rw [readFields, skipSpace_cons_of_not_isSpace rfl]
  show (if acc.isEmpty then _ else _) = _
  rw [hacc, if_neg Bool.false_ne_true, if_pos rfl, skipSpace_writeLine, writeString,
    skipSpace_cons_of_not_isSpace rfl]
  show Read.andThen (Read.mapReason wrap (readString [] _)) _ = _
  rw [readString_toList]
  rfl

/-- The remaining fields of an object are read back, and added to those read before. -/
theorem gives_writeFields (more acc : List (String × Json)) (rest : List Char)
    (rounds : Nat) (hacc : acc ≠ [])
    (hfield : ∀ acc, ∀ f ∈ more, FieldReadsBack wrap levels bound level field acc f.1 f.2)
    (hrounds : (writeFields level more rest).length ≤ rounds)
    (hbound : (writeFields level more rest).length ≤ bound) :
    Gives (wrap .tooDeep) (nestingFields more ≤ levels)
      (.object (acc.reverse ++ more)) rest
      (readFields wrap field rounds acc (writeFields level more rest)) := by
  have hempty : acc.isEmpty = false := by simpa using hacc
  -- One round takes one field, and with it at least one character.
  induction more generalizing acc rounds with
  | nil =>
    cases rounds with
    | zero => simp [writeFields, writeLine] at hrounds
    | succ rounds =>
      rw [List.append_nil, readFields, writeFields, skipSpace_writeLine,
        skipSpace_cons_of_not_isSpace rfl]
      exact .value (Nat.zero_le _)
  | cons f more ih =>
    obtain ⟨key, value⟩ := f
    have hvalue := (suffix_writeField (level + 1) key
      (write (level + 1) value (writeFields level more rest))).length_le
    have hmore := (suffix_write (level + 1) value (writeFields level more rest)).length_le
    rw [writeFields, List.length_cons] at hrounds hbound
    cases rounds with
    | zero => omega
    | succ rounds =>
      rw [writeFields, readFields_comma hempty]
      have hread :=
        hfield acc (key, value) List.mem_cons_self (writeFields level more rest)
        (Nat.le_trans hvalue (by omega))
      have hrest := ih ((key, value) :: acc) rounds (List.cons_ne_nil _ _)
        (fun acc f hf => hfield acc f (List.mem_cons_of_mem _ hf)) (by omega)
          (by omega) rfl
      rw [List.reverse_cons, List.append_assoc, List.singleton_append] at hrest
      refine (hread.andThen hrest).of_iff ?_
      rw [nestingFields, Nat.max_le]

/-- The fields of an object are read back after its opening brace. -/
theorem gives_object (key : String) (value : Json) (more : List (String × Json))
    (rest : List Char) (rounds : Nat)
    (hfirst : FieldReadsBack wrap levels bound level field [] key value)
    (hmore : ∀ acc, ∀ f ∈ more, FieldReadsBack wrap levels bound level field acc f.1 f.2)
    (hrounds : (write level (.object ((key, value) :: more)) rest).length ≤ rounds)
    (hbound : (write level (.object ((key, value) :: more)) rest).length ≤ bound) :
    Gives (wrap .tooDeep) (nestingFields ((key, value) :: more) ≤ levels)
      (.object ((key, value) :: more)) rest
      (readFields wrap field rounds [] (writeLine (level + 1)
        (writeString key
          (':' :: ' ' :: write (level + 1) value (writeFields level more rest))))) := by
  have hvalue := (suffix_writeField (level + 1) key
    (write (level + 1) value (writeFields level more rest))).length_le
  have hrest := (suffix_write (level + 1) value (writeFields level more rest)).length_le
  rw [write_object_cons, List.length_cons] at hrounds hbound
  cases rounds with
  | zero => omega
  | succ rounds =>
    rw [readFields_first]
    have hread := hfirst (writeFields level more rest) (by omega)
    have hfields :=
      gives_writeFields more [(key, value)] rest rounds (List.cons_ne_nil _ _) hmore
      (by omega) (by omega)
    refine (hread.andThen hfields).of_iff ?_
    rw [nestingFields, Nat.max_le]

end Fields

/-- A blank before a value is skipped. -/
theorem readValue_blank (rounds levels : Nat) (cs : List Char) :
    readValue rounds levels (' ' :: cs) = readValue rounds levels cs := by
  unfold readValue
  rfl

/-- An object with fields is read back if its values are. -/
theorem ReadsBack.object {key : String} {value : Json} {more : List (String × Json)}
    (hvalue : ReadsBack value) (hmore : ∀ f ∈ more, ReadsBack f.2) :
    ReadsBack (.object ((key, value) :: more)) := by
  intro levels rounds level rest hrounds
  have hnesting : Json.nesting (.object ((key, value) :: more)) =
      nestingFields ((key, value) :: more) + 1 := rfl
  rw [readValue, write_object_cons, skipSpace_cons_of_not_isSpace rfl]
  cases levels with
  | zero => exact .stop (by omega) _ rfl
  | succ levels =>
    have hfield : ∀ (acc : List (String × Json)) (f : String × Json), ReadsBack f.2 →
        FieldReadsBack id levels rounds level
          (fun _ _ cs => (readColon cs).andThen fun _ cs => readValue rounds levels cs)
          acc f.1 f.2 := by
      intro acc f hf rest hlength
      -- The colon and the blank before the value are skipped.
      show Gives _ _ _ _ (readValue rounds levels (' ' :: _))
      rw [readValue_blank]
      exact hf levels rounds (level + 1) rest hlength
    have hfields :=
      gives_object key value more rest rounds (hfield [] (key, value) hvalue)
      (fun acc f hf => hfield acc f (hmore f hf)) hrounds hrounds
    exact hfields.of_iff (by omega)

/-! ## Nesting -/

/-- Fields nest as deep as the deepest of their values. -/
theorem nestingFields_le_iff {fields : List (String × Json)} {n : Nat} :
    nestingFields fields ≤ n ↔ ∀ f ∈ fields, f.2.nesting ≤ n := by
  induction fields with
  | nil => simp [nestingFields]
  | cons f fields ih => rw [nestingFields, Nat.max_le, ih, List.forall_mem_cons]

/-- Elements nest as deep as the deepest of them. -/
theorem nestingElements_le_iff {elements : List Json} {n : Nat} :
    nestingElements elements ≤ n ↔ ∀ value ∈ elements, value.nesting ≤ n := by
  induction elements with
  | nil => simp [nestingElements]
  | cons value elements ih => rw [nestingElements, Nat.max_le, ih, List.forall_mem_cons]

section Nesting

variable {ε : Type} {n : Nat}

/-- Whatever is read is nested at most `n` deep. -/
def Nested (n : Nat) (result : Read ε Json) : Prop :=
  ∀ value rest, result = .ok (value, rest) → value.nesting ≤ n

namespace Nested

/-- A value that nests little enough may be read. -/
theorem ok {value : Json} {rest : List Char} (h : value.nesting ≤ n) :
    Nested n (.ok (value, rest) : Read ε Json) := by
  rintro _ _ ⟨⟩
  exact h

theorem error (stop : Stop ε) : Nested n (.error stop : Read ε Json) :=
  nofun

/-- What follows a reading need only be looked at where that succeeds. -/
theorem andThen {α : Type} {result : Read ε α} {next : α → List Char → Read ε Json}
    (h : ∀ a rest, result = .ok (a, rest) → Nested n (next a rest)) :
    Nested n (result.andThen next) := by
  cases result with
  | error stop => exact .error stop
  | ok p => exact h p.1 p.2 rfl

theorem mapReason {δ : Type} {wrap : δ → ε} {result : Read δ Json} (h : Nested n result) :
    Nested n (result.mapReason wrap) := by
  cases result with
  | error stop => exact .error _
  | ok p => exact .ok (h p.1 p.2 rfl)

end Nested

/-- A keyword gives its value or nothing. -/
theorem nested_readKeyword {value : Json} (h : value.nesting ≤ n)
    (expected cs : List Char) :
    Nested n (readKeyword value expected cs) := by
  induction expected generalizing cs with
  | nil => exact .ok h
  | cons e expected ih =>
    cases cs with
    | nil => exact .error _
    | cons c cs =>
      rw [readKeyword]
      split
      · exact ih cs
      · exact .error _

/-- Numbers nest nothing, whichever way they are read. -/
theorem nested_finishFloat (negative : Bool) (significand : Nat) (exponent : Int)
    (rest : List Char) : Nested n (finishFloat negative significand exponent rest) := by
  unfold finishFloat
  split
  · exact .ok (Nat.zero_le _)
  · exact .error _

theorem nested_readExponent (negative : Bool) (significand : Nat) (start : Int)
    (cs : List Char) :
    Nested n (readExponent negative significand start cs) := by
  unfold readExponent
  dsimp only
  split
  · exact .error _
  · split
    · exact .error _
    · split
      · split
        · exact .error _
        · exact .ok (Nat.zero_le _)
      · exact nested_finishFloat _ _ _ _

theorem nested_readOptionalExponent (negative : Bool) (significand : Nat)
    (exponent : Int) (cs : List Char) :
    Nested n (readOptionalExponent negative significand exponent cs) := by
  unfold readOptionalExponent
  split
  · split
    · exact nested_readExponent _ _ _ _
    · exact nested_finishFloat _ _ _ _
  · exact nested_finishFloat _ _ _ _

theorem nested_readFraction (negative : Bool) (significand : Nat) (start : Int)
    (cs : List Char) :
    Nested n (readFraction negative significand start cs) := by
  unfold readFraction
  split
  · split <;> exact .error _
  · exact nested_readOptionalExponent _ _ _ _

theorem nested_readAfterInteger (negative : Bool) (significand : Nat) (cs : List Char) :
    Nested n (readAfterInteger negative significand cs) := by
  unfold readAfterInteger
  split
  · exact nested_readFraction _ _ _ _
  · split
    · exact nested_readExponent _ _ _ _
    · split
      · exact .ok (Nat.zero_le _)
      · split
        · exact nested_finishFloat _ _ _ _
        · exact .ok (Nat.zero_le _)

/-- Numbers are not nested. -/
theorem nested_readNumber (negative : Bool) (cs : List Char) :
    Nested n (readNumber negative cs) := by
  unfold readNumber
  split
  · exact .error _
  · split
    · exact .error _
    · exact nested_readAfterInteger _ _ _
  · split
    · exact .error _
    · dsimp only
      split
      · unfold readAfterLongInteger
        split
        · exact nested_readFraction _ _ _ _
        · exact nested_readOptionalExponent _ _ _ _
      · exact nested_readAfterInteger _ _ _

/-- An array is nested one level deeper than the elements that were read before and those
that the reader of elements gives. -/
theorem nested_readElements {wrap : Defect → ε}
    {element : List Json → List Char → Read ε Json}
    (helement : ∀ acc cs, Nested n (element acc cs)) (rounds : Nat) (acc : List Json)
    (cs : List Char) (hacc : ∀ value ∈ acc, value.nesting ≤ n) :
    Nested (n + 1) (readElements wrap element rounds acc cs) := by
  induction rounds generalizing acc cs with
  | zero => exact .error _
  | succ rounds ih =>
    -- An element that is read is added to those before it.
    have hnext : ∀ cs, Nested (n + 1) ((element acc cs).andThen fun value rest =>
        readElements wrap element rounds (value :: acc) rest) := by
      intro cs
      refine .andThen fun value rest hvalue => ih _ _ ?_
      exact List.forall_mem_cons.mpr ⟨helement acc cs value rest hvalue, hacc⟩
    rw [readElements]
    split
    · exact .error _
    · refine .ok (Nat.succ_le_succ (nestingElements_le_iff.mpr fun value hvalue => ?_))
      exact hacc value (List.mem_reverse.mp hvalue)
    · split
      · exact hnext _
      · split
        · split
          · exact .error _
          · exact .error _
          · exact hnext _
        · exact .error _

/-- An object is nested one level deeper than the fields that were read before and those
that the reader of fields gives. -/
theorem nested_readFields {wrap : Defect → ε}
    {field : List (String × Json) → String → List Char → Read ε Json}
    (hfield : ∀ acc key cs, Nested n (field acc key cs)) (rounds : Nat)
    (acc : List (String × Json)) (cs : List Char) (hacc : ∀ f ∈ acc, f.2.nesting ≤ n) :
    Nested (n + 1) (readFields wrap field rounds acc cs) := by
  induction rounds generalizing acc cs with
  | zero => exact .error _
  | succ rounds ih =>
    have hnext : ∀ cs, Nested (n + 1) (((readString [] cs).mapReason wrap).andThen
        fun key rest => (field acc key rest).andThen fun value rest =>
          readFields wrap field rounds ((key, value) :: acc) rest) := by
      intro cs
      refine .andThen fun key rest _ => .andThen fun value left hvalue => ih _ _ ?_
      exact List.forall_mem_cons.mpr ⟨hfield acc key rest value left hvalue, hacc⟩
    rw [readFields]
    split
    · exact .error _
    · refine .ok (Nat.succ_le_succ (nestingFields_le_iff.mpr fun f hf => ?_))
      exact hacc f (List.mem_reverse.mp hf)
    · split
      · split
        · exact hnext _
        · exact .error _
      · split
        · split
          · exact .error _
          · exact hnext _
          · exact .error _
          · exact .error _
        · exact .error _

/-- No value that is read is nested deeper than the reader allows for. -/
theorem nested_readValue (rounds levels : Nat) (cs : List Char) :
    Nested levels (readValue rounds levels cs) := by
  induction levels using Nat.strongRecOn generalizing cs with
  | ind levels ih =>
    rw [readValue]
    split
    · exact .error _
    · exact .andThen fun s rest _ => .ok (Nat.zero_le _)
    · exact nested_readKeyword (Nat.zero_le _) _ _
    · exact nested_readKeyword (Nat.zero_le _) _ _
    · exact nested_readKeyword (Nat.zero_le _) _ _
    · exact nested_readNumber _ _
    · -- An array or an object takes one level from what is in it.
      split
      · exact .error _
      · rename_i levels
        exact nested_readElements (fun _ cs => ih levels (Nat.lt_succ_self _) cs) _
          _ _ nofun
    · split
      · exact .error _
      · rename_i levels
        refine nested_readFields (fun _ _ cs => .andThen fun _ cs _ => ?_) _ _ _ nofun
        exact ih levels (Nat.lt_succ_self _) cs
    · split
      · exact nested_readNumber _ _
      · exact .error _

end Nesting

end RealMode.Json
