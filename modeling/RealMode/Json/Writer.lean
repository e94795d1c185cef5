import RealMode.Json.Basic

/-!
# JSON text

`Json.write` lays a value out over several lines, with two more blanks of indentation per
level. It puts the text in front of what is to follow, so that writing takes time linear
in the length of the text.

In a string the quote and the backslash are escaped, the usual control characters have
short escapes, other characters below the blank are written with four hexadecimal digits,
and everything else stands for itself.
-/

namespace RealMode.Json

/-- A character as it stands in a JSON string. -/
def escapeChar (c : Char) : List Char :=
  match c with
  | '"' => ['\\', '"']
  | '\\' => ['\\', '\\']
  | '\x08' => ['\\', 'b']
  | '\x0c' => ['\\', 'f']
  | '\n' => ['\\', 'n']
  | '\r' => ['\\', 'r']
  | '\t' => ['\\', 't']
  | c =>
    if c.toNat < 0x20 then
      ['\\', 'u', '0', '0', Nat.digitChar (c.toNat / 16), Nat.digitChar (c.toNat % 16)]
    else [c]

/-- Writes a string in quotes, before `rest`. -/
def writeString (s : String) (rest : List Char) : List Char :=
  '"' :: (s.toList.flatMap escapeChar ++ '"' :: rest)

/-- Begins a line at the given level of indentation, before `rest`. -/
def writeLine (level : Nat) (rest : List Char) : List Char :=
  '\n' :: (List.replicate (2 * level) ' ' ++ rest)

mutual

/-- Writes a value at the given level of indentation, before `rest`. -/
def write (level : Nat) : Json → List Char → List Char
  | .null, rest => "null".toList ++ rest
  | .bool true, rest => "true".toList ++ rest
  | .bool false, rest => "false".toList ++ rest
  | .natural value, rest => Nat.toDigits 10 value ++ rest
  | .negative magnitude, rest => '-' :: (Nat.toDigits 10 magnitude ++ rest)
  | .float value, rest => value.text.toList ++ rest
  | .string value, rest => writeString value rest
  | .array [], rest => '[' :: ']' :: rest
  | .array (value :: more), rest =>
    '[' :: writeLine (level + 1) (write (level + 1) value (writeElements level more rest))
  | .object [], rest => '\x7b' :: '\x7d' :: rest
  | .object ((key, value) :: more), rest =>
    '\x7b' :: writeLine (level + 1)
      (writeString key
        (':' :: ' ' :: write (level + 1) value (writeFields level more rest)))

/-- Writes the remaining elements of an array and its end, before `rest`. -/
def writeElements (level : Nat) : List Json → List Char → List Char
  | [], rest => writeLine level (']' :: rest)
  | value :: more, rest =>
    ',' :: writeLine (level + 1) (write (level + 1) value (writeElements level more rest))

/-- Writes the remaining fields of an object and its end, before `rest`. -/
def writeFields (level : Nat) : List (String × Json) → List Char → List Char
  | [], rest => writeLine level ('\x7d' :: rest)
  | (key, value) :: more, rest =>
    ',' :: writeLine (level + 1)
      (writeString key
        (':' :: ' ' :: write (level + 1) value (writeFields level more rest)))

end

/-- The text of a value. -/
def render (value : Json) : String :=
  String.ofList (write 0 value [])

end RealMode.Json
