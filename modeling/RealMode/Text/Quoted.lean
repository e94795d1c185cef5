import RealMode.Text.Printable

/-!
# Quoted text in messages

A text is quoted in double quotes, so that its ends and everything invisible in it show. A
double quote, a backslash, the newline, the carriage return, the tab and the null
character have short escapes; any other character that is not printable is written as its
code point in lower-case hexadecimal, between braces and without padding.
-/

namespace RealMode.Text

/-- The digits of a number in lower-case hexadecimal, without padding. -/
def hexDigits (n : Nat) : List Char :=
  Nat.toDigits 16 n

/-- A character as it stands in a quoted text. -/
def quoteChar (c : Char) : List Char :=
  match c with
  | '"' => ['\\', '"']
  | '\\' => ['\\', '\\']
  | '\n' => ['\\', 'n']
  | '\r' => ['\\', 'r']
  | '\t' => ['\\', 't']
  | '\x00' => ['\\', '0']
  | c =>
    if isPrintable c then [c]
    else ['\\', 'u', '\x7b'] ++ hexDigits c.toNat ++ ['\x7d']

/-- A text between double quotes, with all that is not printable escaped. -/
def quoted (text : String) : String :=
  String.ofList ('"' :: (text.toList.flatMap quoteChar ++ ['"']))

end RealMode.Text
