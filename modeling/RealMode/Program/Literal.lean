import RealMode.Binary64.Basic
import RealMode.Text.Blank

/-!
# The value of a number literal

A literal is a decimal numeral, blanks at its ends aside. It is rounded to the nearest
double and cut to its integer part, which is kept within 64 bits. A literal that rounds to
no finite double has no value.
-/

namespace RealMode.Literal

/-- The least 64-bit integer. -/
def minInt : Int := -(Nat.pow 2 63 : Nat)

/-- The greatest 64-bit integer. -/
def maxInt : Int := (Nat.pow 2 63 : Nat) - 1

/-- Keeps an integer within 64 bits: beyond the bounds it is the nearer bound. -/
def clamp (n : Int) : Int :=
  max minInt (min maxInt n)

/-- The value of a literal. -/
def value? (text : String) : Option Int := do
  let numeral ← Decimal.parse? (Text.trim text.toList)
  let x ← Binary64.ofDecimal? numeral
  return clamp x.truncate

/-- Whether a value fits a signed 16-bit word. -/
def fitsWord (n : Int) : Bool :=
  -32768 ≤ n && n ≤ 32767

/-- Whether a literal is written as a number with a fraction or an exponent. -/
def isFloat (text : String) : Bool :=
  text.toList.any fun c => c == '.' || c == 'e' || c == 'E'

end RealMode.Literal
