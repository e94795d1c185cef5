/-!
# Decimal numerals

A numeral is an optional sign, digits with at most one point among them and at least one
digit, and an optional exponent. `Decimal.parse?` reads a whole text as a numeral and
keeps its exact value: a sign, a natural number and a power of ten.
-/

namespace RealMode

/-- The number ± `digits` · 10 ^ `exponent`. -/
structure Decimal where
  negative : Bool
  digits : Nat
  exponent : Int
deriving DecidableEq, Repr

namespace Decimal

/-- The value of a run of decimal digits; the empty run is zero. -/
def natValue (cs : List Char) : Nat :=
  cs.foldl (fun n c => 10 * n + (c.toNat - '0'.toNat)) 0

/-- Takes a sign off the front; `true` is a minus. -/
def splitSign : List Char → Bool × List Char
  | '-' :: rest => (true, rest)
  | '+' :: rest => (false, rest)
  | cs => (false, cs)

/-- Cuts a text after its leading digits. -/
def splitDigits (cs : List Char) : List Char × List Char :=
  (cs.takeWhile Char.isDigit, cs.dropWhile Char.isDigit)

/-- Cuts a text after a point and the digits that follow it; without a point nothing is
taken. -/
def splitFraction : List Char → List Char × List Char
  | '.' :: rest => splitDigits rest
  | cs => ([], cs)

/-- Reads what stands after the exponent mark: an optional sign and at least one digit. -/
def exponentValue? (cs : List Char) : Option Int :=
  let (negative, cs) := splitSign cs
  if cs.isEmpty || !cs.all Char.isDigit then none
  else if negative then some (-(natValue cs : Int))
  else some (natValue cs)

/-- Reads what follows the digits: nothing, or an exponent up to the end of the text. -/
def suffixValue? : List Char → Option Int
  | [] => some 0
  | c :: rest => if c == 'e' || c == 'E' then exponentValue? rest else none

/-- Reads a whole text as a numeral. -/
def parse? (cs : List Char) : Option Decimal :=
  let (negative, cs) := splitSign cs
  let (whole, cs) := splitDigits cs
  let (fraction, cs) := splitFraction cs
  if whole.isEmpty && fraction.isEmpty then none
  else (suffixValue? cs).map fun exponent =>
    ⟨negative, natValue (whole ++ fraction), exponent - fraction.length⟩

/-- Reads a 64-bit natural number: digits alone, after a plus sign at most. -/
def natural? (text : String) : Option Nat :=
  let digits := match text.toList with
    | '+' :: rest => rest
    | cs => cs
  if digits.isEmpty || !digits.all Char.isDigit then none
  else if natValue digits < Nat.pow 2 64 then some (natValue digits)
  else none

end Decimal

end RealMode
