import RealMode.Decimal

/-!
# Double-precision numbers

A finite double is ± `significand` · 2 ^ `exponent`, where the significand is below 2 ^ 53
and the exponent lies between -1074 and 971. Everything here is exact arithmetic on
natural numbers.

- `Binary64.ofRatio?` is the double nearest to a quotient, with ties to the even
  significand; a quotient that would round to 2 ^ 1024 or more has none.
- `mul?` and `div?` are the exact product and quotient, rounded.
- `ofDecimal?` is the double nearest to a decimal numeral.
-/

namespace RealMode

/-- A finite double: ± `significand` · 2 ^ `exponent`. -/
structure Binary64 where
  negative : Bool
  significand : Nat
  exponent : Int
deriving DecidableEq, Repr

/-- The natural number nearest to `num / den`; of two equally near the even one. -/
def roundToEven (num den : Nat) : Nat :=
  let q := num / den
  let r := num % den
  if 2 * r < den then q
  else if den < 2 * r then q + 1
  else if q % 2 = 0 then q
  else q + 1

/-- The quotient `(num / den) / 2 ^ e`, as a numerator and a denominator. -/
def scaleByTwo (num den : Nat) : Int → Nat × Nat
  | .ofNat k => (num, den * Nat.pow 2 k)
  | .negSucc k => (num * Nat.pow 2 (k + 1), den)

/-- The largest `e` with `2 ^ e ≤ num / den`, for positive `num` and `den`. -/
def floorLog2 (num den : Nat) : Int :=
  let e : Int := (num.log2 : Int) - (den.log2 : Int)
  let (n, d) := scaleByTwo num den e
  if d ≤ n then e else e - 1

namespace Binary64

/-- The exponent of the least positive double, and of zero. -/
def minExponent : Int := -1074

/-- The exponent of the doubles just below 2 ^ 1024. -/
def maxExponent : Int := 971

/-- Zero with the given sign. -/
def zero (negative : Bool) : Binary64 :=
  ⟨negative, 0, minExponent⟩

/-- Whether the double is zero, of either sign. -/
def isZero (x : Binary64) : Bool :=
  x.significand == 0

/-- The double nearest to ± `num / den`, ties to even; none if that overflows. -/
def ofRatio? (negative : Bool) (num den : Nat) : Option Binary64 :=
  if num = 0 then some (zero negative)
  else
    let e := max minExponent (floorLog2 num den - 52)
    let (n, d) := scaleByTwo num den e
    let m := roundToEven n d
    -- Rounding up may reach the next power of two.
    let (m, e) := if m = Nat.pow 2 53 then (Nat.pow 2 52, e + 1) else (m, e)
    if maxExponent < e then none else some ⟨negative, m, e⟩

/-- The magnitude as a numerator and a denominator. -/
def ratio (x : Binary64) : Nat × Nat :=
  scaleByTwo x.significand 1 (-x.exponent)

/-- The rounded product; none if it overflows. -/
def mul? (x y : Binary64) : Option Binary64 :=
  let (a, b) := x.ratio
  let (c, d) := y.ratio
  ofRatio? (x.negative != y.negative) (a * c) (b * d)

/-- The rounded quotient by a nonzero divisor; none if it overflows. -/
def div? (x y : Binary64) : Option Binary64 :=
  let (a, b) := x.ratio
  let (c, d) := y.ratio
  ofRatio? (x.negative != y.negative) (a * d) (b * c)

/-- The integer part, toward zero. -/
def truncate (x : Binary64) : Int :=
  let (n, d) := x.ratio
  if x.negative then -((n / d : Nat) : Int) else ((n / d : Nat) : Int)

/-- The double nearest to a decimal numeral; none if that overflows.

Two cases are settled by the size of the exponent alone, so that no huge power is
computed: a positive number of at least 10 ^ 400 overflows, and one below 10 ^ -400 is
nearer to zero than to the least positive double. -/
def ofDecimal? (x : Decimal) : Option Binary64 :=
  if x.digits = 0 then some (zero x.negative)
  else if 400 ≤ x.exponent then none
  else if (x.digits.log2 : Int) + 1 + x.exponent ≤ -400 then some (zero x.negative)
  else match x.exponent with
    | .ofNat k => ofRatio? x.negative (x.digits * Nat.pow 10 k) 1
    | .negSucc k => ofRatio? x.negative x.digits (Nat.pow 10 (k + 1))

end Binary64

end RealMode
