import RealMode.Binary64.Basic

/-!
# Shortest decimal text of a double

`Binary64.shortest` finds the fewest decimal digits that read back as the same double, and
among those of that length the nearest to it, the even one of two that are equally near.
`Binary64.text` lays them out: in positions while the leading digit's exponent is between
-5 and 15, with a fraction of at least one digit, and in scientific form otherwise.
-/

namespace RealMode.Binary64

/-- The largest `e` with `10 ^ e ≤ num / den`, for positive `num` and `den`. -/
def floorLog10 (num den : Nat) : Int :=
  if den ≤ num then ((Nat.toDigits 10 (num / den)).length : Int) - 1
  else
    let k := (Nat.toDigits 10 (den / num)).length
    if den ≤ num * Nat.pow 10 (k - 1) then -((k - 1 : Nat) : Int) else -(k : Int)

/-- The numeral `digits · 10 ^ exponent`, if it reads back as the magnitude of `x`. -/
def readsBack (x : Binary64) (digits : Nat) (exponent : Int) : Bool :=
  ofDecimal? ⟨x.negative, digits, exponent⟩ == some x

/-- The best numeral of `length` digits for a nonzero double whose leading digit stands
for `10 ^ top`: of the two neighbours on that decimal grid those that read back, and of
both the nearer; halfway between them, the even one. -/
def shortestOfLength? (x : Binary64) (top : Int) (length : Nat) : Option (Nat × Int) :=
  let e := top - (length : Int) + 1
  let (n, d) := x.ratio
  -- The double is `num / den` steps of size `10 ^ e`.
  let (num, den) := match e with
    | .ofNat k => (n, d * Nat.pow 10 k)
    | .negSucc k => (n * Nat.pow 10 (k + 1), d)
  let low := num / den
  -- The upper neighbour of 99…9 is the power of ten above it.
  let high := if low + 1 = Nat.pow 10 length then (1, e + length) else (low + 1, e)
  let lowOk := readsBack x low e
  let highOk := readsBack x high.1 high.2
  if lowOk && highOk then
    let twice := 2 * (num % den)
    if twice < den || (twice = den && low % 2 = 0) then some (low, e) else some high
  else if lowOk then some (low, e)
  else if highOk then some high
  else none

/-- The shortest numeral that reads back as a nonzero double; 17 digits always do. -/
def shortest (x : Binary64) : Nat × Int :=
  let (n, d) := x.ratio
  let top := floorLog10 n d
  ((List.range 17).findSome? fun i => shortestOfLength? x top (i + 1)).getD (0, 0)

/-- An exponent with its sign, which is written for positive ones as well. -/
def exponentText (e : Int) : String :=
  (if e < 0 then "-" else "+") ++ toString e.natAbs

/-- Lays digits out around the decimal point; `top` is the exponent of the first digit. -/
def layout (digits : List Char) (top : Int) : String :=
  let n := digits.length
  if top < -5 || 15 < top then
    let mantissa := match digits with
      | [d] => [d]
      | d :: rest => d :: '.' :: rest
      | [] => []
    String.ofList mantissa ++ "e" ++ exponentText top
  else if top < 0 then
    "0." ++ String.ofList (List.replicate (top.natAbs - 1) '0' ++ digits)
  else
    let whole := top.toNat + 1
    if n ≤ whole then
      String.ofList (digits ++ List.replicate (whole - n) '0') ++ ".0"
    else
      String.ofList (digits.take whole ++ '.' :: digits.drop whole)

/-- The text of a double. -/
def text (x : Binary64) : String :=
  let sign := if x.negative then "-" else ""
  if x.isZero then sign ++ "0.0"
  else
    let (digits, e) := shortest x
    let cs := Nat.toDigits 10 digits
    sign ++ layout cs (e + (cs.length : Int) - 1)

end RealMode.Binary64
