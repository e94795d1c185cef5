import Mathlib.Algebra.Order.Field.Power
import Mathlib.Data.Int.Log
import Mathlib.Data.Rat.Floor
import Mathlib.Tactic.Linarith
import Mathlib.Tactic.NormNum
import Mathlib.Tactic.Positivity
import Mathlib.Tactic.Qify
import Mathlib.Tactic.Ring
import RealMode.Binary64.Basic

/-!
# Rounding to doubles

The arithmetic of doubles is on natural numbers; here it is related to the rational
numbers that it stands for.

- `floorLog2` is the integer part of the binary logarithm (`floorLog2_eq_log`).
- `roundToEven` reaches `k` from `k - 1/2` on, the tie included only if `k` is even
  (`le_roundToEven_iff`).
- The doubles near a quotient lie `2 ^ spacing` apart. The quotient takes an exponent
  above `e` exactly from the middle between the last two multiples of `2 ^ e` below
  `2 ^ (e + 53)` and that power on (`lt_exponent_carried_iff`).

With the greatest exponent for `e` this is the overflow: a quotient has no nearest double
exactly if it is at least `2 ^ 1024 - 2 ^ 970` (`ofRatio?_eq_none_iff`). The same holds of
a decimal numeral, whose extreme exponents are settled without a division
(`ofDecimal?_eq_none_iff`).
-/

namespace RealMode

variable {num den : Nat}

/-! ## Scaling -/

theorem scaleByTwo_den_pos (e : Int) (hden : 0 < den) : 0 < (scaleByTwo num den e).2 := by
  cases e with
  | ofNat k => exact Nat.mul_pos hden (Nat.pow_pos Nat.two_pos)
  | negSucc k => exact hden

/-- Scaling multiplies one side of the ratio and keeps the quotient exact. -/
theorem scaleByTwo_ratio (num den : Nat) (e : Int) :
    ((scaleByTwo num den e).1 : ℚ) / (scaleByTwo num den e).2 = num / den / 2 ^ e := by
  cases e with
  | ofNat k => simp [scaleByTwo, div_div]
  | negSucc k => simp [scaleByTwo, zpow_negSucc, mul_div_right_comm]

/-- A scaled ratio is at least one when the number reaches the power. -/
theorem le_scaleByTwo_iff {e : Int} (hden : 0 < den) :
    (scaleByTwo num den e).2 ≤ (scaleByTwo num den e).1 ↔ (2 : ℚ) ^ e ≤ num / den := by
  have hpos : (0 : ℚ) <
      (scaleByTwo num den e).2 := by exact_mod_cast scaleByTwo_den_pos e hden
  have hratio : (1 : ℚ) ≤ num / den / 2 ^ e ↔ (2 : ℚ) ^ e ≤ num / den :=
    one_le_div₀ (by positivity)
  rw [← hratio, ← scaleByTwo_ratio, one_le_div₀ hpos]
  exact Nat.cast_le.symm

/-- The logarithm's power is reached. -/
theorem zpow_log2_le {n : Nat} (hn : 0 < n) : (2 : ℚ) ^ (n.log2 : ℤ) ≤ n := by
  rw [zpow_natCast]
  exact_mod_cast Nat.log2_self_le hn.ne'

/-- The next one is not. -/
theorem lt_zpow_log2_succ (n : Nat) : (n : ℚ) < 2 ^ ((n.log2 : ℤ) + 1) := by
  have hlt : n < 2 ^ (n.log2 + 1) := Nat.lt_log2_self
  exact_mod_cast hlt

/-- The difference of the two logarithms is the logarithm of the quotient, or one more. -/
theorem floorLog2_eq_log (hnum : 0 < num) (hden : 0 < den) :
    floorLog2 num den = Int.log 2 (num / den : ℚ) := by
  have hpos : (0 : ℚ) < num / den := by positivity
  have hnum₁ := zpow_log2_le hnum
  have hnum₂ := lt_zpow_log2_succ num
  have hden₁ := zpow_log2_le hden
  have hden₂ := lt_zpow_log2_succ den
  have hfloor : floorLog2 num den =
      if (scaleByTwo num den (num.log2 - den.log2)).2 ≤
        (scaleByTwo num den (num.log2 - den.log2)).1
      then (num.log2 : ℤ) - den.log2 else num.log2 - den.log2 - 1 := rfl
  generalize (num.log2 : ℤ) = a at hnum₁ hnum₂ hfloor
  generalize (den.log2 : ℤ) = b at hden₁ hden₂ hfloor
  have hupper : (num : ℚ) / den < 2 ^ (a - b + 1) := by
    rw [div_lt_iff₀ (by positivity)]
    calc (num : ℚ) < 2 ^ (a + 1) := hnum₂
      _ = 2 ^ (a - b + 1) * 2 ^ b := by rw [← zpow_add₀ two_ne_zero]; congr 1; omega
      _ ≤ 2 ^ (a - b + 1) * den := by gcongr
  have hlower : (2 : ℚ) ^ (a - b - 1) ≤ num / den := by
    rw [le_div_iff₀ (by positivity)]
    calc (2 : ℚ) ^ (a - b - 1) * den ≤ 2 ^ (a - b - 1) * 2 ^ (b + 1) := by gcongr
      _ = 2 ^ a := by rw [← zpow_add₀ two_ne_zero]; congr 1; omega
      _ ≤ num := hnum₁
  have hcut : (scaleByTwo num den (a - b)).2 ≤ (scaleByTwo num den (a - b)).1 ↔
      a - b ≤ Int.log 2 (num / den : ℚ) :=
    (le_scaleByTwo_iff hden).trans (Int.zpow_le_iff_le_log one_lt_two hpos)
  have hlog₁ := (Int.lt_zpow_iff_log_lt one_lt_two hpos).mp hupper
  have hlog₂ := (Int.zpow_le_iff_le_log one_lt_two hpos).mp hlower
  rw [hfloor]
  split_ifs with h
  · rw [hcut] at h
    omega
  · rw [hcut] at h
    omega

/-! ## Ties to even -/

/-- Rounding reaches `k` from half a unit below it, the half itself if `k` is even. -/
theorem le_roundToEven_iff_nat {k : Nat} (hden : 0 < den) :
    k ≤ roundToEven num den ↔
      2 * (k * den) < 2 * num + den ∨ 2 * (k * den) = 2 * num + den ∧ Even k := by
  have hnum := Nat.div_add_mod' num den
  have hmod := Nat.mod_lt num hden
  rw [roundToEven, Nat.even_iff]
  generalize num / den = q at *
  generalize num % den = r at *
  subst hnum
  -- Only at the successor of the quotient does the remainder matter.
  rcases Nat.lt_trichotomy k (q + 1) with h | rfl | h
  · have hmul := Nat.mul_le_mul_right den (Nat.lt_succ_iff.mp h)
    split_ifs <;> omega
  · rw [Nat.add_mul, Nat.one_mul]
    split_ifs <;> omega
  · have hmul := Nat.mul_le_mul_right den (Nat.succ_le_iff.mpr h)
    rw [Nat.succ_eq_add_one, Nat.add_mul, Nat.add_mul, Nat.one_mul] at hmul
    split_ifs <;> omega

/-- A quotient is rounded to `k` or more from `k - 1/2` on, and at `k - 1/2` itself if `k`
is even. -/
theorem le_roundToEven_iff {k : Nat} (hden : 0 < den) :
    k ≤ roundToEven num den ↔
      (k : ℚ) - 1 / 2 < num / den ∨ (k : ℚ) - 1 / 2 = num / den ∧ Even k := by
  have hpos : (0 : ℚ) < den := by exact_mod_cast hden
  have hlt : (2 * (k * den) < 2 * num + den) ↔ (k : ℚ) - 1 / 2 < num / den := by
    rw [lt_div_iff₀ hpos]
    qify
    constructor <;> intro h <;> linarith
  have heq : (2 * (k * den) = 2 * num + den) ↔ (k : ℚ) - 1 / 2 = num / den := by
    rw [eq_div_iff hpos.ne']
    qify
    constructor <;> intro h <;> linarith
  rw [le_roundToEven_iff_nat hden, hlt, heq]

namespace Binary64

/-! ## The double of a quotient -/

/-- The exponent of a quotient before it is rounded: the doubles about it lie
`2 ^ spacing` apart. -/
def spacing (num den : Nat) : Int :=
  max minExponent (floorLog2 num den - 52)

/-- The nearest multiple of `2 ^ spacing`. -/
def nearest (num den : Nat) : Nat :=
  roundToEven (scaleByTwo num den (spacing num den)).1
    (scaleByTwo num den (spacing num den)).2

/-- The significand and the exponent after a carry into the next power of two. -/
def carried (num den : Nat) : Nat × Int :=
  if nearest num den = 2 ^ 53 then (2 ^ 52, spacing num den + 1)
  else (nearest num den, spacing num den)

/-- A ratio is represented unless its rounding needs too great an exponent. -/
theorem ofRatio?_of_pos (negative : Bool) (den : Nat) (hnum : 0 < num) :
    ofRatio? negative num den =
      if maxExponent < (carried num den).2 then none
      else some ⟨negative, (carried num den).1, (carried num den).2⟩ := by
  rw [ofRatio?, if_neg hnum.ne']
  rfl

/-- The spacing leaves at most 53 bits before the point. -/
theorem lt_mul_zpow_spacing (hnum : 0 < num) (hden : 0 < den) :
    (num : ℚ) / den < 2 ^ 53 * 2 ^ spacing num den := by
  have hspacing : floorLog2 num den - 52 ≤ spacing num den := le_max_right _ _
  calc (num : ℚ) / den < 2 ^ (floorLog2 num den + 1) := by
        rw [floorLog2_eq_log hnum hden]
        exact Int.lt_zpow_succ_log_self one_lt_two _
    _ ≤ 2 ^ (53 + spacing num den) := zpow_le_zpow_right₀ one_le_two (by omega)
    _ = 2 ^ 53 * 2 ^ spacing num den := zpow_add₀ two_ne_zero _ _

/-- A finer spacing would need more than 53 bits. -/
theorem mul_zpow_le_of_lt_spacing (hnum : 0 < num) (hden : 0 < den) {e : Int}
    (hmin : minExponent ≤ e) (h : e < spacing num den) :
    2 ^ 53 * 2 ^ e ≤ (num : ℚ) / den := by
  have hlog : e < floorLog2 num den - 52 := (lt_max_iff.mp h).resolve_left hmin.not_gt
  calc (2 : ℚ) ^ 53 * 2 ^ e = 2 ^ (53 + e) := (zpow_add₀ two_ne_zero _ _).symm
    _ ≤ 2 ^ floorLog2 num den := zpow_le_zpow_right₀ one_le_two (by omega)
    _ ≤ num / den := by
        rw [floorLog2_eq_log hnum hden]
        exact Int.zpow_log_le_self one_lt_two (by positivity)

/-- The same for the multiple of the spacing that a number is rounded to. -/
theorem le_nearest_iff (hden : 0 < den) (k : Nat) :
    k ≤ nearest num den ↔ (k - 1 / 2) * 2 ^ spacing num den < (num : ℚ) / den ∨
      (k - 1 / 2) * 2 ^ spacing num den = (num : ℚ) / den ∧ Even k := by
  have hpos : (0 : ℚ) < 2 ^ spacing num den := by positivity
  rw [nearest, le_roundToEven_iff (scaleByTwo_den_pos _ hden), scaleByTwo_ratio,
    lt_div_iff₀ hpos, eq_div_iff hpos.ne']

/-- Rounding may carry up to `2 ^ 53`, but no further. -/
theorem nearest_le (hnum : 0 < num) (hden : 0 < den) : nearest num den ≤ 2 ^ 53 := by
  have hlt := lt_mul_zpow_spacing hnum hden
  have hpos : (0 : ℚ) < 2 ^ spacing num den := by positivity
  by_contra h
  have hle := (le_nearest_iff hden _).mp (Nat.succ_le_of_lt (Nat.not_le.mp h))
  push_cast at hle
  rcases hle with h | ⟨h, -⟩
  · linarith
  · linarith

/-- The quotient is carried to the next power of two from the last middle below it on: the
tie goes up, since the significand below is odd. -/
theorem nearest_eq_iff (hnum : 0 < num) (hden : 0 < den) :
    nearest num den = 2 ^ 53 ↔
      (2 ^ 53 - 1 / 2) * 2 ^ spacing num den ≤ (num : ℚ) / den := by
  have heven : Even (2 ^ 53) := ⟨2 ^ 52, rfl⟩
  have hle : 2 ^ 53 ≤ nearest num den ↔ _ := le_nearest_iff hden (2 ^ 53)
  rw [and_iff_left heven, ← le_iff_lt_or_eq, Nat.cast_pow, Nat.cast_ofNat] at hle
  rw [← hle]
  exact (nearest_le hnum hden).ge_iff_eq.symm

/-- A quotient takes an exponent above `e` from the middle below `2 ^ (e + 53)` on. -/
theorem lt_exponent_carried_iff (hnum : 0 < num) (hden : 0 < den) {e : Int}
    (hmin : minExponent ≤ e) :
    e < (carried num den).2 ↔ (2 ^ 53 - 1 / 2) * 2 ^ e ≤ (num : ℚ) / den := by
  have hcarry := nearest_eq_iff hnum hden
  have hexp : (carried num den).2 =
      spacing num den + if nearest num den = 2 ^ 53 then 1 else 0 := by
    rw [carried]
    split_ifs <;> simp
  have hpos : (0 : ℚ) < 2 ^ e := by positivity
  rcases Int.lt_trichotomy (spacing num den) e with h | h | h
  · -- Even a carry does not get beyond `e`.
    have hlt := lt_mul_zpow_spacing hnum hden
    have hzpow : (2 : ℚ) * 2 ^ spacing num den ≤ 2 ^ e := by
      rw [← zpow_one_add₀ two_ne_zero]
      exact zpow_le_zpow_right₀ one_le_two (by omega)
    refine iff_of_false ?_ (by linarith)
    rw [hexp]
    split_ifs <;> omega
  · subst h
    rw [hexp, ← hcarry]
    split_ifs with h
    · exact iff_of_true (Int.lt_succ _) h
    · exact iff_of_false (by simp) h
  · have hle := mul_zpow_le_of_lt_spacing hnum hden hmin h
    refine iff_of_true ?_ (by linarith)
    rw [hexp]
    split_ifs <;> omega

/-! ## Overflow -/

/-- The middle between the greatest double and `2 ^ 1024`. -/
def overflowBound : ℚ := 2 ^ 1024 - 2 ^ 970

/-- Overflow starts half a step above the greatest number. -/
theorem overflowBound_eq : overflowBound = (2 ^ 53 - 1 / 2) * 2 ^ maxExponent := by
  have hmax : (2 : ℚ) ^ maxExponent = 2 ^ 970 * 2 := by
    rw [← pow_succ]
    rfl
  have htop : (2 : ℚ) ^ 1024 = 2 ^ 53 * (2 ^ 970 * 2) := by
    rw [← pow_succ, ← pow_add]
  rw [overflowBound, hmax, htop]
  generalize (2 : ℚ) ^ 970 = unit
  ring

theorem one_lt_overflowBound : 1 < overflowBound := by
  have hpow : (1 : ℚ) ≤ 2 ^ maxExponent := one_le_zpow₀ one_le_two (by decide)
  rw [overflowBound_eq]
  linarith

theorem overflowBound_le_pow_ten : overflowBound ≤ 10 ^ 400 := by
  calc overflowBound ≤ 2 ^ 1024 := sub_le_self _ (by positivity)
    _ ≤ 2 ^ (3 * 400) := pow_le_pow_right₀ one_le_two (by decide)
    _ = (2 ^ 3) ^ 400 := pow_mul _ _ _
    _ ≤ 10 ^ 400 := pow_le_pow_left₀ (by norm_num) (by norm_num) 400

/-- A quotient has no nearest double exactly if it reaches the overflow bound. -/
theorem ofRatio?_eq_none_iff (negative : Bool) (hden : 0 < den) :
    ofRatio? negative num den = none ↔ overflowBound ≤ num / den := by
  rcases Nat.eq_zero_or_pos num with rfl | hnum
  · have hone := one_lt_overflowBound
    rw [Nat.cast_zero, zero_div]
    exact iff_of_false (by simp [ofRatio?]) (by linarith)
  · rw [overflowBound_eq, ← lt_exponent_carried_iff hnum hden (by decide),
      ofRatio?_of_pos negative den hnum]
    split_ifs with h <;> simp [h]

end Binary64

/-! ## Decimal numerals -/

namespace Decimal

/-- The number that a numeral stands for, its sign aside. -/
def magnitude (x : Decimal) : ℚ :=
  x.digits * 10 ^ x.exponent

/-- The number that a numeral stands for. -/
def toRat (x : Decimal) : ℚ :=
  if x.negative then -x.magnitude else x.magnitude

theorem magnitude_nonneg (x : Decimal) : 0 ≤ x.magnitude := by
  rw [magnitude]
  positivity

theorem abs_toRat (x : Decimal) : |x.toRat| = x.magnitude := by
  rw [toRat]
  split_ifs <;> simp [abs_of_nonneg x.magnitude_nonneg]

/-- A decimal with 400 zeros after its digits overflows. -/
theorem overflowBound_le_magnitude {x : Decimal} (hdigits : 0 < x.digits)
    (h : 400 ≤ x.exponent) :
    Binary64.overflowBound ≤ x.magnitude := by
  have hone : (1 : ℚ) ≤ x.digits := by exact_mod_cast hdigits
  calc Binary64.overflowBound ≤ 10 ^ 400 := Binary64.overflowBound_le_pow_ten
    _ = 10 ^ (400 : ℤ) := (zpow_natCast _ _).symm
    _ ≤ 10 ^ x.exponent := zpow_le_zpow_right₀ (by norm_num) h
    _ ≤ x.magnitude := le_mul_of_one_le_left (by positivity) hone

/-- A decimal is below the power of ten that its bits and exponent allow. -/
theorem magnitude_lt_zpow {x : Decimal} {e : Int}
    (h : (x.digits.log2 : Int) + 1 + x.exponent ≤ e) : x.magnitude < 10 ^ e := by
  have hdigits : (x.digits : ℚ) < 10 ^ ((x.digits.log2 : ℤ) + 1) :=
    (lt_zpow_log2_succ _).trans_le
      (zpow_le_zpow_left₀ (by omega) (by norm_num) (by norm_num))
  calc x.magnitude < 10 ^ ((x.digits.log2 : ℤ) + 1) * 10 ^ x.exponent :=
        mul_lt_mul_of_pos_right hdigits (by positivity)
    _ = 10 ^ ((x.digits.log2 : ℤ) + 1 + x.exponent) := (zpow_add₀ (by norm_num) _ _).symm
    _ ≤ 10 ^ e := zpow_le_zpow_right₀ (by norm_num) h

end Decimal

/-- A numeral has no nearest double exactly if its magnitude reaches the overflow
bound. -/
theorem Binary64.ofDecimal?_eq_none_iff (x : Decimal) :
    ofDecimal? x = none ↔ overflowBound ≤ |x.toRat| := by
  have hone := one_lt_overflowBound
  rw [Decimal.abs_toRat, ofDecimal?]
  split_ifs with hzero hbig hsmall
  · refine iff_of_false nofun ?_
    simp only [Decimal.magnitude, hzero, Nat.cast_zero, zero_mul]
    linarith
  · exact iff_of_true rfl
      (Decimal.overflowBound_le_magnitude (Nat.pos_of_ne_zero hzero) hbig)
  · have hlt : x.magnitude < 10 ^ (0 : ℤ) := Decimal.magnitude_lt_zpow (by omega)
    rw [zpow_zero] at hlt
    exact iff_of_false nofun (hlt.trans hone).not_ge
  · rw [Decimal.magnitude]
    split
    · rename_i k hk
      rw [ofRatio?_eq_none_iff _ Nat.one_pos, hk]
      simp
    · rename_i k hk
      have hden : 0 < Nat.pow 10 (k + 1) := Nat.pow_pos (by decide)
      rw [ofRatio?_eq_none_iff _ hden, hk]
      simp [zpow_negSucc, div_eq_mul_inv]

end RealMode
