import Mathlib.Algebra.Order.Floor.Semifield
import RealMode.Proofs.NumberLiterals

/-!
# The values of number literals

A literal stands for an exact rational number. It is rounded to the nearest double, cut
toward zero and kept within 64 bits; here its value is described by that rational number
alone.

- `Binary64.rounded` is the number to which a quotient is rounded. It is monotone in the
  quotient (`rounded_le_rounded`) and keeps the natural numbers up to `2 ^ 53`
  (`rounded_eq_natCast`). From `2 ^ 63 - 2 ^ 9` on it is at least `2 ^ 63`, and below that
  it stays below by a whole spacing.
- `Binary64.wholePart` is the integer part of the double nearest to a rational number. It
  does not depend on how a decimal numeral writes the number (`truncate_ofDecimal?`).

`Literal.value_in_order` puts them together.
-/

namespace RealMode

variable {num den num' den' : Nat}

namespace Binary64

/-! ## The number a quotient is rounded to -/

/-- The multiple of `2 ^ spacing` to which a quotient is rounded. -/
def rounded (num den : Nat) : ℚ :=
  nearest num den * 2 ^ spacing num den

theorem rounded_nonneg (num den : Nat) : 0 ≤ rounded num den := by
  rw [rounded]
  positivity

/-- Zero is represented. -/
theorem rounded_zero (den : Nat) : rounded 0 den = 0 := by
  have hscale (e : Int) : (scaleByTwo 0 den e).1 = 0 := by
    cases e with
    | ofNat k => rfl
    | negSucc k => exact Nat.zero_mul _
  have hround (d : Nat) : roundToEven 0 d = 0 := by simp [roundToEven]
  rw [rounded, nearest, hscale, hround, Nat.cast_zero, zero_mul]

/-- The carry changes how the number is written, not the number. -/
theorem carried_eq_rounded (num den : Nat) :
    ((carried num den).1 : ℚ) * 2 ^ (carried num den).2 = rounded num den := by
  rw [carried, rounded]
  split_ifs with h
  · rw [h, zpow_add_one₀ two_ne_zero]
    push_cast
    ring
  · rfl

/-- Greater numbers are represented no more finely than smaller ones. -/
theorem spacing_le_spacing (hnum : 0 < num) (hden : 0 < den) (hden' : 0 < den')
    (h : (num : ℚ) / den ≤ num' / den') : spacing num den ≤ spacing num' den' := by
  have hpos : (0 : ℚ) < num / den := by positivity
  have hnum' : 0 < num' := by
    rcases Nat.eq_zero_or_pos num' with rfl | hnum'
    · rw [Nat.cast_zero, zero_div] at h
      exact absurd h hpos.not_ge
    · exact hnum'
  have hlog : floorLog2 num den ≤ floorLog2 num' den' := by
    rw [floorLog2_eq_log hnum hden, floorLog2_eq_log hnum' hden']
    exact Int.log_mono_right hpos h
  exact max_le_max_left _ (Int.sub_le_sub_right hlog 52)

/-- Above the least spacing a significand has all its 53 bits. -/
theorem pow_le_nearest (hnum : 0 < num) (hden : 0 < den)
    (h : minExponent < spacing num den) :
    2 ^ 52 ≤ nearest num den := by
  have hle := mul_zpow_le_of_lt_spacing hnum hden (Int.le_sub_one_of_lt h) (sub_one_lt _)
  have hpos : (0 : ℚ) < 2 ^ spacing num den := by positivity
  rw [zpow_sub_one₀ two_ne_zero] at hle
  refine (le_nearest_iff hden _).mpr (.inl ?_)
  push_cast
  linarith

/-- Rounding keeps the order. Between two quotients with different spacings lies the power
of two at which the spacing changes. -/
theorem rounded_le_rounded (hden : 0 < den) (hden' : 0 < den')
    (h : (num : ℚ) / den ≤ num' / den') : rounded num den ≤ rounded num' den' := by
  rcases Nat.eq_zero_or_pos num with rfl | hnum
  · rw [rounded_zero]
    exact rounded_nonneg _ _
  have hspacing := spacing_le_spacing hnum hden hden' h
  have hnum' : 0 < num' := by
    by_contra hzero
    rw [Nat.eq_zero_of_not_pos hzero, Nat.cast_zero, zero_div] at h
    exact absurd h (not_le.mpr (by positivity))
  have hpos : (0 : ℚ) < 2 ^ spacing num den := by positivity
  rcases hspacing.eq_or_lt with heq | hlt
  · -- The thresholds of both are the same.
    have hnearest : nearest num den ≤ nearest num' den' := by
      have hreached := (le_nearest_iff hden (nearest num den)).mp le_rfl
      refine (le_nearest_iff hden' _).mpr ?_
      rw [← heq]
      rcases hreached with hreached | ⟨hreached, heven⟩
      · exact .inl (hreached.trans_le h)
      · rcases (hreached.trans_le h).lt_or_eq with hlt | heq'
        · exact .inl hlt
        · exact .inr ⟨heq', heven⟩
    rw [rounded, rounded, ← heq]
    exact mul_le_mul_of_nonneg_right (Nat.cast_le.mpr hnearest) hpos.le
  · have hmin : minExponent ≤ spacing num den := le_max_left _ _
    have hbelow : (nearest num den : ℚ) ≤ 2 ^ 53 := by exact_mod_cast nearest_le hnum hden
    have habove : (2 : ℚ) ^ 52 ≤ nearest num' den' := by
      exact_mod_cast pow_le_nearest hnum' hden' (hmin.trans_lt hlt)
    have hpow : (2 : ℚ) * 2 ^ spacing num den ≤ 2 ^ spacing num' den' := by
      rw [← zpow_one_add₀ two_ne_zero]
      exact zpow_le_zpow_right₀ one_le_two (by omega)
    calc rounded num den ≤ 2 ^ 53 * 2 ^ spacing num den :=
      mul_le_mul_of_nonneg_right hbelow hpos.le
      _ = 2 ^ 52 * (2 * 2 ^ spacing num den) := by ring
      _ ≤ 2 ^ 52 * 2 ^ spacing num' den' := by gcongr
      _ ≤ rounded num' den' := mul_le_mul_of_nonneg_right habove (by positivity)

/-! ## Numbers that are kept -/

/-- A multiple of the spacing is not changed. -/
theorem rounded_eq_of_multiple (hden : 0 < den) {k : Nat}
    (h : (k : ℚ) * 2 ^ spacing num den = num / den) : rounded num den = num / den := by
  have hpos : (0 : ℚ) < 2 ^ spacing num den := by positivity
  have hle : k ≤ nearest num den := (le_nearest_iff hden k).mpr (.inl (by linarith))
  have hnot : ¬ k + 1 ≤ nearest num den := by
    rw [le_nearest_iff hden, ← h]
    push_cast
    rintro (hlt | ⟨heq, -⟩)
    · linarith
    · linarith
  rw [rounded, ← h, show nearest num den = k by omega]

/-- Below `2 ^ (e + 53)` the multiples of `2 ^ e` that are needed are all represented. -/
theorem spacing_le_of_lt (hnum : 0 < num) (hden : 0 < den) {e : Int}
    (hmin : minExponent ≤ e) (h : (num : ℚ) / den < 2 ^ (e + 53)) :
    spacing num den ≤ e := by
  by_contra hlt
  have hle := mul_zpow_le_of_lt_spacing hnum hden hmin (not_le.mp hlt)
  rw [add_comm, zpow_add₀ two_ne_zero] at h
  exact absurd h hle.not_gt

/-- The natural numbers up to `2 ^ 53` are doubles. -/
theorem rounded_eq_natCast (hden : 0 < den) {n : Nat} (hn : n ≤ 2 ^ 53)
    (h : (num : ℚ) / den = n) : rounded num den = n := by
  rcases Nat.eq_zero_or_pos num with rfl | hnum
  · rw [rounded_zero, ← h, Nat.cast_zero, zero_div]
  rw [← h]
  rcases hn.lt_or_eq with hlt | rfl
  · have hspacing : spacing num den ≤ 0 := by
      refine spacing_le_of_lt hnum hden (by decide) ?_
      rw [h]
      exact_mod_cast hlt
    obtain ⟨j, hj⟩ := Int.exists_eq_neg_ofNat hspacing
    refine rounded_eq_of_multiple hden (k := n * 2 ^ j) ?_
    rw [h, hj, zpow_neg, zpow_natCast]
    push_cast
    exact mul_inv_cancel_right₀ (by positivity) _
  · -- The power itself lies one spacing further.
    have hupper : spacing num den ≤ 1 := by
      refine spacing_le_of_lt hnum hden (by decide) ?_
      rw [h]
      norm_num
    have hlower : 1 ≤ spacing num den := by
      have hlt := lt_mul_zpow_spacing hnum hden
      rw [h] at hlt
      by_contra hle
      have hpow : (2 : ℚ) ^ spacing num den ≤ 1 :=
        zpow_le_one_of_nonpos₀ one_le_two (by omega)
      push_cast at hlt
      linarith
    refine rounded_eq_of_multiple hden (k := 2 ^ 52) ?_
    rw [h, show spacing num den = 1 by omega]
    norm_num

/-- Everything in the range of the integers is far from overflow. -/
theorem pow_lt_overflowBound : 2 ^ 64 < overflowBound := by
  have hpow : (2 : ℚ) ^ (12 : ℤ) ≤ 2 ^ maxExponent :=
    zpow_le_zpow_right₀ one_le_two (by decide)
  rw [overflowBound_eq]
  norm_num at hpow
  linarith

/-! ## The bound of 64 bits -/

/-- The middle between `2 ^ 63` and the double below it. -/
def saturationBound : ℚ := 2 ^ 63 - 2 ^ 9

/-- The bound is half a step below `2 ^ 63`, in the steps of `2 ^ 10` used there. -/
theorem saturationBound_eq : saturationBound = (2 ^ 53 - 1 / 2) * 2 ^ (10 : ℤ) := by
  norm_num [saturationBound]

/-- From the bound on, a number is rounded up to `2 ^ 63` at least. -/
theorem pow_le_rounded (hden : 0 < den) (h : saturationBound ≤ num / den) :
    2 ^ 63 ≤ rounded num den := by
  have hnum : 0 < num := by
    rcases Nat.eq_zero_or_pos num with rfl | hnum
    · norm_num [saturationBound] at h
    · exact hnum
  rw [saturationBound_eq, ← lt_exponent_carried_iff hnum hden (by decide)] at h
  have hbits : (2 : ℚ) ^ 52 ≤ (carried num den).1 := by
    rw [carried] at h ⊢
    split_ifs at h ⊢ with hcarry
    · norm_num
    · exact_mod_cast pow_le_nearest hnum hden (lt_trans (by decide) h)
  have hpow : (2 : ℚ) ^ (11 : ℤ) ≤ 2 ^ (carried num den).2 :=
    zpow_le_zpow_right₀ one_le_two h
  rw [← carried_eq_rounded]
  calc (2 : ℚ) ^ 63 = 2 ^ 52 * 2 ^ (11 : ℤ) := by norm_num
    _ ≤ ((carried num den).1 : ℚ) * 2 ^ (carried num den).2 := by gcongr

/-- Below the bound, a number is rounded to the one before `2 ^ 63` at most. -/
theorem rounded_le_of_lt (hden : 0 < den) (h : (num : ℚ) / den < saturationBound) :
    rounded num den ≤ 2 ^ 63 - 2 ^ 10 := by
  rcases Nat.eq_zero_or_pos num with rfl | hnum
  · rw [rounded_zero]
    norm_num
  rw [← not_le, saturationBound_eq, ← lt_exponent_carried_iff hnum hden (by decide),
    not_lt] at h
  have hbits : ((carried num den).1 : ℚ) ≤ 2 ^ 53 - 1 := by
    have hle := nearest_le hnum hden
    have hlt : (carried num den).1 + 1 ≤ 2 ^ 53 := by
      rw [carried]
      split_ifs with hcarry
      · norm_num
      · omega
    rw [le_sub_iff_add_le]
    exact_mod_cast hlt
  have hpow : (2 : ℚ) ^ (carried num den).2 ≤ 2 ^ (10 : ℤ) :=
    zpow_le_zpow_right₀ one_le_two h
  rw [← carried_eq_rounded]
  calc ((carried num den).1 : ℚ) * 2 ^ (carried num den).2 ≤
    (2 ^ 53 - 1) * 2 ^ (10 : ℤ) := by gcongr
    _ = 2 ^ 63 - 2 ^ 10 := by norm_num

/-! ## The integer part of a double -/

/-- The number that a double stands for, its sign aside. -/
def magnitude (x : Binary64) : ℚ :=
  x.significand * 2 ^ x.exponent

/-- Truncation is toward zero. -/
theorem truncate_eq (x : Binary64) :
    x.truncate = if x.negative then -(⌊x.magnitude⌋₊ : ℤ) else ⌊x.magnitude⌋₊ := by
  have hratio : (x.ratio.1 : ℚ) / x.ratio.2 = x.magnitude := by
    rw [ratio, scaleByTwo_ratio, magnitude, zpow_neg]
    simp
  rw [← hratio, Nat.floor_div_eq_div]
  rfl

/-- A ratio in range becomes its rounding, with the sign it is given. -/
theorem magnitude_of_ofRatio? {negative : Bool} {x : Binary64}
    (h : ofRatio? negative num den = some x) :
    x.negative = negative ∧ x.magnitude = rounded num den := by
  rcases Nat.eq_zero_or_pos num with rfl | hnum
  · rw [ofRatio?, if_pos rfl] at h
    obtain rfl := Option.some.inj h
    refine ⟨rfl, ?_⟩
    simp [magnitude, zero, rounded_zero]
  · rw [ofRatio?_of_pos negative den hnum] at h
    split_ifs at h
    obtain rfl := Option.some.inj h
    exact ⟨rfl, carried_eq_rounded num den⟩

/-- Up to half of the least positive double everything is rounded to zero. -/
theorem rounded_eq_zero (hden : 0 < den) (h : (num : ℚ) / den ≤ 1 / 2 * 2 ^ minExponent) :
    rounded num den = 0 := by
  have hpow : (2 : ℚ) ^ minExponent ≤ 2 ^ spacing num den :=
    zpow_le_zpow_right₀ one_le_two (le_max_left _ _)
  have hnot : ¬ 1 ≤ nearest num den := by
    rw [le_nearest_iff hden]
    push_cast
    rintro (hlt | ⟨-, hodd⟩)
    · linarith
    · exact absurd hodd (by decide)
  rw [rounded, show nearest num den = 0 by omega, Nat.cast_zero, zero_mul]

end Binary64

/-! ## Decimal numerals -/

namespace Decimal

/-- The magnitude of a numeral as a numerator and a denominator. -/
def ratio (x : Decimal) : Nat × Nat :=
  match x.exponent with
  | .ofNat k => (x.digits * 10 ^ k, 1)
  | .negSucc k => (x.digits, 10 ^ (k + 1))

theorem ratio_den_pos (x : Decimal) : 0 < x.ratio.2 := by
  rw [ratio]
  split
  · exact Nat.one_pos
  · positivity

/-- The ratio a decimal is divided out as is its magnitude. -/
theorem ratio_eq_magnitude (x : Decimal) : (x.ratio.1 : ℚ) / x.ratio.2 = x.magnitude := by
  rw [ratio, magnitude]
  split
  · rename_i k hk
    simp [hk]
  · rename_i k hk
    simp [hk, zpow_negSucc, div_eq_mul_inv]

/-- A decimal this small is less than half of the least positive number. -/
theorem magnitude_lt_least {x : Decimal}
    (h : (x.digits.log2 : Int) + 1 + x.exponent ≤ -400) :
    x.magnitude < 1 / 2 * 2 ^ Binary64.minExponent := by
  calc x.magnitude < 10 ^ (-400 : ℤ) := magnitude_lt_zpow h
    _ ≤ 8 ^ (-400 : ℤ) := by
        rw [zpow_neg, zpow_neg]
        exact inv_anti₀ (by positivity)
          (zpow_le_zpow_left₀ (by norm_num) (by norm_num) (by norm_num))
    _ = 2 ^ (-1200 : ℤ) := by
        rw [show (8 : ℚ) = 2 ^ (3 : ℤ) by norm_num, ← zpow_mul]
        norm_num
    _ ≤ 2 ^ (-1 + Binary64.minExponent) := zpow_le_zpow_right₀ one_le_two (by decide)
    _ = 1 / 2 * 2 ^ Binary64.minExponent := by
        rw [zpow_add₀ two_ne_zero]
        norm_num

end Decimal

namespace Binary64

/-- A decimal in range becomes the rounding of its ratio. -/
theorem magnitude_of_ofDecimal? {x : Decimal} {y : Binary64} (h : ofDecimal? x = some y) :
    y.negative = x.negative ∧ y.magnitude = rounded x.ratio.1 x.ratio.2 := by
  rw [ofDecimal?] at h
  split_ifs at h with hzero hbig hsmall
  · obtain rfl := Option.some.inj h
    have hratio : x.ratio.1 = 0 := by
      rw [Decimal.ratio]
      split <;> simp [hzero]
    rw [hratio, rounded_zero]
    exact ⟨rfl, by simp [magnitude, zero]⟩
  · obtain rfl := Option.some.inj h
    have hleast := (Decimal.magnitude_lt_least hsmall).le
    rw [← Decimal.ratio_eq_magnitude] at hleast
    rw [rounded_eq_zero x.ratio_den_pos hleast]
    exact ⟨rfl, by simp [magnitude, zero]⟩
  · rw [Decimal.ratio]
    generalize x.exponent = e at h
    cases e with
    | ofNat k => exact magnitude_of_ofRatio? h
    | negSucc k => exact magnitude_of_ofRatio? h

/-- The integer part, toward zero, of the double nearest to a number. -/
def wholePart (q : ℚ) : ℤ :=
  if q < 0 then -(⌊rounded q.num.natAbs q.den⌋₊ : ℤ) else ⌊rounded q.num.natAbs q.den⌋₊

theorem natAbs_num_div_den (q : ℚ) : (q.num.natAbs : ℚ) / q.den = |q| := by
  rw [Nat.cast_natAbs, Int.cast_abs]
  conv_rhs => rw [← Rat.num_div_den q, abs_div, Nat.abs_cast]

/-- The magnitude of a number may be written as any quotient. -/
theorem wholePart_eq (hden : 0 < den) {q : ℚ} (h : (num : ℚ) / den = |q|) :
    wholePart q = if q < 0 then -(⌊rounded num den⌋₊ : ℤ) else ⌊rounded num den⌋₊ := by
  have hq := natAbs_num_div_den q
  have hrounded : rounded q.num.natAbs q.den = rounded num den :=
    le_antisymm (rounded_le_rounded q.den_pos hden (hq.trans h.symm).le)
      (rounded_le_rounded hden q.den_pos (h.trans hq.symm).le)
  rw [wholePart, hrounded]

/-- Rounding and then cutting off the fraction keeps the order. -/
theorem floor_rounded_le (hden : 0 < den) (hden' : 0 < den')
    (h : (num : ℚ) / den ≤ num' / den') : ⌊rounded num den⌋₊ ≤ ⌊rounded num' den'⌋₊ :=
  Nat.floor_mono (rounded_le_rounded hden hden' h)

/-- The whole part of the nearest number keeps the order, of negative numbers too. -/
theorem wholePart_le_wholePart {p q : ℚ} (h : p ≤ q) : wholePart p ≤ wholePart q := by
  have hp := natAbs_num_div_den p
  have hq := natAbs_num_div_den q
  rw [wholePart, wholePart]
  split_ifs with hpneg hqneg hqneg
  · have hle : |q| ≤ |p| := by
      rw [abs_of_neg hpneg, abs_of_neg hqneg]
      exact neg_le_neg h
    rw [← hp, ← hq] at hle
    have hfloor := floor_rounded_le q.den_pos p.den_pos hle
    omega
  · omega
  · exact absurd (h.trans_lt hqneg) hpneg
  · have hle : |p| ≤ |q| := by
      rw [abs_of_nonneg (not_lt.mp hpneg), abs_of_nonneg (not_lt.mp hqneg)]
      exact h
    rw [← hp, ← hq] at hle
    exact_mod_cast floor_rounded_le p.den_pos q.den_pos hle

/-- Integers of up to 53 bits are their own whole part. -/
theorem wholePart_intCast {n : ℤ} (hn : |n| ≤ 2 ^ 53) : wholePart n = n := by
  have habs : ((n.natAbs : ℕ) : ℚ) / (1 : ℕ) = |(n : ℚ)| := by
    rw [Nat.cast_one, div_one, Nat.cast_natAbs, Int.cast_abs]
  have hrounded : rounded n.natAbs 1 = (n.natAbs : ℕ) :=
    rounded_eq_natCast Nat.one_pos (by zify; exact hn) (by simp)
  rw [wholePart_eq Nat.one_pos habs, hrounded, Nat.floor_natCast]
  split_ifs with hneg
  · rw [Int.cast_lt_zero] at hneg
    omega
  · rw [Int.cast_lt_zero] at hneg
    omega

/-- The value of a decimal numeral follows from its number. A negative zero counts as
zero. -/
theorem truncate_ofDecimal? {x : Decimal} {y : Binary64} (h : ofDecimal? x = some y) :
    y.truncate = wholePart x.toRat := by
  obtain ⟨hsign, hmagnitude⟩ := magnitude_of_ofDecimal? h
  have hratio : (x.ratio.1 : ℚ) / x.ratio.2 = |x.toRat| := by
    rw [Decimal.abs_toRat, Decimal.ratio_eq_magnitude]
  have hnonneg := x.magnitude_nonneg
  rw [truncate_eq, hsign, hmagnitude, wholePart_eq x.ratio_den_pos hratio, Decimal.toRat]
  by_cases hneg : x.negative = true
  · rw [if_pos hneg, if_pos hneg]
    rcases hnonneg.lt_or_eq with hpos | hzero
    · rw [if_pos (neg_lt_zero.mpr hpos)]
    · have hnum : x.ratio.1 = 0 := by
        have hdiv := x.ratio_eq_magnitude
        have hden : (x.ratio.2 : ℚ) ≠ 0 := Nat.cast_ne_zero.mpr x.ratio_den_pos.ne'
        rw [← hzero, div_eq_zero_iff, or_iff_left hden] at hdiv
        exact_mod_cast hdiv
      rw [← hzero, hnum, rounded_zero]
      simp
  · rw [if_neg hneg, if_neg hneg, if_neg hnonneg.not_gt]

/-- From the bound on, the whole part is beyond the greatest integer. -/
theorem pow_le_wholePart {q : ℚ} (h : saturationBound ≤ q) : 2 ^ 63 ≤ wholePart q := by
  have hpos : 0 ≤ q := le_trans (by norm_num [saturationBound]) h
  rw [← abs_of_nonneg hpos, ← natAbs_num_div_den] at h
  have hfloor : 2 ^ 63 ≤ ⌊rounded q.num.natAbs q.den⌋₊ :=
    Nat.le_floor (by exact_mod_cast pow_le_rounded q.den_pos h)
  rw [wholePart, if_neg hpos.not_gt]
  exact_mod_cast hfloor

/-- Down from minus the bound, it is at or beyond the least one. -/
theorem wholePart_le_neg_pow {q : ℚ} (h : q ≤ -saturationBound) :
    wholePart q ≤ -2 ^ 63 := by
  have hneg : q < 0 := h.trans_lt (by norm_num [saturationBound])
  rw [le_neg, ← abs_of_neg hneg, ← natAbs_num_div_den] at h
  have hfloor : 2 ^ 63 ≤ ⌊rounded q.num.natAbs q.den⌋₊ :=
    Nat.le_floor (by exact_mod_cast pow_le_rounded q.den_pos h)
  rw [wholePart, if_pos hneg]
  omega

/-- Between the two bounds it is strictly inside the range. -/
theorem abs_wholePart_lt {q : ℚ} (h : |q| < saturationBound) :
    |wholePart q| < 2 ^ 63 - 1 := by
  rw [← natAbs_num_div_den] at h
  have hle := rounded_le_of_lt q.den_pos h
  have hfloor : ⌊rounded q.num.natAbs q.den⌋₊ < 2 ^ 63 - 1 := by
    rw [Nat.floor_lt (rounded_nonneg _ _)]
    norm_num at hle ⊢
    linarith
  rw [wholePart, abs_lt]
  split_ifs <;> omega

end Binary64

/-! ## Literals -/

namespace Literal

/-- The text is a numeral for the number, white space at its ends aside. -/
def StandsFor (text : String) (q : ℚ) : Prop :=
  ∃ core, Text.Trimmed text.toList core ∧ Decimal.Denotes core q

theorem maxInt_eq : maxInt = 2 ^ 63 - 1 := rfl

theorem minInt_eq : minInt = -2 ^ 63 := rfl

/-- What is clamped is in range. -/
theorem clamp_bounds (n : ℤ) : minInt ≤ clamp n ∧ clamp n ≤ maxInt :=
  ⟨le_max_left _ _, max_le (by decide) (min_le_left _ _)⟩

/-- What is in range stays as it is. -/
theorem clamp_eq_self {n : ℤ} (hmin : minInt ≤ n) (hmax : n ≤ maxInt) : clamp n = n := by
  rw [clamp, min_eq_right hmax, max_eq_right hmin]

theorem clamp_mono {a b : ℤ} (h : a ≤ b) : clamp a ≤ clamp b :=
  max_le_max_left _ (min_le_min_left _ h)

/-- The value of a literal is the integer part of the double nearest to its number. -/
theorem value?_eq_clamp {text : String} {q : ℚ} {v : ℤ} (hq : StandsFor text q)
    (h : value? text = some v) : v = clamp (Binary64.wholePart q) := by
  obtain ⟨core, hcore, hdenotes⟩ := hq
  obtain ⟨x, hx, rfl⟩ := Decimal.exists_parse?_of_denotes hdenotes
  rw [hcore.eq_trim] at hx
  rw [value?, hx] at h
  change (Binary64.ofDecimal? x).bind _ = some v at h
  obtain ⟨y, hy, hv⟩ := Option.bind_eq_some_iff.mp h
  rw [← Binary64.truncate_ofDecimal? hy]
  exact (Option.some.inj hv).symm

/-- A literal whose number does not overflow has a value. -/
theorem exists_value?_of_abs_lt {text : String} {q : ℚ} (hq : StandsFor text q)
    (h : |q| < 2 ^ 1024 - 2 ^ 970) : ∃ v, value? text = some v := by
  obtain ⟨core, hcore, hdenotes⟩ := hq
  rw [hcore.eq_trim] at hdenotes
  exact exists_value?_iff.mpr ⟨q, hdenotes, h⟩

/-- The greatest integer is the value of exactly the numbers from the bound on. -/
theorem clamp_wholePart_eq_maxInt_iff (q : ℚ) :
    clamp (Binary64.wholePart q) = maxInt ↔ Binary64.saturationBound ≤ q := by
  have hclamp (n : ℤ) : clamp n = maxInt ↔ 2 ^ 63 - 1 ≤ n := by
    rw [clamp, maxInt_eq, minInt_eq]
    omega
  rw [hclamp]
  constructor
  · intro h
    by_contra hlt
    rcases lt_or_ge (-Binary64.saturationBound) q with hgt | hle
    · have habs := abs_lt.mp (Binary64.abs_wholePart_lt (abs_lt.mpr ⟨hgt, not_le.mp hlt⟩))
      omega
    · have hneg := Binary64.wholePart_le_neg_pow hle
      omega
  · intro h
    have hpow := Binary64.pow_le_wholePart h
    omega

/-- The least integer is the value of exactly those down from minus the bound. -/
theorem clamp_wholePart_eq_minInt_iff (q : ℚ) :
    clamp (Binary64.wholePart q) = minInt ↔ q ≤ -Binary64.saturationBound := by
  have hclamp (n : ℤ) : clamp n = minInt ↔ n ≤ -2 ^ 63 := by
    rw [clamp, maxInt_eq, minInt_eq]
    omega
  rw [hclamp]
  constructor
  · intro h
    by_contra hgt
    rcases lt_or_ge q Binary64.saturationBound with hlt | hle
    · have habs := abs_lt.mp (Binary64.abs_wholePart_lt (abs_lt.mpr ⟨not_le.mp hgt, hlt⟩))
      omega
    · have hpos := Binary64.pow_le_wholePart hle
      omega
  · exact Binary64.wholePart_le_neg_pow

/-- **The value of a literal follows its number.** A literal for an integer of at most 53
bits has exactly that value, however it is written. Of two literals with values, the one
with the greater number has no smaller value, so that spellings of one number agree.
Values beyond 64 bits are the bound, and a literal is beyond it from the middle between
`2 ^ 63` and the double below on. -/
theorem value_in_order {text : String} {q : ℚ} (hq : StandsFor text q) :
    (∀ n : ℤ, q = n → |n| ≤ 2 ^ 53 → value? text = some n) ∧
      (∀ v text' q' v', value? text = some v → StandsFor text' q' →
        value? text' = some v' → q ≤ q' → v ≤ v') ∧
      ∀ v, value? text = some v →
        (minInt ≤ v ∧ v ≤ maxInt) ∧ (v = maxInt ↔ 2 ^ 63 - 2 ^ 9 ≤ q) ∧
          (v = minInt ↔ q ≤ -(2 ^ 63 - 2 ^ 9)) := by
  refine ⟨?_, ?_, ?_⟩
  · rintro n rfl hn
    have hbound : |(n : ℚ)| < 2 ^ 1024 - 2 ^ 970 := by
      have hle : |(n : ℚ)| ≤ 2 ^ 53 := by exact_mod_cast hn
      exact (hle.trans_lt (by norm_num)).trans Binary64.pow_lt_overflowBound
    obtain ⟨v, hv⟩ := exists_value?_of_abs_lt hq hbound
    obtain ⟨hlower, hupper⟩ := abs_le.mp hn
    rw [hv, value?_eq_clamp hq hv, Binary64.wholePart_intCast hn,
      clamp_eq_self (by rw [minInt_eq]; omega) (by rw [maxInt_eq]; omega)]
  · intro v text' q' v' hv hq' hv' hle
    rw [value?_eq_clamp hq hv, value?_eq_clamp hq' hv']
    exact clamp_mono (Binary64.wholePart_le_wholePart hle)
  · intro v hv
    rw [value?_eq_clamp hq hv]
    exact ⟨clamp_bounds _, clamp_wholePart_eq_maxInt_iff q,
      clamp_wholePart_eq_minInt_iff q⟩

theorem standsFor_of_parse? {text : String} {x : Decimal}
    (h : Decimal.parse? (Text.trim text.toList) = some x) : StandsFor text x.toRat :=
  ⟨_, Text.trimmed_trim _, Decimal.denotes_of_parse? h⟩

/-- A fraction with an exponent for `2 ^ 53`, and the first number whose double is
`-2 ^ 63`. -/
theorem value_in_order_bounds :
    value? "+0.09007199254740992e17\n" = some (2 ^ 53) ∧
      ∃ v, value? "-9223372036854775296" = some v ∧ v = minInt ∧ v ≤ 2 ^ 53 := by
  have hpow : StandsFor "+0.09007199254740992e17\n" ((2 ^ 53 : ℤ) : ℚ) := by
    have hparse : Decimal.parse? (Text.trim "+0.09007199254740992e17\n".toList) =
        some ⟨false, 9007199254740992, 0⟩ := by decide
    have hstands := standsFor_of_parse? hparse
    norm_num [Decimal.toRat, Decimal.magnitude] at hstands ⊢
    exact hstands
  have htie : StandsFor "-9223372036854775296" (-(2 ^ 63 - 2 ^ 9)) := by
    have hparse : Decimal.parse? (Text.trim "-9223372036854775296".toList) =
        some ⟨true, 9223372036854775296, 0⟩ := by decide
    have hstands := standsFor_of_parse? hparse
    norm_num [Decimal.toRat, Decimal.magnitude] at hstands ⊢
    exact hstands
  have hvalue := (value_in_order hpow).1 _ rfl (by norm_num)
  obtain ⟨v, hv⟩ := exists_value?_of_abs_lt htie
    (lt_trans (by norm_num) Binary64.pow_lt_overflowBound)
  refine ⟨hvalue, v, hv, ((value_in_order htie).2.2 v hv).2.2.mpr le_rfl, ?_⟩
  exact (value_in_order htie).2.1 v _ _ _ hv hpow hvalue (by norm_num)

end Literal

end RealMode
