import Mathlib.Data.Nat.Digits.Defs
import RealMode.Lowering.Node
import RealMode.Proofs.Rounding
import RealMode.Proofs.TextPieces

/-!
# The number literals that have a value

A literal is trimmed, read as a decimal numeral, rounded to a double and cut to an
integer. Three relations say what this accepts, none of them by means of the reader.

- `Text.Trimmed` takes the white space off the ends of a text.
- `Decimal.Denotes` is the grammar of numerals together with the rational number that a
  numeral stands for, one relation for each of its parts. `Decimal.parse?` reads exactly
  the numerals and keeps their numbers (`denotes_of_parse?`, `exists_parse?_of_denotes`).
- A numeral is too large if its number rounds to no finite double
  (`ofDecimal?_eq_none_iff`).

`Literal.accepts_numerals` puts them together.
-/

namespace RealMode

/-! ## The grammar of numerals -/

namespace Decimal

/-- The number that a run of digits denotes. -/
def digitsValue (cs : List Char) : Nat :=
  Nat.ofDigits 10 (cs.reverse.map fun c => c.toNat - '0'.toNat)

/-- Digits, at least one. -/
def Digits (cs : List Char) : Prop :=
  cs ≠ [] ∧ ∀ c ∈ cs, c.isDigit

/-- An optional sign, and the factor it stands for. -/
inductive Sign : List Char → ℤ → Prop
  | none : Sign [] 1
  | plus : Sign ['+'] 1
  | minus : Sign ['-'] (-1)

/-- Digits with at most one point among them, and the number they denote. -/
inductive Mantissa : List Char → ℚ → Prop
  | whole {w : List Char} (hw : Digits w) : Mantissa w (digitsValue w)
  | pointed {w f : List Char} (hw : Digits w) (hf : f = [] ∨ Digits f) :
    Mantissa (w ++ '.' :: f) (digitsValue w + digitsValue f / 10 ^ f.length)
  | bare {f : List Char} (hf : Digits f) :
    Mantissa ('.' :: f) (digitsValue f / 10 ^ f.length)

/-- An optional exponent. -/
inductive Exponent : List Char → ℤ → Prop
  | none : Exponent [] 0
  | marked {mark : Char} {sign ds : List Char} {s : ℤ} (hmark : mark = 'e' ∨ mark = 'E')
    (hsign : Sign sign s) (hds : Digits ds) :
    Exponent (mark :: (sign ++ ds)) (s * digitsValue ds)

/-- The text is a numeral for the number. -/
inductive Denotes : List Char → ℚ → Prop
  | mk {sign mantissa exponent : List Char} {s e : ℤ} {m : ℚ} (hsign : Sign sign s)
    (hmantissa : Mantissa mantissa m) (hexponent : Exponent exponent e) :
    Denotes (sign ++ (mantissa ++ exponent)) (s * m * 10 ^ e)

/-- Digits in front count for as many tens as there are digits after them. -/
theorem digitsValue_append (a b : List Char) :
    digitsValue (a ++ b) = digitsValue a * 10 ^ b.length + digitsValue b := by
  simp only [digitsValue, List.reverse_append, List.map_append, Nat.ofDigits_append,
    List.length_map, List.length_reverse]
  ring

/-- Reading past the point and dividing is reading the two sides apart. -/
theorem digitsValue_append_div (w f : List Char) :
    (digitsValue (w ++ f) : ℚ) / 10 ^ f.length =
      digitsValue w + digitsValue f / 10 ^ f.length := by
  rw [digitsValue_append, Nat.cast_add, Nat.cast_mul, Nat.cast_pow, Nat.cast_ofNat,
    add_div, mul_div_cancel_right₀ _ (by positivity)]

theorem natValue_eq (cs : List Char) : natValue cs = digitsValue cs := by
  induction cs using List.reverseRecOn with
  | nil => rfl
  | append_singleton cs c ih =>
    rw [digitsValue_append, ← ih, natValue, List.foldl_append]
    simp [digitsValue, natValue, Nat.mul_comm]

/-- The places after the point are taken off the exponent. -/
theorem toRat_mk (negative : Bool) (digits : Nat) (e : ℤ) (places : Nat) :
    toRat ⟨negative, digits, e - places⟩ =
      ((if negative then -1 else 1 : ℤ) : ℚ) * (digits / 10 ^ places) * 10 ^ e := by
  have hpow : (10 : ℚ) ^ (e - places) = 10 ^ e / 10 ^ places := by
    rw [zpow_sub₀ (by norm_num), zpow_natCast]
  simp only [toRat, magnitude, hpow]
  split_ifs <;> push_cast <;> ring

/-! ## The parts that the reader takes off

For each part there is a lemma for either direction: what is taken off is such a part, and
such a part is taken off whole if what stands behind it cannot belong to it. -/

/-- A sign is taken off the front, if there is one. -/
theorem splitSign_spec (cs : List Char) :
    ∃ sign s, Sign sign s ∧ cs = sign ++ (splitSign cs).2 ∧
      s = if (splitSign cs).1 then -1 else 1 := by
  fun_cases splitSign cs with
  | case1 rest => exact ⟨_, _, .minus, rfl, rfl⟩
  | case2 rest => exact ⟨_, _, .plus, rfl, rfl⟩
  | case3 => exact ⟨_, _, .none, rfl, rfl⟩

/-- The sign in front is the one that is taken off. -/
theorem splitSign_append {sign rest : List Char} {s : ℤ} (hsign : Sign sign s)
    (hrest : ∀ c ∈ rest.head?, c ≠ '+' ∧ c ≠ '-') :
    splitSign (sign ++ rest) = (decide (s = -1), rest) := by
  cases hsign with
  | plus => rfl
  | minus => rfl
  | none =>
    cases rest with
    | nil => rfl
    | cons c rest =>
      obtain ⟨hplus, hminus⟩ := hrest c rfl
      rw [List.nil_append, splitSign]
      · rfl
      · rintro _ ⟨⟩
        exact hminus rfl
      · rintro _ ⟨⟩
        exact hplus rfl

theorem ne_sign_of_isDigit {c : Char} (h : c.isDigit) : c ≠ '+' ∧ c ≠ '-' := by
  constructor <;> rintro rfl <;> exact absurd h (by decide)

/-- The digits in front are taken off. -/
theorem splitDigits_spec (cs : List Char) :
    (∀ c ∈ (splitDigits cs).1, c.isDigit) ∧
    cs = (splitDigits cs).1 ++ (splitDigits cs).2 :=
  ⟨fun _ hc => List.mem_takeWhile_imp hc, List.takeWhile_append_dropWhile.symm⟩

/-- They are all taken, up to the first other character. -/
theorem splitDigits_append {ds rest : List Char} (hds : ∀ c ∈ ds, c.isDigit)
    (hrest : ∀ c ∈ rest.head?, ¬ c.isDigit) : splitDigits (ds ++ rest) = (ds, rest) := by
  have hnone : rest.takeWhile Char.isDigit = [] := by
    cases rest with
    | nil => rfl
    | cons c rest => exact List.takeWhile_cons_of_neg (hrest c rfl)
  rw [splitDigits, Text.dropWhile_append_of_head? hds hrest,
    List.takeWhile_append_of_pos hds, hnone, List.append_nil]

/-- What may stand behind the digits before the point, and the digits after the point. -/
inductive Fraction : List Char → List Char → Prop
  | none : Fraction [] []
  | point {f : List Char} (hf : ∀ c ∈ f, c.isDigit) : Fraction ('.' :: f) f

theorem splitFraction_spec (cs : List Char) :
    ∃ point, Fraction point (splitFraction cs).1 ∧
    cs = point ++ (splitFraction cs).2 := by
  fun_cases splitFraction cs with
  | case1 rest =>
    obtain ⟨hdigits, hrest⟩ := splitDigits_spec rest
    exact ⟨_, .point hdigits, congrArg _ hrest⟩
  | case2 => exact ⟨_, .none, rfl⟩

/-- A point and the digits after it are taken together. -/
theorem splitFraction_append {point f rest : List Char} (hpoint : Fraction point f)
    (hrest : ∀ c ∈ rest.head?, c ≠ '.' ∧ ¬ c.isDigit) :
    splitFraction (point ++ rest) = (f, rest) := by
  cases hpoint with
  | none =>
    rw [List.nil_append, splitFraction]
    rintro rest' rfl
    exact (hrest '.' rfl).1 rfl
  | point hf => exact splitDigits_append hf fun c hc => (hrest c hc).2

/-- A mantissa is digits and a fraction that are not both without a digit. -/
theorem mantissa_iff {cs : List Char} {m : ℚ} :
    Mantissa cs m ↔ ∃ w point f, (∀ c ∈ w, c.isDigit) ∧ Fraction point f ∧
      ¬ (w = [] ∧ f = []) ∧ cs = w ++ point ∧
      m = digitsValue (w ++ f) / 10 ^ f.length := by
  constructor
  · rintro (hw | ⟨hw, hf⟩ | hf)
    · exact ⟨_, _, _, hw.2, .none, fun h => hw.1 h.1, (List.append_nil _).symm, by simp⟩
    · refine ⟨_, _, _, hw.2, .point ?_, fun h => hw.1 h.1, rfl,
        (digitsValue_append_div _ _).symm⟩
      rcases hf with rfl | hf
      · exact fun _ => nofun
      · exact hf.2
    · exact ⟨[], _, _, fun _ => nofun, .point hf.2, fun h => hf.1 h.2, rfl, rfl⟩
  · rintro ⟨w, point, f, hw, hpoint, hne, rfl, rfl⟩
    rw [digitsValue_append_div]
    by_cases hnil : w = []
    · subst hnil
      cases hpoint with
      | none => exact absurd ⟨rfl, rfl⟩ hne
      | point hf =>
        have hbare := Mantissa.bare ⟨fun h => hne ⟨rfl, h⟩, hf⟩
        simpa [digitsValue] using hbare
    · cases hpoint with
      | none => simpa [digitsValue] using Mantissa.whole ⟨hnil, hw⟩
      | point hf =>
        refine .pointed ⟨hnil, hw⟩ ?_
        by_cases hnil' : f = []
        · exact .inl hnil'
        · exact .inr ⟨hnil', hf⟩

/-- An exponent is a sign and digits. -/
theorem exponentValue?_eq_some_iff {cs : List Char} {e : ℤ} :
    exponentValue? cs = some e ↔
      ∃ sign s ds, Sign sign s ∧ Digits ds ∧ cs = sign ++ ds ∧
      e = s * digitsValue ds := by
  constructor
  · intro h
    obtain ⟨sign, s, hsign, hcs, hs⟩ := splitSign_spec cs
    simp only [exponentValue?] at h
    split_ifs at h with hds hneg
    all_goals
      have hdigits : Digits (splitSign cs).2 := by simpa [Digits] using hds
      refine ⟨sign, s, _, hsign, hdigits, hcs, ?_⟩
      simpa [hs, hneg, natValue_eq] using h.symm
  · rintro ⟨sign, s, ds, hsign, hds, rfl, rfl⟩
    have hunsigned : ∀ c ∈ ds.head?, c ≠ '+' ∧ c ≠ '-' := fun c hc =>
      ne_sign_of_isDigit (hds.2 c (List.mem_of_mem_head? hc))
    have hall : ds.all Char.isDigit = true := List.all_eq_true.mpr hds.2
    have hnot : (ds.isEmpty || !ds.all Char.isDigit) = false := by simp [hds.1, hall]
    simp only [exponentValue?, splitSign_append hsign hunsigned, hnot, natValue_eq]
    cases hsign <;> simp

/-- What may follow the digits is nothing or an exponent. -/
theorem suffixValue?_eq_some_iff {cs : List Char} {e : ℤ} :
    suffixValue? cs = some e ↔ Exponent cs e := by
  cases cs with
  | nil =>
    constructor
    · rintro ⟨⟩
      exact .none
    · rintro ⟨⟩
      rfl
  | cons mark rest =>
    have hmark : (mark == 'e' || mark == 'E') = true ↔ mark = 'e' ∨ mark = 'E' := by simp
    rw [suffixValue?]
    split_ifs with h
    · rw [exponentValue?_eq_some_iff]
      constructor
      · rintro ⟨sign, s, ds, hsign, hds, rfl, rfl⟩
        exact .marked (hmark.mp h) hsign hds
      · rintro (_ | ⟨-, hsign, hds⟩)
        exact ⟨_, _, _, hsign, hds, rfl, rfl⟩
    · refine iff_of_false nofun ?_
      rintro (_ | ⟨hmark', -, -⟩)
      exact h (hmark.mpr hmark')

theorem Exponent.head? {cs : List Char} {e : ℤ} (h : Exponent cs e) :
    ∀ c ∈ cs.head?, c ≠ '.' ∧ ¬ c.isDigit := by
  cases h with
  | none => exact fun _ => nofun
  | marked hmark =>
    rintro c ⟨⟩
    rcases hmark with rfl | rfl <;> exact ⟨by decide, by decide⟩

/-! ## The reader -/

/-- What is read is a numeral for the number that is kept. -/
theorem denotes_of_parse? {cs : List Char} {x : Decimal} (h : parse? cs = some x) :
    Denotes cs x.toRat := by
  simp only [parse?] at h
  obtain ⟨sign, s, hsign, hcs, hs⟩ := splitSign_spec cs
  generalize splitSign cs = signed at hcs hs h
  obtain ⟨hdigits, hsigned⟩ := splitDigits_spec signed.2
  generalize splitDigits signed.2 = whole at hdigits hsigned h
  obtain ⟨point, hpoint, hwhole⟩ := splitFraction_spec whole.2
  generalize splitFraction whole.2 = fraction at hpoint hwhole h
  split_ifs at h with hne
  obtain ⟨e, he, rfl⟩ := Option.map_eq_some_iff.mp h
  have hmantissa : Mantissa (whole.1 ++ point) _ :=
    mantissa_iff.mpr ⟨_, _, _, hdigits, hpoint, by simpa using hne, rfl, rfl⟩
  have hsplit : cs = sign ++ (whole.1 ++ point ++ fraction.2) := by
    rw [List.append_assoc, ← hwhole, ← hsigned, ← hcs]
  rw [hsplit, toRat_mk, natValue_eq, ← hs]
  exact .mk hsign hmantissa (suffixValue?_eq_some_iff.mp he)

/-- Every numeral is read, and its number is kept. -/
theorem exists_parse?_of_denotes {cs : List Char} {q : ℚ} (h : Denotes cs q) :
    ∃ x, parse? cs = some x ∧ x.toRat = q := by
  obtain @⟨sign, mantissa, exponent, s, e, m, hsign, hmantissa, hexponent⟩ := h
  obtain ⟨w, point, f, hw, hpoint, hne, rfl, rfl⟩ := mantissa_iff.mp hmantissa
  have hbehind := hexponent.head?
  have hpointed : ∀ c ∈ (point ++ exponent).head?, ¬ c.isDigit := by
    cases hpoint with
    | none => exact fun c hc => (hbehind c hc).2
    | point =>
      rintro c ⟨⟩
      decide
  have hunsigned : ∀ c ∈ (w ++ (point ++ exponent)).head?, c ≠ '+' ∧ c ≠ '-' := by
    cases w with
    | cons d w =>
      rintro c ⟨⟩
      exact ne_sign_of_isDigit (hw _ List.mem_cons_self)
    | nil =>
      cases hpoint with
      | none => exact absurd ⟨rfl, rfl⟩ hne
      | point =>
        rintro c ⟨⟩
        exact ⟨by decide, by decide⟩
  have hempty : (w.isEmpty && f.isEmpty) = false := by simpa using hne
  refine ⟨⟨decide (s = -1), natValue (w ++ f), e - f.length⟩, ?_, ?_⟩
  · simp [parse?, splitSign_append hsign hunsigned, splitDigits_append hw hpointed,
      splitFraction_append hpoint hbehind, suffixValue?_eq_some_iff.mpr hexponent, hempty]
  · rw [toRat_mk, natValue_eq]
    cases hsign <;> rfl

/-! ## What no numeral has -/

/-- The characters of numerals. -/
def characters : List Char :=
  "0123456789+-.eE".toList

theorem mem_characters_of_isDigit {c : Char} (h : c.isDigit) : c ∈ characters := by
  have hdigits : ∀ n < 58, 48 ≤ n → Char.ofNat n ∈ characters := by decide
  have hbounds : 48 ≤ c.toNat ∧ c.toNat ≤ 57 := by
    simpa [Char.isDigit, UInt32.le_iff_toNat_le] using h
  rw [← Char.ofNat_toNat c]
  exact hdigits c.toNat (by omega) hbounds.1

theorem Sign.mem_characters {cs : List Char} {s : ℤ} (h : Sign cs s) :
    ∀ c ∈ cs, c ∈ characters := by
  intro c hc
  cases h with
  | none => exact absurd hc List.not_mem_nil
  | plus | minus =>
    rw [List.mem_singleton.mp hc]
    decide

/-- Only these characters stand in a literal. -/
theorem Denotes.mem_characters {cs : List Char} {q : ℚ} (h : Denotes cs q) :
    ∀ c ∈ cs, c ∈ characters := by
  obtain ⟨hsign, hmantissa, hexponent⟩ := h
  intro c hc
  rcases List.mem_append.mp hc with hc | hc
  · exact hsign.mem_characters c hc
  rcases List.mem_append.mp hc with hc | hc
  · obtain ⟨w, point, f, hw, hpoint, -, rfl, -⟩ := mantissa_iff.mp hmantissa
    rcases List.mem_append.mp hc with hc | hc
    · exact mem_characters_of_isDigit (hw c hc)
    · rcases hpoint with _ | hf
      · exact absurd hc List.not_mem_nil
      · rcases List.mem_cons.mp hc with rfl | hc
        · decide
        · exact mem_characters_of_isDigit (hf c hc)
  · rcases hexponent with _ | ⟨hmark, hsign', hds⟩
    · exact absurd hc List.not_mem_nil
    · rcases List.mem_cons.mp hc with rfl | hc
      · rcases hmark with rfl | rfl <;> decide
      · rcases List.mem_append.mp hc with hc | hc
        · exact hsign'.mem_characters c hc
        · exact mem_characters_of_isDigit (hds.2 c hc)

theorem Denotes.ne_nil {cs : List Char} {q : ℚ} (h : Denotes cs q) : cs ≠ [] := by
  rintro rfl
  obtain ⟨x, hx, -⟩ := exists_parse?_of_denotes h
  simp [parse?, splitSign, splitDigits, splitFraction] at hx

/-- The names of the numbers that are not finite, in small letters. -/
def nonFinite : List (List Char) :=
  ["inf".toList, "infinity".toList, "nan".toList]

/-- All these names have an `n`. -/
theorem exists_not_mem_characters {body : List Char}
    (h : body.map Char.toLower ∈ nonFinite) :
    ∃ c ∈ body, c ∉ characters := by
  have hname : ∀ name ∈ nonFinite, 'n' ∈ name := by decide
  have hlower : characters.all (·.toLower != 'n') = true := by decide
  obtain ⟨c, hc, hn⟩ := List.mem_map.mp (hname _ h)
  exact ⟨c, hc, fun hmem => bne_iff_ne.mp (List.all_eq_true.mp hlower c hmem) hn⟩

end Decimal

/-! ## Literals -/

namespace Literal

/-- A literal has a value exactly when it is a numeral that does not overflow. -/
theorem exists_value?_iff {text : String} :
    (∃ value, value? text = some value) ↔
      ∃ q, Decimal.Denotes (Text.trim text.toList) q ∧ |q| < 2 ^ 1024 - 2 ^ 970 := by
  have hround (x : Decimal) :
      (∃ y, Binary64.ofDecimal? x = some y) ↔ |x.toRat| < 2 ^ 1024 - 2 ^ 970 := by
    rw [← Option.isSome_iff_exists, ← Option.ne_none_iff_isSome, Ne,
      Binary64.ofDecimal?_eq_none_iff, not_le]
    rfl
  have hvalue : (∃ value, value? text = some value) ↔
      ∃ x, Decimal.parse? (Text.trim text.toList) = some x ∧
        ∃ y, Binary64.ofDecimal? x = some y := by
    simp [value?, Option.bind_eq_some_iff]
  rw [hvalue]
  constructor
  · rintro ⟨x, hx, hy⟩
    exact ⟨_, Decimal.denotes_of_parse? hx, (hround x).mp hy⟩
  · rintro ⟨q, hq, hbound⟩
    obtain ⟨x, hx, rfl⟩ := Decimal.exists_parse?_of_denotes hq
    exact ⟨x, hx, (hround x).mpr hbound⟩

theorem value?_eq_none_of_not_denotes {text : String}
    (h : ∀ q, ¬ Decimal.Denotes (Text.trim text.toList) q) : value? text = none := by
  by_contra hvalue
  obtain ⟨q, hq, -⟩ := exists_value?_iff.mp (Option.ne_none_iff_exists'.mp hvalue)
  exact h q hq

/-- **The accepted literals.** A literal has a value exactly if it is a numeral, white
space at its ends aside, whose number rounds to a finite double. So nothing between the
ends may be missing or foreign, and the names of the numbers that are not finite are
refused. A refused literal is a fault that quotes it with its white space, and nothing
else comes of it. -/
theorem accepts_numerals (text : String) :
    ∃ core, Text.Trimmed text.toList core ∧
      ((∃ value, value? text = some value) ↔
        ∃ q, Decimal.Denotes core q ∧ |q| < 2 ^ 1024 - 2 ^ 970) ∧
      (core = [] ∨ (∃ c ∈ core, c ∉ Decimal.characters) ∨
          (∃ sign s body, Decimal.Sign sign s ∧ core = sign ++ body ∧
            body.map Char.toLower ∈ Decimal.nonFinite) →
        value? text = none) ∧
      (value? text = none → ∀ session,
        Lowering.number text session =
          ⟨[], [], session, .error (.malformedNumber text)⟩) ∧
      (Fault.malformedNumber text).diagnostic.message =
        "malformed number literal '" ++ text ++ "'" := by
  refine ⟨_, Text.trimmed_trim _, exists_value?_iff, fun h => ?_,
    fun h session => ?_, rfl⟩
  · refine value?_eq_none_of_not_denotes fun q hq => ?_
    rcases h with hnil | ⟨c, hc, hforeign⟩ | ⟨sign, s, body, -, hcore, hname⟩
    · exact hq.ne_nil hnil
    · exact hforeign (hq.mem_characters c hc)
    · obtain ⟨c, hc, hforeign⟩ := Decimal.exists_not_mem_characters hname
      refine hforeign (hq.mem_characters c ?_)
      rw [hcore]
      exact List.mem_append_right _ hc
  · rw [Lowering.number, h]
    rfl

/-- A bare fraction with a signed exponent is accepted; a name is refused, and quoted with
its blanks. -/
theorem accepts_numerals_blanks :
    (∃ value, value? "\t-.5e+0 " = some value) ∧
      ∀ session, Lowering.number " -NaN " session =
        ⟨[], [], session, .error (.malformedNumber " -NaN ")⟩ := by
  constructor
  · obtain ⟨core, hcore, haccepted, -⟩ := accepts_numerals "\t-.5e+0 "
    obtain rfl : core = ['-'] ++ (['.', '5'] ++ 'e' :: (['+'] ++ ['0'])) :=
      hcore.eq_trim.trans (by decide)
    refine haccepted.mpr ⟨_, .mk .minus (.bare (by simp [Decimal.Digits]))
      (.marked (.inl rfl) .plus (by simp [Decimal.Digits])), ?_⟩
    refine lt_trans ?_ Binary64.one_lt_overflowBound
    have hfive : Decimal.digitsValue ['5'] = 5 := by decide
    have hzero : Decimal.digitsValue ['0'] = 0 := by decide
    norm_num [hfive, hzero]
  · obtain ⟨core, hcore, -, hrefused, hfault, -⟩ := accepts_numerals " -NaN "
    obtain rfl : core = ['-'] ++ ['N', 'a', 'N'] := hcore.eq_trim.trans (by decide)
    exact hfault (hrefused (.inr (.inr ⟨_, _, _, .minus, rfl, by decide⟩)))

end Literal

end RealMode
