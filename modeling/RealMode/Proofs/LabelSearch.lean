import Mathlib.Order.Bounds.Basic
import RealMode.Proofs.DataLabels

/-!
# The search for a free label

A label is found by looking at the base, then at its variants `base_2`, `base_3`, …, until
one of them is free. Nothing in this loop bounds how often it goes round.

- `Probes taken base n p`: the loop comes to its `n`-th probe, in the state `p`. It does
  so exactly when all candidates before the `n`-th are taken (`probes_iff`).
- `le_size_of_forall_mem`: the candidates are all different, so that a set of `taken.size`
  labels lets the loop pass at most as many of them.
- `FirstFree taken base n`: the `n`-th candidate is the first one that is free, and so the
  one of the last probe. It is the label that is chosen (`exists_firstFree`).
-/

namespace RealMode.DataLabels

variable {taken : Std.TreeSet String} {base : String} {n : Nat}

/-! ## Candidates -/

/-- The candidates for a label, numbered from 1: the base, then its variants. -/
def candidate (base : String) (n : Nat) : String :=
  if n = 1 then base else suffixed base n

/-- The first candidate is the base itself. -/
@[simp] theorem candidate_one (base : String) : candidate base 1 = base :=
  if_pos rfl

theorem candidate_of_two_le (h : 2 ≤ n) : candidate base n = suffixed base n :=
  if_neg (by omega)

/-- A set lets pass at most as many candidates as it has elements. -/
theorem le_size_of_forall_mem (h : ∀ i, 1 ≤ i → i < n → candidate base i ∈ taken) :
    n ≤ taken.size + 1 := by
  by_contra hlt
  have hbase : base ∈ taken := candidate_one base ▸ h 1 (Nat.le_refl 1) (by omega)
  obtain ⟨i, hle, hi, hnot⟩ := exists_variant_not_mem hbase
  refine hnot ?_
  rw [← candidate_of_two_le hle]
  exact h i (by omega) (by omega)

/-! ## The loop -/

/-- The state of the loop: the label that is looked at, and the number of the variant that
would come next. -/
structure Probe where
  label : String
  next : Nat

/-- `Probes taken base n p`: the loop comes to its `n`-th probe, in the state `p`. It goes
on to another one as long as the label is taken. -/
inductive Probes (taken : Std.TreeSet String) (base : String) : Nat → Probe → Prop
  | first : Probes taken base 1 ⟨base, 2⟩
  | again {n : Nat} {p : Probe} (h : Probes taken base n p) (htaken : p.label ∈ taken) :
      Probes taken base (n + 1) ⟨suffixed base p.next, p.next + 1⟩

/-- The `n`-th probe looks at the `n`-th candidate, after all the ones before it were
taken. -/
theorem Probes.eq_candidate {p : Probe} (h : Probes taken base n p) :
    1 ≤ n ∧ p = ⟨candidate base n, n + 1⟩ ∧
      ∀ i, 1 ≤ i → i < n → candidate base i ∈ taken := by
  induction h with
  | first => exact ⟨Nat.le_refl 1, by rw [candidate_one], fun i hle hlt => by omega⟩
  | @again n p _ htaken ih =>
    obtain ⟨hn, rfl, hbefore⟩ := ih
    have hnext : candidate base (n + 1) = suffixed base (n + 1) :=
      candidate_of_two_le (by omega)
    refine ⟨by omega, by rw [hnext], fun i hle hlt => ?_⟩
    rcases Nat.lt_succ_iff_lt_or_eq.mp hlt with hlt' | rfl
    · exact hbefore i hle hlt'
    · exact htaken

/-- While every candidate so far is taken, the search goes on to the next. -/
theorem probes_candidate (hn : 1 ≤ n)
    (h : ∀ i, 1 ≤ i → i < n → candidate base i ∈ taken) :
    Probes taken base n ⟨candidate base n, n + 1⟩ := by
  induction n, hn using Nat.le_induction with
  | base =>
    rw [candidate_one]
    exact .first
  | succ n hn ih =>
    have hbefore := ih fun i hle hlt => h i hle (by omega)
    rw [candidate_of_two_le (by omega)]
    exact hbefore.again (h n hn (Nat.lt_succ_self n))

/-- The search gets to the candidates whose predecessors are all taken. -/
theorem probes_iff {p : Probe} :
    Probes taken base n p ↔
      1 ≤ n ∧ p = ⟨candidate base n, n + 1⟩ ∧
        ∀ i, 1 ≤ i → i < n → candidate base i ∈ taken := by
  constructor
  · exact Probes.eq_candidate
  · rintro ⟨hn, rfl, hbefore⟩
    exact probes_candidate hn hbefore

/-! ## The first free candidate -/

/-- The `n`-th candidate is the first one that is free. -/
def FirstFree (taken : Std.TreeSet String) (base : String) (n : Nat) : Prop :=
  IsLeast {n | 1 ≤ n ∧ candidate base n ∉ taken} n

namespace FirstFree

theorem one_le (h : FirstFree taken base n) : 1 ≤ n :=
  h.1.1

theorem not_mem (h : FirstFree taken base n) : candidate base n ∉ taken :=
  h.1.2

theorem mem_of_lt (h : FirstFree taken base n) {i : Nat} (hi : 1 ≤ i) (hlt : i < n) :
    candidate base i ∈ taken := by
  by_contra hnot
  exact absurd (h.2 ⟨hi, hnot⟩) (Nat.not_le.mpr hlt)

/-- One of the first `taken.size + 1` candidates is free. -/
theorem le_size (h : FirstFree taken base n) : n ≤ taken.size + 1 :=
  le_size_of_forall_mem fun _ => h.mem_of_lt

theorem probes (h : FirstFree taken base n) :
    Probes taken base n ⟨candidate base n, n + 1⟩ :=
  probes_candidate h.one_le fun _ => h.mem_of_lt

/-- The loop does not go on past a free candidate. -/
theorem le_of_probes (h : FirstFree taken base n) {n' : Nat} {p : Probe}
    (hprobes : Probes taken base n' p) : n' ≤ n := by
  obtain ⟨-, -, hbefore⟩ := probes_iff.mp hprobes
  by_contra hlt
  exact h.not_mem (hbefore n h.one_le (by omega))

/-- A base that is free is taken as it is. -/
theorem eq_one (h : FirstFree taken base n) (hbase : base ∉ taken) : n = 1 := by
  have hle : n ≤ 1 := h.2 ⟨Nat.le_refl 1, by rwa [candidate_one]⟩
  exact Nat.le_antisymm hle h.one_le

/-- A base that is taken gets a suffix. -/
theorem two_le (h : FirstFree taken base n) (hbase : base ∈ taken) : 2 ≤ n := by
  by_contra hlt
  obtain rfl : n = 1 := by
    have := h.one_le
    omega
  exact h.not_mem (by rwa [candidate_one])

/-- If the base is taken, the search is one among the variants. -/
theorem isLeast_suffixed (h : FirstFree taken base n) (hbase : base ∈ taken) :
    IsLeast {k | 2 ≤ k ∧ suffixed base k ∉ taken} n := by
  have htwo := h.two_le hbase
  refine ⟨⟨htwo, ?_⟩, ?_⟩
  · rw [← candidate_of_two_le htwo]
    exact h.not_mem
  · rintro k ⟨hk, hnot⟩
    exact h.2 ⟨by omega, by rwa [candidate_of_two_le hk]⟩

end FirstFree

/-! ## The label that is chosen -/

/-- The search only goes up. -/
theorem le_searchSuffix (taken : Std.TreeSet String) (base : String) (k rounds : Nat) :
    k ≤ searchSuffix taken base k rounds := by
  fun_induction searchSuffix taken base k rounds with
  | case1 k => exact Nat.le_refl k
  | case2 k rounds _ ih => omega
  | case3 k => exact Nat.le_refl k

/-- The search goes through as many variants as there are taken labels. That is far enough
for the label to be the first candidate that is free. -/
theorem exists_firstFree (taken : Std.TreeSet String) (base : String) :
    ∃ n, FirstFree taken base n ∧ fresh taken base = candidate base n := by
  have hfree := fresh_not_mem taken base
  by_cases hbase : base ∈ taken
  · have hle := le_searchSuffix taken base 2 taken.size
    obtain ⟨hpassed, -⟩ := searchSuffix_spec taken base taken.size 2
    have hfresh : fresh taken base =
        candidate base (searchSuffix taken base 2 taken.size) := by
      rw [fresh, if_pos (Std.TreeSet.contains_iff_mem.mpr hbase), candidate_of_two_le hle]
    refine ⟨_, ⟨⟨by omega, hfresh ▸ hfree⟩, ?_⟩, hfresh⟩
    rintro i ⟨hi, hnot⟩
    by_contra hlt
    rcases Nat.eq_or_lt_of_le hi with rfl | htwo
    · exact hnot (by rwa [candidate_one])
    · rw [candidate_of_two_le htwo] at hnot
      exact hnot (hpassed i htwo (by omega))
  · have hfresh : fresh taken base = candidate base 1 := by
      rw [fresh, if_neg fun h => hbase (Std.TreeSet.contains_iff_mem.mp h), candidate_one]
    exact ⟨1, ⟨⟨Nat.le_refl 1, hfresh ▸ hfree⟩, fun i hi => hi.1⟩, hfresh⟩

/-- Claiming a label takes one more. -/
theorem size_claim (taken : Std.TreeSet String) (base : String) :
    (claim taken base).2.size = taken.size + 1 := by
  have hnew : ¬ taken.contains (fresh taken base) := by
    rw [Std.TreeSet.contains_iff_mem]
    exact fresh_not_mem taken base
  rw [claim, Std.TreeSet.size_insert, if_neg hnew]

/-- **A claim takes the first free label.** For every set of taken labels and every base,
the loop comes to an end: no run of it makes more than `taken.size + 1` probes, and the
last one finds the label of the claim free. This is the base unless the base is taken, and
else the variant with the least number from 2 on that is free. After the claim, this label
is taken, and nothing else is that was not before. -/
theorem claim_eq_first_free (taken : Std.TreeSet String) (base : String) :
    (∃ n ≤ taken.size + 1, Probes taken base n ⟨(claim taken base).1, n + 1⟩ ∧
      (claim taken base).1 ∉ taken ∧ ∀ n' p, Probes taken base n' p → n' ≤ n) ∧
    (base ∉ taken → (claim taken base).1 = base) ∧
    (base ∈ taken → ∃ k, IsLeast {k | 2 ≤ k ∧ suffixed base k ∉ taken} k ∧
      (claim taken base).1 = suffixed base k) ∧
    (∀ x, x ∈ (claim taken base).2 ↔ x ∈ taken ∨ x = (claim taken base).1) ∧
    (claim taken base).2.size = taken.size + 1 := by
  obtain ⟨n, hfirst, hfresh⟩ := exists_firstFree taken base
  have hlabel : (claim taken base).1 = candidate base n := hfresh
  refine ⟨⟨n, hfirst.le_size, ?_, ?_, fun _ _ => hfirst.le_of_probes⟩, ?_, ?_, ?_,
    size_claim taken base⟩
  · rw [hlabel]
    exact hfirst.probes
  · rw [hlabel]
    exact hfirst.not_mem
  · intro hbase
    rw [hlabel, hfirst.eq_one hbase, candidate_one]
  · intro hbase
    exact ⟨n, hfirst.isLeast_suffixed hbase,
      hlabel.trans (candidate_of_two_le (hfirst.two_le hbase))⟩
  · intro x
    exact (mem_claim taken base x).trans or_comm

/-- The base and two of its variants are taken, with a gap between them. -/
theorem claim_eq_first_free_gap :
    let taken : Std.TreeSet String := .ofList ["x", "x_2", "x_4"]
    "x" ∈ taken ∧ (claim taken "x").1 = "x_3" ∧ Probes taken "x" 3 ⟨"x_3", 4⟩ ∧
      (∀ n p, Probes taken "x" n p → n ≤ 4) ∧
      ∃ k, IsLeast {k | 2 ≤ k ∧ suffixed "x" k ∉ taken} k ∧ suffixed "x" k = "x_3" := by
  intro taken
  have hbase : "x" ∈ taken := by decide
  have hlabel : (claim taken "x").1 = "x_3" := by decide
  obtain ⟨⟨n, hn, hprobes, -, hlast⟩, -, hvariant, -⟩ := claim_eq_first_free taken "x"
  obtain ⟨k, hleast, hk⟩ := hvariant hbase
  have hthird : Probes taken "x" 3 ⟨"x_3", 4⟩ :=
    (Probes.first.again (by decide)).again (by decide)
  exact ⟨hbase, hlabel, hthird, fun n' p h => (hlast n' p h).trans hn, k, hleast,
    hk.symm.trans hlabel⟩

end RealMode.DataLabels
