import Mathlib.Data.List.DropRight
import RealMode.Text.Blank

/-!
# Pieces of texts

Taking characters off the ends of a text, and cutting a text at a character.

- `Text.Stripped` is a text without the characters of a kind at its ends; `Text.strip`
  gives just that (`Text.stripped_strip`, `Text.Stripped.eq_strip`).
- `Text.Trimmed` is the case of white space.
- No piece of a text has the character at which it was cut (`not_mem_of_mem_splitOn`).
-/

namespace RealMode

/-! ## White space at the ends -/

namespace Text

/-- The characters with the Unicode property White_Space. -/
def whiteSpace : List Nat :=
  [0x09, 0x0a, 0x0b, 0x0c, 0x0d, 0x20, 0x85, 0xa0, 0x1680, 0x2000, 0x2001, 0x2002,
    0x2003, 0x2004,
    0x2005, 0x2006, 0x2007, 0x2008, 0x2009, 0x200a, 0x2028, 0x2029, 0x202f,
    0x205f, 0x3000]

/-- The blanks are the white space characters of Unicode. -/
theorem isBlank_iff (c : Char) : isBlank c = true ↔ c.toNat ∈ whiteSpace := by
  simp only [isBlank, whiteSpace, Bool.or_eq_true, Bool.and_eq_true, decide_eq_true_eq,
    beq_iff_eq, List.mem_cons, List.not_mem_nil, or_false]
  omega

/-- `core` is `text` without the white space at its ends. -/
structure Trimmed (text core : List Char) : Prop where
  split : ∃ before after, text = before ++ core ++ after ∧
    ∀ c ∈ before ++ after, c.toNat ∈ whiteSpace
  first : ∀ c ∈ core.head?, c.toNat ∉ whiteSpace
  last : ∀ c ∈ core.getLast?, c.toNat ∉ whiteSpace

/-- Skipping stops at the first character that is not skipped. -/
theorem dropWhile_append_of_head? {p : Char → Bool} {skipped rest : List Char}
    (hskipped : ∀ c ∈ skipped, p c) (hrest : ∀ c ∈ rest.head?, ¬ p c) :
    (skipped ++ rest).dropWhile p = rest := by
  rw [List.dropWhile_append_of_pos hskipped]
  cases rest with
  | nil => rfl
  | cons c rest => exact List.dropWhile_cons_of_neg (hrest c rfl)

theorem not_of_mem_head?_dropWhile {p : Char → Bool} {cs : List Char} {c : Char}
    (h : c ∈ (cs.dropWhile p).head?) : ¬ p c := by
  have hnot := List.head?_dropWhile_not p cs
  rw [h] at hnot
  simpa using hnot

/-- `core` is `text` without the characters at its ends that satisfy `p`. -/
structure Stripped (p : Char → Bool) (text core : List Char) : Prop where
  split : ∃ before after, text = before ++ core ++ after ∧ ∀ c ∈ before ++ after, p c
  first : ∀ c ∈ core.head?, ¬ p c
  last : ∀ c ∈ core.getLast?, ¬ p c

/-- Stripping takes off all of both ends. -/
theorem stripped_strip (p : Char → Bool) (text : List Char) :
    Stripped p text (strip p text) := by
  have hfront : text.takeWhile p ++ text.dropWhile p = text :=
    List.takeWhile_append_dropWhile
  have hback : strip p text ++ (text.dropWhile p).rtakeWhile p = text.dropWhile p :=
    List.rdropWhile_append_rtakeWhile
  refine ⟨⟨_, _, by rw [List.append_assoc, hback, hfront], fun c hc => ?_⟩,
    fun c hc => ?_, fun c hc => ?_⟩
  · rcases List.mem_append.mp hc with hc | hc
    · exact List.mem_takeWhile_imp hc
    · exact List.mem_rtakeWhile_imp hc
  · have hhead : c ∈ (text.dropWhile p).head? := by
      rw [← hback]
      exact List.mem_head?_append_of_mem_head? hc
    exact not_of_mem_head?_dropWhile hhead
  · rw [strip, List.getLast?_reverse] at hc
    exact not_of_mem_head?_dropWhile hc

/-- A text has one core. -/
theorem Stripped.eq_strip {p : Char → Bool} {text core : List Char}
    (h : Stripped p text core) :
    core = strip p text := by
  obtain ⟨⟨before, after, rfl, hends⟩, hfirst, hlast⟩ := h
  simp only [List.mem_append, or_imp, forall_and] at hends
  obtain ⟨hbefore, hafter⟩ := hends
  have hback : (after.reverse ++ core.reverse).dropWhile p = core.reverse := by
    refine dropWhile_append_of_head? (by simpa using hafter) ?_
    rwa [List.head?_reverse]
  cases core with
  | nil =>
    have hall : ∀ c ∈ before ++ [] ++ after, p c := by
      simpa [or_imp, forall_and] using ⟨hbefore, hafter⟩
    rw [strip, List.dropWhile_eq_nil_iff.mpr hall]
    rfl
  | cons c core =>
    have hfront : (before ++ (c :: core ++ after)).dropWhile p = c :: core ++ after :=
      dropWhile_append_of_head? hbefore (by simpa using hfirst)
    rw [strip, List.append_assoc, hfront, List.reverse_append, hback,
      List.reverse_reverse]

theorem trimmed_iff_stripped {text core : List Char} :
    Trimmed text core ↔ Stripped isBlank text core := by
  constructor
  · rintro ⟨hsplit, hfirst, hlast⟩
    simp only [← isBlank_iff] at hsplit hfirst hlast
    exact ⟨hsplit, hfirst, hlast⟩
  · rintro ⟨hsplit, hfirst, hlast⟩
    simp only [isBlank_iff] at hsplit hfirst hlast
    exact ⟨hsplit, hfirst, hlast⟩

/-- Trimming takes off the blanks at both ends. -/
theorem trimmed_trim (text : List Char) : Trimmed text (trim text) :=
  trimmed_iff_stripped.mpr (stripped_strip isBlank text)

/-- A text is trimmed in one way. -/
theorem Trimmed.eq_trim {text core : List Char} (h : Trimmed text core) :
    core = trim text :=
  (trimmed_iff_stripped.mp h).eq_strip

end Text

/-! ## Cutting -/

/-- No piece of a split has the character that it was split at. -/
theorem not_mem_of_mem_splitOn {c : Char} {text piece : List Char}
    (h : piece ∈ text.splitOn c) :
    c ∉ piece := by
  induction text generalizing piece with
  | nil =>
    obtain rfl : piece = [] := by simpa using h
    exact List.not_mem_nil
  | cons x text ih =>
    rw [List.splitOn_cons_eq_if_modifyHead] at h
    obtain ⟨first, others, hsplit⟩ :=
      List.exists_cons_of_ne_nil (List.splitOn_ne_nil c text)
    by_cases hx : x = c
    · rw [if_pos (by simp [hx])] at h
      rcases List.mem_cons.mp h with rfl | hpiece
      · exact List.not_mem_nil
      · exact ih hpiece
    · rw [if_neg (by simp [hx]), hsplit, List.modifyHead_cons] at h
      rcases List.mem_cons.mp h with rfl | hpiece
      · have hfirst : c ∉ first := ih (hsplit ▸ List.mem_cons_self)
        simp [hfirst, Ne.symm hx]
      · exact ih (hsplit ▸ List.mem_cons_of_mem _ hpiece)

end RealMode
