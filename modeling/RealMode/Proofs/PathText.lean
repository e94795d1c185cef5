import RealMode.Files.Path
import RealMode.Proofs.TextPieces

/-!
# The parts of a path

A path is read from its text and written back. What matters of a text are the parts
between its slashes that are components.

- Reading a path and writing it gives its text (`Path.chars_ofChars`).
- A parent has one component less than the path, or only a leading `.` less
  (`Path.parent?_cases`), and the text of each parent has just the components that are
  left (`Path.rewrites_of_mem_withParents`).
- A name that is put below a directory is one component more
  (`Path.exists_splitSlash_child`).
-/

namespace RealMode.Path

/-! ## Cutting and joining -/

/-- Cutting at the slashes is the library's `splitOn`. -/
theorem splitSlash_eq_splitOn (cs : List Char) : splitSlash cs = cs.splitOn '/' := by
  induction cs with
  | nil => rfl
  | cons c cs ih =>
    obtain ⟨first, others, hsplit⟩ :=
      List.exists_cons_of_ne_nil (List.splitOn_ne_nil '/' cs)
    rw [List.splitOn_cons_eq_if_modifyHead, splitSlash, ih, hsplit]
    by_cases hc : c = '/'
    · rw [if_pos hc, if_pos (by simp [hc])]
    · rw [if_neg hc, if_neg (by simp [hc])]
      rfl

/-- Cutting a text at its slashes and joining the parts gives the text back. -/
theorem joinSlash_splitSlash (cs : List Char) : joinSlash (splitSlash cs) = cs := by
  rw [splitSlash_eq_splitOn]
  exact List.intercalate_splitOn '/'

/-- Slash-free parts survive being joined and cut again. -/
theorem splitSlash_joinSlash {parts : List (List Char)}
    (hparts : ∀ part ∈ parts, '/' ∉ part) (hne : parts ≠ []) :
    splitSlash (joinSlash parts) = parts := by
  rw [splitSlash_eq_splitOn]
  exact List.splitOn_intercalate '/' hparts hne

/-- A slash between two texts separates the parts of the one from those of the other. -/
theorem splitSlash_append (cs cs' : List Char) :
    splitSlash (cs ++ '/' :: cs') = splitSlash cs ++ splitSlash cs' := by
  rw [splitSlash_eq_splitOn, splitSlash_eq_splitOn, splitSlash_eq_splitOn,
    List.splitOn_append_cons_self]

/-- No part holds a slash. -/
theorem not_mem_of_mem_splitSlash {cs part : List Char} (h : part ∈ splitSlash cs) :
    '/' ∉ part := by
  rw [splitSlash_eq_splitOn] at h
  exact not_mem_of_mem_splitOn h

theorem splitSlash_of_not_mem {cs : List Char} (h : '/' ∉ cs) : splitSlash cs = [cs] := by
  rw [splitSlash_eq_splitOn]
  exact List.splitOn_eq_singleton h

theorem joinSlash_cons_cons (part next : List Char) (parts : List (List Char)) :
    joinSlash (part :: next :: parts) = part ++ '/' :: joinSlash (next :: parts) := by
  rw [joinSlash, List.intercalate_cons_cons, List.append_assoc]
  rfl

/-- Joining more parts only lengthens the text. -/
theorem joinSlash_isPrefix (parts parts' : List (List Char)) :
    joinSlash parts <+: joinSlash (parts ++ parts') := by
  induction parts with
  | nil => exact List.nil_prefix
  | cons part parts ih =>
    cases parts with
    | nil =>
      cases parts' with
      | nil => exact List.prefix_refl _
      | cons next parts' =>
        rw [List.singleton_append, joinSlash_cons_cons, joinSlash,
          List.intercalate_singleton]
        exact List.prefix_append _ _
    | cons next parts =>
      rw [List.cons_append, List.cons_append, joinSlash_cons_cons, joinSlash_cons_cons,
        List.prefix_append_right_inj, List.cons_prefix_cons]
      exact ⟨rfl, ih⟩

theorem chars_ofChars (cs : List Char) : (ofChars cs).chars = cs := by
  rw [ofChars, chars]
  fun_cases splitStart cs with
  | case1 rest => simp [PathStart.text, joinSlash_splitSlash]
  | case2 => rfl
  | case3 rest => simp [PathStart.text, joinSlash_splitSlash]
  | case4 => simp [PathStart.text, joinSlash_splitSlash]

/-! ## Components -/

/-- The parts that are components. -/
def active (parts : List (List Char)) : List (List Char) :=
  parts.filter fun part => !isIdle part

theorem active_append (parts parts' : List (List Char)) :
    active (parts ++ parts') = active parts ++ active parts' :=
  List.filter_append ..

theorem active_reverse (parts : List (List Char)) :
    active parts.reverse = (active parts).reverse :=
  List.filter_reverse ..

/-- Skipping the parts in front that do nothing loses no step. -/
theorem active_dropWhile (parts : List (List Char)) :
    active (parts.dropWhile isIdle) = active parts := by
  induction parts with
  | nil => rfl
  | cons part parts ih =>
    by_cases hidle : isIdle part = true
    · rw [List.dropWhile_cons_of_pos hidle, ih]
      simp [active, hidle]
    · rw [List.dropWhile_cons_of_neg hidle]

/-! ## Parents -/

/-- What a parent is: the path with one component less, or the empty path for a single
leading `.`; a path without components has none else. -/
theorem parent?_cases (p : Path) :
    (∃ q name, p.parent? = some q ∧ q.start = p.start ∧ q.parts <:+ p.parts ∧
      active p.parts = name :: active q.parts) ∨
    (active p.parts = [] ∧ p.start = .current ∧ p.parent? = some ⟨.relative, []⟩) ∨
    (active p.parts = [] ∧ p.start ≠ .current ∧ p.parent? = none) := by
  -- What stands behind the last component does not count.
  have hactive := active_dropWhile p.parts
  have hsuffix : p.parts.dropWhile isIdle <:+ p.parts := List.dropWhile_suffix _
  cases hcomponents : p.parts.dropWhile isIdle with
  | nil =>
    rw [hcomponents] at hactive
    have hparent : p.parent? =
        if p.start = .current then some ⟨.relative, []⟩ else none := by
      rw [parent?, components, hcomponents]
    by_cases hstart : p.start = .current
    · exact .inr (.inl ⟨hactive.symm, hstart, hparent.trans (if_pos hstart)⟩)
    · exact .inr (.inr ⟨hactive.symm, hstart, hparent.trans (if_neg hstart)⟩)
  | cons name rest =>
    have hname : isIdle name = false := by
      have hhead := List.head?_dropWhile_not isIdle p.parts
      rw [hcomponents] at hhead
      simpa using hhead
    refine .inl ⟨⟨p.start, rest.dropWhile isIdle⟩, name, ?_, rfl, ?_, ?_⟩
    · rw [parent?, components, hcomponents]
    · rw [hcomponents] at hsuffix
      exact (List.dropWhile_suffix _).trans ((List.suffix_cons name rest).trans hsuffix)
    · rw [hcomponents] at hactive
      rw [← hactive, active_dropWhile]
      simp [active, hname]

/-- A path with a parent is followed by what climbing from the parent meets. -/
theorem withParents_of_some {p q : Path} (h : p.parent? = some q) :
    p.withParents = p :: q.withParents := by
  rw [withParents]
  split
  · rename_i q' h'
    obtain rfl := Option.some.inj (h'.symm.trans h)
    rfl
  · rename_i h'
    cases h'.symm.trans h

/-- A path without a parent is where the climb ends. -/
theorem withParents_of_none {p : Path} (h : p.parent? = none) : p.withParents = [p] := by
  rw [withParents]
  split
  · rename_i q' h'
    cases h'.symm.trans h
  · rfl

/-- The climb starts at the path itself. -/
theorem mem_withParents_self (p : Path) : p ∈ p.withParents := by
  rw [withParents]
  exact List.mem_cons_self

/-- An induction over a path and its parents. -/
theorem parentInduction {motive : Path → Prop}
    (none : ∀ p, p.parent? = none → motive p)
    (some : ∀ p q, p.parent? = some q → motive q → motive p) (p : Path) : motive p := by
  cases h : p.parent? with
  | none => exact none p h
  | some q =>
    have := weight_parent? h
    exact some p q h (parentInduction none some q)
termination_by p.weight

/-- A parent starts where the path starts and has a rest of its parts, or it is the empty
path, which only a leading `.` leads to. -/
theorem mem_withParents_cases {p q : Path} (h : q ∈ p.withParents) :
    q.start = p.start ∧ q.parts <:+ p.parts ∨
      p.start = .current ∧ q = ⟨.relative, []⟩ := by
  induction p using parentInduction with
  | none p hparent =>
    rw [withParents_of_none hparent, List.mem_singleton] at h
    subst h
    exact .inl ⟨rfl, List.suffix_refl _⟩
  | some p r hparent ih =>
    rw [withParents_of_some hparent, List.mem_cons] at h
    rcases h with rfl | h
    · exact .inl ⟨rfl, List.suffix_refl _⟩
    · rcases parent?_cases p with ⟨r', name, hr', hstart, hsuffix, -⟩ | ⟨-, hstart, hr'⟩ |
        ⟨-, -, hr'⟩
      · obtain rfl := Option.some.inj (hparent.symm.trans hr')
        rcases ih h with ⟨hq, hqparts⟩ | ⟨hcurrent, hq⟩
        · exact .inl ⟨hq.trans hstart, hqparts.trans hsuffix⟩
        · exact .inr ⟨hstart ▸ hcurrent, hq⟩
      · obtain rfl := Option.some.inj (hparent.symm.trans hr')
        rcases ih h with ⟨hq, hqparts⟩ | ⟨-, hq⟩
        · refine .inr ⟨hstart, ?_⟩
          obtain ⟨start, parts⟩ := q
          obtain rfl : start = .relative := hq
          obtain rfl : parts = [] := List.suffix_nil.mp hqparts
          rfl
        · exact .inr ⟨hstart, hq⟩
      · cases hparent.symm.trans hr'

/-- The climb meets one path for each step and then the start; from a dot it goes on to
the empty path. -/
theorem length_withParents (p : Path) :
    p.withParents.length =
      (active p.parts).length + if p.start = .current then 2 else 1 := by
  induction p using parentInduction with
  | none p hparent =>
    rcases parent?_cases p with ⟨q, name, hq, -⟩ | ⟨-, -, hq⟩ | ⟨hactive, hstart, -⟩
    · cases hparent.symm.trans hq
    · cases hparent.symm.trans hq
    · rw [withParents_of_none hparent, hactive, if_neg hstart]
      rfl
  | some p q hparent ih =>
    rw [withParents_of_some hparent, List.length_cons, ih]
    rcases parent?_cases p with ⟨q', name, hq, hstart, -, hactive⟩ |
      ⟨hactive, hstart, hq⟩ | ⟨-, -, hq⟩
    · obtain rfl := Option.some.inj (hparent.symm.trans hq)
      rw [hactive, hstart, List.length_cons]
      omega
    · obtain rfl := Option.some.inj (hparent.symm.trans hq)
      rw [hactive, if_pos hstart]
      rfl
    · cases hparent.symm.trans hq

/-! ## The texts of parents -/

/-- The text of a path begins with a slash just when the path starts at the root, and it
has the components of the path. -/
structure Rewrites (p : Path) : Prop where
  head?_chars : p.chars.head? = some '/' ↔ p.start = .root
  active_chars : active (splitSlash p.chars) = (active p.parts).reverse

/-- A text starts at the root just when its first character is a slash. -/
theorem start_ofChars_eq_root_iff (cs : List Char) :
    (ofChars cs).start = .root ↔ cs.head? = some '/' := by
  rw [ofChars]
  fun_cases splitStart cs with
  | case1 rest => simp
  | case2 => simp
  | case3 rest => simp
  | case4 _ hroot =>
    refine iff_of_false (by simp) fun hhead => ?_
    obtain ⟨rest, rfl⟩ := List.head?_eq_some_iff.mp hhead
    exact hroot rest rfl

/-- Parts that come from a text are found again in their text. -/
theorem active_splitSlash_joinSlash {cs : List Char} {parts : List (List Char)}
    (h : parts <:+ (splitSlash cs).reverse) :
    active (splitSlash (joinSlash parts.reverse)) = (active parts).reverse := by
  obtain ⟨cut, hcut⟩ : parts.reverse <+: splitSlash cs :=
    List.reverse_suffix.mp (by simpa using h)
  rw [← active_reverse]
  by_cases hne : parts.reverse = []
  · rw [hne]
    rfl
  · rw [splitSlash_joinSlash _ hne]
    intro part hpart
    exact not_mem_of_mem_splitSlash (hcut ▸ List.mem_append_left cut hpart)

theorem rewrites_root {rest : List Char} {parts : List (List Char)}
    (h : parts <:+ (splitSlash rest).reverse) : Rewrites ⟨.root, parts⟩ :=
  ⟨iff_of_true rfl rfl, active_splitSlash_joinSlash h⟩

/-- Without its last parts, a text still begins as before. -/
theorem rewrites_relative {cs : List Char} (hcs : cs.head? ≠ some '/')
    {parts : List (List Char)} (h : parts <:+ (splitSlash cs).reverse) :
    Rewrites ⟨.relative, parts⟩ := by
  obtain ⟨cut, hcut⟩ : parts.reverse <+: splitSlash cs :=
    List.reverse_suffix.mp (by simpa using h)
  obtain ⟨behind, hbehind⟩ : joinSlash parts.reverse <+: cs := by
    rw [← joinSlash_splitSlash cs, ← hcut]
    exact joinSlash_isPrefix ..
  refine ⟨iff_of_false (fun hhead => hcs ?_) (by simp), active_splitSlash_joinSlash h⟩
  rw [← hbehind, List.head?_append,
    show (joinSlash parts.reverse).head? = some '/' from hhead]
  rfl

/-- What stands before the first slash of the text is the leading `.` alone, which is no
component. -/
theorem rewrites_current {rest : List Char} (hrest : ∀ c ∈ rest.head?, c = '/')
    {parts : List (List Char)} (h : parts <:+ (splitSlash rest).reverse) :
    Rewrites ⟨.current, parts⟩ := by
  refine ⟨by simp [chars, PathStart.text], ?_⟩
  show active (splitSlash ('.' :: joinSlash parts.reverse)) = (active parts).reverse
  rw [← active_reverse]
  obtain ⟨cut, hcut⟩ : parts.reverse <+: splitSlash rest :=
    List.reverse_suffix.mp (by simpa using h)
  generalize parts.reverse = ahead at hcut
  obtain ⟨others, hothers⟩ : ∃ others, splitSlash rest = [] :: others := by
    cases rest with
    | nil => exact ⟨[], rfl⟩
    | cons c rest =>
      obtain rfl : c = '/' := hrest c rfl
      exact ⟨splitSlash rest, rfl⟩
  cases ahead with
  | nil => rfl
  | cons part ahead =>
    obtain rfl : part = [] := by
      rw [hothers] at hcut
      exact (List.cons.inj hcut).1
    cases ahead with
    | nil => rfl
    | cons next more =>
      have hmore : ∀ part ∈ next :: more, '/' ∉ part := by
        intro part hpart
        exact not_mem_of_mem_splitSlash
          (hcut ▸ List.mem_append_left cut (List.mem_cons_of_mem [] hpart))
      rw [joinSlash_cons_cons]
      show active (splitSlash (['.'] ++ '/' :: joinSlash (next :: more))) = _
      rw [splitSlash_append, splitSlash_joinSlash hmore (List.cons_ne_nil next more)]
      rfl

/-- The text of a path and of each of its parents has the components of that path. -/
theorem rewrites_of_mem_withParents {cs : List Char} {q : Path}
    (h : q ∈ (ofChars cs).withParents) : q.Rewrites := by
  rcases mem_withParents_cases h with ⟨hstart, hparts⟩ | ⟨-, rfl⟩
  · obtain ⟨start, parts⟩ := q
    revert hstart hparts
    rw [ofChars]
    fun_cases splitStart cs with
    | case1 rest =>
      rintro rfl hparts
      exact rewrites_root hparts
    | case2 =>
      rintro rfl hparts
      exact rewrites_current (by simp) hparts
    | case3 rest =>
      rintro rfl hparts
      exact rewrites_current (by simp) hparts
    | case4 _ hroot =>
      rintro rfl hparts
      refine rewrites_relative (fun hhead => ?_) hparts
      obtain ⟨rest, rfl⟩ := List.head?_eq_some_iff.mp hhead
      exact hroot rest rfl
  · exact ⟨by simp [chars, PathStart.text, joinSlash], rfl⟩

/-- The texts of a path and of its parents begin alike: all with a slash or none. -/
theorem head?_chars_of_mem_withParents {cs : List Char} {q : Path}
    (h : q ∈ (ofChars cs).withParents) :
    q.chars.head? = some '/' ↔ cs.head? = some '/' := by
  rw [(rewrites_of_mem_withParents h).head?_chars, ← start_ofChars_eq_root_iff]
  rcases mem_withParents_cases h with ⟨hstart, -⟩ | ⟨hcurrent, rfl⟩
  · rw [hstart]
  · rw [hcurrent]
    exact iff_of_false (by simp) (by simp)

/-- A name below a directory is one part more. -/
theorem exists_splitSlash_child (dir name : String) (hname : '/' ∉ name.toList) :
    ∃ parts, splitSlash (child dir name).toList = parts ++ [name.toList] ∧
      active parts = active (splitSlash dir.toList) := by
  unfold child
  split
  · rename_i hlast
    refine ⟨[], splitSlash_of_not_mem hname, ?_⟩
    rw [List.getLast?_eq_none_iff.mp hlast]
    rfl
  · rename_i hlast
    obtain ⟨d, hd⟩ : ∃ d, dir.toList = d ++ ['/'] :=
      ⟨_, (List.dropLast_append_getLast? _ hlast).symm⟩
    refine ⟨splitSlash d, ?_, ?_⟩
    · rw [String.toList_append, hd, List.append_assoc, List.singleton_append,
        splitSlash_append, splitSlash_of_not_mem hname]
    · rw [hd, splitSlash_append, active_append]
      exact (List.append_nil _).symm
  · refine ⟨splitSlash dir.toList, ?_, rfl⟩
    have hslash : "/".toList ++ name.toList = '/' :: name.toList := rfl
    rw [String.toList_append, String.toList_append, List.append_assoc, hslash,
      splitSlash_append, splitSlash_of_not_mem hname]

/-- A name put under a directory begins as the directory does, unless that is empty. -/
theorem head?_child (dir name : String) :
    (child dir name).toList.head? = dir.toList.head?.or name.toList.head? := by
  unfold child
  split
  · rename_i hlast
    rw [List.getLast?_eq_none_iff.mp hlast]
    rfl
  · rw [String.toList_append, List.head?_append]
  · rename_i hlast
    rw [String.toList_append, String.toList_append, List.append_assoc, List.head?_append]
    cases hdir : dir.toList with
    | nil => simp [hdir] at hlast
    | cons c cs => rfl

end RealMode.Path
