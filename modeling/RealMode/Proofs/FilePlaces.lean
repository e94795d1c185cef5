import RealMode.Files.Tree
import RealMode.Proofs.PathText

/-!
# Where paths lead

A path is followed part by part; a `..` goes back to the directory above. From the
components of a path and the place where it starts, the root or the working directory, one
can tell the place that it leads to, if it leads anywhere.

- `Path.placeFrom` is where components lead. A path that leads to a directory leads to the
  place of its components, and all the places on the way are directories
  (`FileTree.reach_eq_ok_iff`, `FileTree.denotes_iff`).
- The parent of a path to a file leads to the directory of the file
  (`FileTree.exists_denotes_parentText?`).
- A written file is found again at its path, and nothing else has changed
  (`FileTree.exists_writeText_of_writable`).
-/

namespace RealMode

namespace Path

/-- The components among the parts, as names. -/
def steps (parts : List (List Char)) : List String :=
  (active parts).map String.ofList

/-- The components of a text, the last first. -/
def stepsOf (path : String) : List String :=
  steps (splitSlash path.toList).reverse

/-- Where components lead from a place, both with the last name first. -/
def placeFrom (start : List String) : List String → List String
  | [] => start
  | name :: rest =>
    if name = ".." then (placeFrom start rest).tail else name :: placeFrom start rest

/-- The parts that lead nowhere are the empty one and the dot. -/
theorem isIdle_iff (part : List Char) :
    isIdle part = true ↔ String.ofList part = "" ∨ String.ofList part = "." := by
  rw [isIdle, Bool.or_eq_true, beq_iff_eq, beq_iff_eq, ← String.toList_inj,
    ← String.toList_inj, String.toList_ofList]
  rfl

theorem steps_cons_of_idle {part : List Char} (h : isIdle part = true)
    (parts : List (List Char)) : steps (part :: parts) = steps parts := by
  simp [steps, active, h]

theorem steps_cons_of_not_idle {part : List Char} (h : ¬isIdle part = true)
    (parts : List (List Char)) :
    steps (part :: parts) = String.ofList part :: steps parts := by
  simp [steps, active, h]

/-- The components of a path are those of its text. -/
theorem Rewrites.stepsOf_chars {p : Path} (h : p.Rewrites) :
    stepsOf (String.ofList p.chars) = steps p.parts := by
  rw [stepsOf, String.toList_ofList, steps, active_reverse, h.active_chars,
    List.reverse_reverse]
  rfl

/-- The steps of a text are those of the path it is read as. -/
theorem stepsOf_eq (dir : String) : stepsOf dir = steps (ofChars dir.toList).parts := by
  have hself := (rewrites_of_mem_withParents (mem_withParents_self (ofChars dir.toList)))
  rw [← hself.stepsOf_chars, chars_ofChars, String.ofList_toList]

/-- Without a `..`, components lead straight down. -/
theorem placeFrom_eq_append {start steps : List String} (h : ".." ∉ steps) :
    placeFrom start steps = steps ++ start := by
  induction steps with
  | nil => rfl
  | cons name steps ih =>
    rw [List.mem_cons, not_or] at h
    rw [placeFrom, if_neg (Ne.symm h.1), ih h.2, List.cons_append]

end Path

namespace FileTree

open RealMode.Path

variable {tree : FileTree} {start place : List String}

/-! ## Entries -/

/-- The root is always there. -/
@[simp] theorem get?_nil (tree : FileTree) : tree.get? [] = some .directory :=
  rfl

/-- What is above an entry is a directory. -/
theorem get?_of_get?_cons {name : String} {above : List String} {entry : FileEntry}
    (h : tree.get? (name :: above) = some entry) : tree.get? above = some .directory := by
  unfold get? at h
  split at h
  · assumption
  · cases h

/-- Above a directory there is a directory. -/
theorem get?_tail (h : tree.get? place = some .directory) :
    tree.get? place.tail = some .directory := by
  cases place with
  | nil => rfl
  | cons name above => exact get?_of_get?_cons h

/-- Inside a directory, what stands at a name is what is recorded for it. -/
theorem get?_cons_of_directory {above : List String}
    (h : tree.get? above = some .directory) (name : String) :
    tree.get? (name :: above) = tree.entries[name :: above]? := by
  rw [get?, h]

/-- Nothing stands below what is no directory. -/
theorem get?_cons_of_ne_directory {above : List String}
    (h : tree.get? above ≠ some .directory) (name : String) :
    tree.get? (name :: above) = none := by
  rw [get?]
  split
  · rename_i hdirectory
    exact absurd hdirectory h
  · rfl

@[simp] theorem getElem?_entries_empty (workDir place : List String) :
    ({ workDir } : FileTree).entries[place]? = none :=
  Std.TreeMap.getElem?_emptyc

@[simp] theorem workDir_put (tree : FileTree) (place : List String) (entry : FileEntry) :
    (tree.put place entry).workDir = tree.workDir :=
  rfl

/-- Putting an entry at a place changes the record of that place alone. -/
@[simp] theorem getElem?_entries_put (tree : FileTree) (place other : List String)
    (entry : FileEntry) :
    (tree.put place entry).entries[other]? =
      if place = other then some entry else tree.entries[other]? := by
  simp [put, Std.TreeMap.getElem?_insert]

/-- A file that is put where no directory is changes no other place. -/
theorem get?_put_of_ne {bytes : ByteArray} (hplace : tree.get? place ≠ some .directory)
    {other : List String} (hne : other ≠ place) :
    get? (tree.put place (.file bytes)) other = tree.get? other := by
  induction other with
  | nil => rfl
  | cons name above ih =>
    by_cases habove : above = place
    · -- Neither the file nor what was there before is a directory with entries.
      subst habove
      have hfile : get? (tree.put above (.file bytes)) above ≠ some .directory := by
        cases above with
        | nil => exact absurd rfl hplace
        | cons name' above =>
          rw [get?]
          split
          · simp
          · simp
      rw [get?_cons_of_ne_directory hplace, get?_cons_of_ne_directory hfile]
    · rw [get?, get?, ih habove, getElem?_entries_put, if_neg (Ne.symm hne)]

/-- A file is found where it is put, if there is a directory for it. -/
theorem get?_put_self {name : String} {above : List String} {bytes : ByteArray}
    (habove : tree.get? above = some .directory)
    (hplace : tree.get? (name :: above) ≠ some .directory) :
    get? (tree.put (name :: above) (.file bytes)) (name :: above) =
      some (.file bytes) := by
  have hkept : get? (tree.put (name :: above) (.file bytes)) above = some .directory := by
    rw [get?_put_of_ne hplace (List.cons_ne_self name above).symm, habove]
  rw [get?_cons_of_directory hkept, getElem?_entries_put, if_pos rfl]

/-! ## Following a path -/

/-- A step is made from a directory: to the same place, to the one above, or to an
entry. -/
theorem step_eq_ok_iff {part : String} {next : List String} :
    tree.step place part = .ok next ↔ tree.get? place = some .directory ∧
      next = if part = "" ∨ part = "." then place
        else if part = ".." then place.tail else part :: place := by
  unfold step
  cases hentry : tree.get? place with
  | none => simp
  | some entry =>
    cases entry with
    | file bytes => simp
    | directory => grind

/-- Where parts lead from a place; the last part comes first. -/
def reach (tree : FileTree) (start : List String) (parts : List (List Char)) :
    Except FileFault (List String) :=
  (parts.reverse.map String.ofList).foldlM tree.step start

/-- One more part is followed when the parts before it lead to a directory. -/
theorem reach_cons_eq_ok_iff {part : List Char} {parts : List (List Char)}
    {next : List String} :
    tree.reach start (part :: parts) = .ok next ↔
      ∃ above, (tree.reach start parts = .ok above ∧ tree.get? above = some .directory) ∧
        next = if isIdle part then above
          else if String.ofList part = ".." then above.tail
          else String.ofList part :: above := by
  have hcons : tree.reach start (part :: parts) =
      tree.reach start parts >>= fun place => tree.step place (String.ofList part) := by
    simp [reach]
  rw [hcons]
  simp only [isIdle_iff]
  cases tree.reach start parts with
  | error fault => simp [bind, Except.bind]
  | ok place =>
    simp only [bind, Except.bind, Except.ok.injEq, step_eq_ok_iff]
    simp

/-- Following a path is walking its parts from where the path starts. -/
theorem follow_eq_reach {path : String} (hne : path ≠ "") :
    tree.follow path =
      tree.reach (tree.origin path) (splitSlash path.toList).reverse := by
  rw [follow, if_neg hne, reach, List.reverse_reverse]

/-- Components lead somewhere from a place: all the places on the way are directories. -/
def Leads (tree : FileTree) (start steps : List String) : Prop :=
  ∀ rest, rest <:+ steps → tree.get? (placeFrom start rest) = some .directory

/-- No steps lead along directories exactly when the start is one. -/
theorem leads_nil_iff : tree.Leads start [] ↔ tree.get? start = some .directory := by
  constructor
  · exact fun h => h [] List.suffix_rfl
  · intro h rest hrest
    rwa [List.suffix_nil.mp hrest]

/-- One more step leads along directories when it ends in one. -/
theorem leads_cons_iff {name : String} {steps : List String} :
    tree.Leads start (name :: steps) ↔
      tree.Leads start steps ∧
        tree.get? (placeFrom start (name :: steps)) = some .directory := by
  simp only [Leads, List.suffix_cons_iff, or_imp, forall_and, forall_eq]
  exact and_comm

/-- Parts lead to a directory just when their components do, and to the place of these. -/
theorem reach_eq_ok_iff {parts : List (List Char)} :
    tree.reach start parts = .ok place ∧ tree.get? place = some .directory ↔
      tree.Leads start (steps parts) ∧ place = placeFrom start (steps parts) := by
  -- Over the parts from the last one back; the last is idle, a `..` or a name.
  induction parts generalizing place with
  | nil =>
    rw [show steps [] = [] from rfl, leads_nil_iff]
    constructor
    · rintro ⟨hreach, hdirectory⟩
      obtain rfl := Except.ok.inj hreach
      exact ⟨hdirectory, rfl⟩
    · rintro ⟨hdirectory, rfl⟩
      exact ⟨rfl, hdirectory⟩
  | cons part parts ih =>
    simp only [reach_cons_eq_ok_iff, ih]
    by_cases hidle : isIdle part = true
    · simp only [hidle, if_true, steps_cons_of_idle hidle]
      constructor
      · rintro ⟨⟨above, hleads, rfl⟩, -⟩
        exact hleads
      · rintro ⟨hleads, rfl⟩
        exact ⟨⟨_, ⟨hleads, rfl⟩, rfl⟩, hleads _ List.suffix_rfl⟩
    · have hnext (above : List String) : (if isIdle part then above
          else if String.ofList part = ".." then above.tail
          else String.ofList part :: above) =
          if String.ofList part = ".." then above.tail
          else String.ofList part :: above := by
        rw [if_neg hidle]
      simp only [hnext, steps_cons_of_not_idle hidle, leads_cons_iff]
      constructor
      · rintro ⟨⟨above, ⟨hleads, rfl⟩, rfl⟩, hdirectory⟩
        exact ⟨⟨hleads, hdirectory⟩, rfl⟩
      · rintro ⟨⟨hleads, hdirectory⟩, rfl⟩
        exact ⟨⟨_, ⟨hleads, rfl⟩, rfl⟩, hdirectory⟩

/-! ## Directories -/

/-- A path leads to a directory. The empty path leads to the working directory. -/
structure Denotes (tree : FileTree) (dir : String) (place : List String) : Prop where
  follows : dir = "" ∧ place = tree.workDir ∨ tree.follow dir = .ok place
  directory : tree.get? place = some .directory

/-- A path denotes the place its steps lead to, along directories only. -/
theorem denotes_iff {dir : String} :
    tree.Denotes dir place ↔ tree.Leads (tree.origin dir) (stepsOf dir) ∧
      place = placeFrom (tree.origin dir) (stepsOf dir) := by
  by_cases hempty : dir = ""
  · subst hempty
    show _ ↔ tree.Leads tree.workDir [] ∧ place = tree.workDir
    rw [leads_nil_iff]
    constructor
    · rintro ⟨⟨-, rfl⟩ | hfollow, hdirectory⟩
      · exact ⟨hdirectory, rfl⟩
      · cases hfollow
    · rintro ⟨hdirectory, rfl⟩
      exact ⟨.inl ⟨rfl, rfl⟩, hdirectory⟩
  · constructor
    · rintro ⟨⟨rfl, -⟩ | hfollow, hdirectory⟩
      · exact absurd rfl hempty
      · rw [follow_eq_reach hempty] at hfollow
        exact reach_eq_ok_iff.mp ⟨hfollow, hdirectory⟩
    · intro hleads
      obtain ⟨hreach, hdirectory⟩ := reach_eq_ok_iff.mpr hleads
      exact ⟨.inr (follow_eq_reach hempty ▸ hreach), hdirectory⟩

/-- A path that leads to anything but a directory ends in a name, and what is before it
leads to a directory. -/
theorem exists_steps_of_follow {path : String} (hfollow : tree.follow path = .ok place)
    (hplace : tree.get? place ≠ some .directory) :
    ∃ name rest, stepsOf path = name :: rest ∧ tree.Leads (tree.origin path) rest ∧
      place = name :: placeFrom (tree.origin path) rest := by
  have hne : path ≠ "" := by
    rintro rfl
    cases hfollow
  obtain ⟨last, parts, hparts⟩ :
      ∃ last parts, (splitSlash path.toList).reverse = last :: parts := by
    refine List.exists_cons_of_ne_nil ?_
    rw [Ne, List.reverse_eq_nil_iff, splitSlash_eq_splitOn]
    exact List.splitOn_ne_nil _ _
  rw [follow_eq_reach hne, hparts, reach_cons_eq_ok_iff] at hfollow
  obtain ⟨above, hreach, rfl⟩ := hfollow
  obtain ⟨hleads, rfl⟩ := reach_eq_ok_iff.mp hreach
  -- A last part that is no name would lead to a directory.
  have hidle : ¬isIdle last = true := by
    intro hidle
    rw [if_pos hidle] at hplace
    exact hplace hreach.2
  have hup : String.ofList last ≠ ".." := by
    intro hup
    rw [if_neg hidle, if_pos hup] at hplace
    exact hplace (get?_tail hreach.2)
  refine ⟨String.ofList last, steps parts, ?_, hleads, by rw [if_neg hidle, if_neg hup]⟩
  rw [stepsOf, hparts, steps_cons_of_not_idle hidle]

/-- The text of a parent starts where the path starts. -/
theorem origin_of_mem_withParents {path : String} {q : Path}
    (h : q ∈ (ofChars path.toList).withParents) :
    tree.origin (String.ofList q.chars) = tree.origin path := by
  rw [origin, origin, String.toList_ofList]
  simp only [head?_chars_of_mem_withParents h]

/-- The parent of a path to a file leads to the directory of the file. -/
theorem exists_denotes_parentText? {path : String} {bytes : ByteArray}
    (hfollow : tree.follow path = .ok place)
    (hentry : tree.get? place = some (.file bytes)) :
    ∃ dir file above, parentText? path = some dir ∧ place = file :: above ∧
      tree.Denotes dir above ∧ tree.origin dir = tree.origin path ∧
      stepsOf path = file :: stepsOf dir := by
  obtain ⟨file, rest, hsteps, hleads, hplace⟩ :=
    exists_steps_of_follow hfollow (by rw [hentry]; simp)
  have hparts := hsteps
  rw [stepsOf_eq] at hparts
  rcases parent?_cases (ofChars path.toList) with ⟨q, name, hq, -, -, hactive⟩ |
    ⟨hactive, -⟩ | ⟨hactive, -⟩
  · rw [steps, hactive, List.map_cons] at hparts
    obtain ⟨-, hrest⟩ := List.cons.inj hparts
    have hmem : q ∈ (ofChars path.toList).withParents := by
      rw [withParents_of_some hq]
      exact List.mem_cons_of_mem _ (mem_withParents_self q)
    have horigin : tree.origin (String.ofList q.chars) = tree.origin path :=
      origin_of_mem_withParents hmem
    have hdir : stepsOf (String.ofList q.chars) = rest :=
      (rewrites_of_mem_withParents hmem).stepsOf_chars.trans hrest
    refine ⟨String.ofList q.chars, file, _, by rw [parentText?, hq]; rfl, hplace,
      denotes_iff.mpr ?_, horigin, by rw [hsteps, hdir]⟩
    rw [horigin, hdir]
    exact ⟨hleads, rfl⟩
  · rw [steps, hactive] at hparts
    cases hparts
  · rw [steps, hactive] at hparts
    cases hparts

/-! ## Writing -/

/-- A file can be written at a path: no directory is there, and it can be followed. -/
def Writable (tree : FileTree) (path : String) : Prop :=
  ∃ place, tree.follow path = .ok place ∧ tree.get? place ≠ some .directory

/-- One file has been written: the text is read at the path, and every other place is as
before, and so is the working directory. -/
def Rewritten (tree after : FileTree) (path text : String) : Prop :=
  after.readText path = .ok text ∧ after.workDir = tree.workDir ∧
    ∃ place, tree.follow path = .ok place ∧ ∀ other, other ≠ place →
      after.get? other = tree.get? other

/-- A file that is put where no directory is leaves the directories. -/
theorem get?_put_of_directory {bytes : ByteArray}
    (hplace : tree.get? place ≠ some .directory) {other : List String}
    (hother : tree.get? other = some .directory) :
    get? (tree.put place (.file bytes)) other = some .directory := by
  rw [get?_put_of_ne hplace, hother]
  rintro rfl
  exact hplace hother

/-- Every place on the way is a directory, and putting a file replaces none of these. -/
theorem foldlM_step_put {bytes : ByteArray} {parts start next : List String}
    (hplace : tree.get? place ≠ some .directory)
    (h : parts.foldlM tree.step start = .ok next) :
    parts.foldlM (tree.put place (.file bytes)).step start = .ok next := by
  induction parts generalizing start with
  | nil => exact h
  | cons part parts ih =>
    rw [List.foldlM_cons] at h ⊢
    cases hstep : tree.step start part with
    | error fault =>
      rw [hstep] at h
      cases h
    | ok first =>
      obtain ⟨hdirectory, hfirst⟩ := step_eq_ok_iff.mp hstep
      rw [hstep] at h
      rw [step_eq_ok_iff.mpr ⟨get?_put_of_directory hplace hdirectory, hfirst⟩]
      exact ih h

/-- What is put where no directory is does not change where paths lead. -/
theorem follow_put {bytes : ByteArray} {path : String} {next : List String}
    (hplace : tree.get? place ≠ some .directory) (hfollow : tree.follow path = .ok next) :
    (tree.put place (.file bytes)).follow path = .ok next := by
  by_cases hne : path = ""
  · subst hne
    cases hfollow
  · rw [follow, if_neg hne] at hfollow ⊢
    exact foldlM_step_put hplace hfollow

/-- A path to a file that holds a text reads as that text. -/
theorem readText_of_file {path text : String} (hfollow : tree.follow path = .ok place)
    (hentry : tree.get? place = some (.file text.toUTF8)) :
    tree.readText path = .ok text := by
  have htext : String.fromUTF8? text.toUTF8 = some text := dif_pos text.isValidUTF8
  simp only [readText, read, hfollow, hentry, bind, Except.bind, pure, Except.pure, htext]

/-- What can be read as a text is a file. -/
theorem exists_file_of_readText {path text : String} (h : tree.readText path = .ok text) :
    ∃ place bytes, tree.follow path = .ok place ∧
      tree.get? place = some (.file bytes) := by
  cases hfollow : tree.follow path with
  | error fault =>
    rw [readText, read, hfollow] at h
    cases h
  | ok place =>
    rw [readText, read, hfollow] at h
    cases hentry : tree.get? place with
    | none =>
      simp only [bind, Except.bind, hentry] at h
      cases h
    | some entry =>
      cases entry with
      | directory =>
        simp only [bind, Except.bind, hentry] at h
        cases h
      | file bytes => exact ⟨place, bytes, rfl, hentry⟩

/-- Writing succeeds where the path is followed and no directory is in the way. -/
theorem writeText_of_ne_directory {path : String} (hfollow : tree.follow path = .ok place)
    (hplace : tree.get? place ≠ some .directory) (text : String) :
    tree.writeText path text = .ok (tree.put place (.file text.toUTF8)) := by
  rw [writeText, hfollow]
  cases hentry : tree.get? place with
  | none => simp only [bind, Except.bind, hentry]; rfl
  | some entry =>
    cases entry with
    | directory => exact absurd hentry hplace
    | file bytes => simp only [bind, Except.bind, hentry]; rfl

/-- What can be written is written and found again. -/
theorem exists_writeText_of_writable {path : String} (h : tree.Writable path)
    (text : String) :
    ∃ after, tree.writeText path text = .ok after ∧ tree.Rewritten after path text := by
  obtain ⟨place, hfollow, hplace⟩ := h
  obtain ⟨name, rest, -, hleads, rfl⟩ := exists_steps_of_follow hfollow hplace
  refine ⟨_, writeText_of_ne_directory hfollow hplace text, ?_, rfl, _, hfollow,
    fun other hother => get?_put_of_ne hplace hother⟩
  exact readText_of_file (follow_put hplace hfollow)
    (get?_put_self (hleads rest List.suffix_rfl) hplace)

/-- What cannot be written is refused. -/
theorem exists_error_of_not_writable {path : String} (h : ¬tree.Writable path)
    (text : String) :
    ∃ fault, tree.writeText path text = .error fault := by
  cases hfollow : tree.follow path with
  | error fault => exact ⟨fault, by rw [writeText, hfollow]; rfl⟩
  | ok place =>
    have hdirectory : tree.get? place = some .directory := by
      by_contra hentry
      exact h ⟨place, hfollow, hentry⟩
    refine ⟨.isDirectory, ?_⟩
    rw [writeText, hfollow]
    simp only [bind, Except.bind, hdirectory]

theorem run_writeText_of_ok {after : FileTree} {path text : String}
    (h : tree.writeText path text = .ok after) :
    (disk.writeText path text).run tree = (.ok (), after) := by
  simp only [disk, StateT.run_bind, StateT.run_get, pure_bind, h]
  rfl

/-- A write that fails leaves the tree as it was. -/
theorem run_writeText_of_error {path text : String} {fault : FileFault}
    (h : tree.writeText path text = .error fault) :
    (disk.writeText path text).run tree = (.error fault, tree) := by
  simp only [disk, StateT.run_bind, StateT.run_get, pure_bind, h]
  rfl

end FileTree

end RealMode
