import RealMode.Config
import RealMode.Proofs.NumberLiterals

/-!
# The entries of a configuration file

A configuration is read line by line, with the section carried along. Here its entries are
described by their places, without the reader.

- `Config.lines` are the lines of a text, without their line ends.
- `Config.Heads` and `Config.Sets` say what a single line is: the head of a section, or a
  key and its value.
- `Config.InCodegen` says that the last head among some lines is that of the section
  `codegen`.

The entries of a text are the lines that set something and stand in that section, each
with its number (`Config.IsEntries`). The reader finds exactly these
(`Config.isEntries_entries`).
-/

namespace RealMode

namespace Config

/-! ## Lines -/

/-- A line without the carriage return before its newline. -/
def dropReturn (piece : List Char) : List Char :=
  if piece.getLast? = some '\r' then piece.dropLast else piece

/-- The lines of a text, which end with a newline or with a carriage return and a newline.
What follows the last newline is a line unless it is empty. -/
def lines (text : String) : List (List Char) :=
  let pieces := text.toList.splitOn '\n'
  pieces.dropLast.map dropReturn ++ pieces.getLast?.toList.filter (· ≠ [])

/-- Reading line by line cuts the text at its newlines and drops an empty last piece. -/
theorem splitLines_eq (current text : List Char) :
    splitLines current text =
      ((text.splitOn '\n').modifyHead (current.reverse ++ ·)).dropLast ++
        ((text.splitOn '\n').modifyHead (current.reverse ++ ·)).getLast?.toList.filter
          (· ≠ []) := by
  induction text generalizing current with
  | nil =>
    by_cases hcurrent : current = []
    · simp [splitLines, hcurrent]
    · simp [splitLines, hcurrent]
  | cons c text ih =>
    obtain ⟨first, others, hsplit⟩ :=
      List.exists_cons_of_ne_nil (List.splitOn_ne_nil '\n' text)
    rw [List.splitOn_cons_eq_if_modifyHead]
    by_cases hc : c = '\n'
    · rw [if_pos (by simp [hc]), hc, splitLines, ih, hsplit]
      simp
    · rw [if_neg (by simp [hc]), splitLines, ih, hsplit]
      · simp
      · rintro rfl
        exact hc rfl

/-! ## What a line says -/

/-- `core` is what a line says: what stands before its first `#`, without the white space
at the ends. -/
def Says (line core : List Char) : Prop :=
  ∃ kept comment, line = kept ++ comment ∧ '#' ∉ kept ∧ (∀ c ∈ comment.head?, c = '#') ∧
    Text.Trimmed kept core

/-- What a line says is its content. -/
theorem says_iff {line core : List Char} : Says line core ↔ core = content line := by
  constructor
  · rintro ⟨kept, comment, rfl, hkept, hcomment, hcore⟩
    have hall : ∀ c ∈ kept, (c != '#') = true := fun c hc =>
      bne_iff_ne.mpr fun h => hkept (h ▸ hc)
    have hstop : comment.takeWhile (· != '#') = [] := by
      cases comment with
      | nil => rfl
      | cons c comment => exact List.takeWhile_cons_of_neg (by simp [hcomment c rfl])
    rw [content, List.takeWhile_append_of_pos hall, hstop, List.append_nil]
    exact hcore.eq_trim
  · rintro rfl
    refine ⟨_, _, List.takeWhile_append_dropWhile.symm, fun h => ?_, fun c hc => ?_,
      Text.trimmed_trim _⟩
    · simpa using List.mem_takeWhile_imp h
    · simpa using Text.not_of_mem_head?_dropWhile hc

/-- A comment adds nothing to what a line says. -/
theorem content_append_comment (line comment : List Char) :
    content (line ++ '#' :: comment) = content line := by
  obtain ⟨kept, rest, hline, hkept, hrest, hcore⟩ := says_iff.mpr (rfl : content line = _)
  refine (says_iff.mp ⟨kept, rest ++ '#' :: comment, ?_, hkept, ?_, hcore⟩).symm
  · rw [← List.append_assoc, ← hline]
  · cases rest with
    | nil => simp
    | cons c rest => exact hrest

/-- Nor does a carriage return at its end. -/
theorem content_append_return (line : List Char) :
    content (line ++ ['\r']) = content line := by
  obtain ⟨kept, rest, rfl, hkept, hrest, hcore⟩ := says_iff.mpr (rfl : content line = _)
  refine (says_iff.mp ?_).symm
  cases rest with
  | nil =>
    -- The carriage return is white space at the end of the line.
    obtain ⟨⟨before, after, hsplit, hblank⟩, hfirst, hlast⟩ := hcore
    refine ⟨kept ++ ['\r'], [], by simp, by simp [hkept], by simp,
      ⟨before, after ++ ['\r'], ?_, ?_⟩, hfirst, hlast⟩
    · rw [← List.append_assoc, ← hsplit]
    · intro c hc
      rw [← List.append_assoc, List.mem_append, List.mem_singleton] at hc
      rcases hc with hc | rfl
      · exact hblank c hc
      · decide
  | cons c rest =>
    exact ⟨kept, (c :: rest) ++ ['\r'], by simp, hkept, by simpa using hrest, hcore⟩

theorem content_dropReturn (piece : List Char) :
    content (dropReturn piece) = content piece := by
  rw [dropReturn]
  split_ifs with h
  · conv_rhs => rw [← List.dropLast_append_getLast? _ h]
    exact (content_append_return _).symm
  · rfl

/-- The lines as they are read and the lines of the text say the same. -/
theorem map_content_splitLines (text : String) :
    (splitLines [] text.toList).map content = (lines text).map content := by
  have hhead : (text.toList.splitOn '\n').modifyHead ([] ++ ·) =
      text.toList.splitOn '\n' := by
    cases text.toList.splitOn '\n' <;> rfl
  rw [splitLines_eq, List.reverse_nil, hhead, lines, List.map_append, List.map_append,
    List.map_map]
  congr 1
  exact List.map_congr_left fun piece _ => (content_dropReturn piece).symm

/-- The line is the head of the section with the given name. -/
def Heads (line : List Char) (name : String) : Prop :=
  ∃ inner, Says line ('[' :: (inner ++ [']'])) ∧ Text.Trimmed inner name.toList

/-- The text is one side of an entry: what is left of the side without white space at its
ends and then without double quotes. -/
def Side (cs : List Char) (text : String) : Prop :=
  ∃ core, Text.Trimmed cs core ∧ Text.Stripped (· == '"') core text.toList

/-- The line is no head and gives the key the value. -/
def Sets (line : List Char) (key value : String) : Prop :=
  ∃ left right, Says line (left ++ '=' :: right) ∧
    (∀ inner, left ++ '=' :: right ≠ '[' :: (inner ++ [']'])) ∧ '=' ∉ left ∧
    Side left key ∧ Side right value

/-- A head is its name in square brackets, with blanks around the name allowed. -/
theorem sectionName?_eq_some_iff {core : List Char} {name : String} :
    sectionName? core = some name ↔
      ∃ inner, core = '[' :: (inner ++ [']']) ∧ Text.Trimmed inner name.toList := by
  constructor
  · intro h
    unfold sectionName? at h
    split at h
    · rename_i rest
      split_ifs at h with hlast
      obtain rfl := Option.some.inj h
      refine ⟨rest.dropLast, ?_, ?_⟩
      · rw [List.dropLast_append_getLast? _ hlast]
      · rw [String.toList_ofList]
        exact Text.trimmed_trim _
    · cases h
  · rintro ⟨inner, rfl, hname⟩
    have hlast : (inner ++ [']']).getLast? = some ']' := by simp
    rw [sectionName?, if_pos hlast, List.dropLast_concat, ← hname.eq_trim,
      String.ofList_toList]

/-- Anything not in square brackets is no head. -/
theorem sectionName?_eq_none_iff {core : List Char} :
    sectionName? core = none ↔ ∀ inner, core ≠ '[' :: (inner ++ [']']) := by
  rw [Option.eq_none_iff_forall_ne_some]
  constructor
  · intro h inner hcore
    refine h (String.ofList (Text.trim inner))
      (sectionName?_eq_some_iff.mpr ⟨inner, hcore, ?_⟩)
    rw [String.toList_ofList]
    exact Text.trimmed_trim _
  · intro h name hname
    obtain ⟨inner, hcore, -⟩ := sectionName?_eq_some_iff.mp hname
    exact h inner hcore

/-- The reading of one side of an equals sign is unique. -/
theorem side_iff {cs : List Char} {text : String} : Side cs text ↔ text = side cs := by
  constructor
  · rintro ⟨core, hcore, htext⟩
    rw [side, ← hcore.eq_trim, ← htext.eq_strip, String.ofList_toList]
  · rintro rfl
    refine ⟨_, Text.trimmed_trim cs, ?_⟩
    rw [side, String.toList_ofList]
    exact Text.stripped_strip _ _

/-- A setting is cut at its first equals sign. -/
theorem keyValue?_eq_some_iff {core : List Char} {key value : String} :
    keyValue? core = some (key, value) ↔
      ∃ left right, core = left ++ '=' :: right ∧ '=' ∉ left ∧ Side left key ∧
      Side right value := by
  simp only [side_iff]
  constructor
  · intro h
    rw [keyValue?] at h
    split at h
    · cases h
    · rename_i c right hdrop
      have hhead : c ∈ (core.dropWhile (· != '=')).head? := by
        rw [hdrop]
        rfl
      have hsplit : core.takeWhile (· != '=') ++ core.dropWhile (· != '=') = core :=
        List.takeWhile_append_dropWhile
      obtain rfl : c = '=' := by simpa using Text.not_of_mem_head?_dropWhile hhead
      refine ⟨core.takeWhile (· != '='), right, ?_, fun hmem => ?_, ?_⟩
      · rw [← hdrop]
        exact hsplit.symm
      · simpa using List.mem_takeWhile_imp hmem
      · simpa [eq_comm] using h
  · rintro ⟨left, right, rfl, hleft, rfl, rfl⟩
    have hall : ∀ c ∈ left, (c != '=') = true := fun c hc =>
      bne_iff_ne.mpr fun h => hleft (h ▸ hc)
    have hstop : ∀ c ∈ ('=' :: right).head?, ¬ (c != '=') = true := by simp
    have htake : (left ++ '=' :: right).takeWhile (· != '=') = left := by
      rw [List.takeWhile_append_of_pos hall, List.takeWhile_cons_of_neg (by simp),
        List.append_nil]
    rw [keyValue?, Text.dropWhile_append_of_head? hall hstop, htake]

/-- A line is a head when its content reads as one. -/
theorem heads_iff {line : List Char} {name : String} :
    Heads line name ↔ sectionName? (content line) = some name := by
  simp only [Heads, sectionName?_eq_some_iff, says_iff, eq_comm (b := content line)]

/-- A line is a setting when its content is no head and reads as key and value. -/
theorem sets_iff {line : List Char} {key value : String} :
    Sets line key value ↔
      sectionName? (content line) = none ∧
      keyValue? (content line) = some (key, value) := by
  rw [sectionName?_eq_none_iff, keyValue?_eq_some_iff]
  constructor
  · rintro ⟨left, right, hcore, hhead, hleft, hkey, hvalue⟩
    rw [says_iff] at hcore
    exact ⟨fun inner h => hhead inner (hcore.trans h), left, right, hcore.symm, hleft,
      hkey, hvalue⟩
  · rintro ⟨hhead, left, right, hcore, hleft, hkey, hvalue⟩
    exact ⟨left, right, says_iff.mpr hcore.symm, fun inner h =>
      hhead inner (hcore.trans h), hleft, hkey, hvalue⟩

/-! ## Sections and entries -/

/-- The last head among the lines is that of the section `codegen`. -/
def InCodegen (before : List (List Char)) : Prop :=
  ∃ earlier head between, before = earlier ++ head :: between ∧ Heads head "codegen" ∧
    ∀ line ∈ between, ∀ name, ¬ Heads line name

/-- The entries of lines: those that set something after the head of the section
`codegen`, in their order and with their numbers. -/
structure IsEntries (lines : List (List Char)) (entries : List ConfigEntry) : Prop where
  ordered : entries.Pairwise (·.line < ·.line)
  mem_iff : ∀ entry, entry ∈ entries ↔
    ∃ before line after, lines = before ++ line :: after ∧ InCodegen before ∧
      Sets line entry.key entry.value ∧ entry.line = before.length + 1

/-- A text has one list of entries. -/
theorem IsEntries.eq {lines : List (List Char)} {entries entries' : List ConfigEntry}
    (h : IsEntries lines entries) (h' : IsEntries lines entries') :
    entries = entries' := by
  have hnodup {list : List ConfigEntry} (hlist : IsEntries lines list) : list.Nodup :=
    hlist.ordered.imp fun hlt heq => absurd (heq ▸ hlt) (Nat.lt_irrefl _)
  refine List.Perm.eq_of_pairwise ?_ h.ordered h'.ordered
    ((List.perm_ext_iff_of_nodup (hnodup h) (hnodup h')).mpr fun entry => ?_)
  · intro a b _ _ hab hba
    exact absurd (Nat.lt_trans hab hba) (Nat.lt_irrefl _)
  · rw [h.mem_iff, h'.mem_iff]

/-- Whether the lines after a line stand in the section `codegen`. -/
def sectionAfter (inSection : Bool) (line : List Char) : Bool :=
  match sectionName? (content line) with
  | some name => name == "codegen"
  | none => inSection

/-- The entry that a line of the section `codegen` is. -/
def entryAt? (number : Nat) (line : List Char) : Option ConfigEntry :=
  match sectionName? (content line) with
  | some _ => none
  | none => (keyValue? (content line)).map fun (key, value) => ⟨number, key, value⟩

theorem entryAt?_eq_some_iff {number : Nat} {line : List Char} {entry : ConfigEntry} :
    entryAt? number line = some entry ↔ Sets line entry.key entry.value ∧
    entry.line = number := by
  rw [sets_iff, entryAt?]
  cases sectionName? (content line) with
  | some name => simp
  | none =>
    cases keyValue? (content line) with
    | none => simp
    | some pair => grind [ConfigEntry]

/-- What one line adds. -/
theorem entriesOf_cons (inSection : Bool) (number : Nat) (line : List Char)
    (rest : List (List Char)) :
    entriesOf inSection number (line :: rest) =
      (if inSection then (entryAt? number line).toList else []) ++
        entriesOf (sectionAfter inSection line) (number + 1) rest := by
  rw [entriesOf, sectionAfter, entryAt?]
  cases sectionName? (content line) with
  | some name => cases inSection <;> rfl
  | none =>
    cases keyValue? (content line) with
    | none => cases inSection <;> rfl
    | some pair => cases inSection <;> rfl

/-- Only what the lines say counts for the entries. -/
theorem entriesOf_congr {lines lines' : List (List Char)}
    (h : lines.map content = lines'.map content) (inSection : Bool) (number : Nat) :
    entriesOf inSection number lines = entriesOf inSection number lines' := by
  induction lines generalizing lines' inSection number with
  | nil => rw [List.map_eq_nil_iff.mp h.symm]
  | cons line lines ih =>
    obtain ⟨line', lines', rfl, hline, hlines⟩ := List.map_eq_cons_iff.mp h.symm
    rw [entriesOf_cons, entriesOf_cons, ih hlines.symm, sectionAfter, sectionAfter,
      entryAt?, entryAt?, hline]

theorem entries_eq (text : String) : entries text = entriesOf false 1 (lines text) :=
  entriesOf_congr (map_content_splitLines text) false 1

/-- Later lines are read in the section the earlier ones end in, and numbered on from
them. -/
theorem entriesOf_append (inSection : Bool) (number : Nat)
    (before after : List (List Char)) :
    entriesOf inSection number (before ++ after) =
      entriesOf inSection number before ++
        entriesOf (before.foldl sectionAfter inSection) (number + before.length)
          after := by
  induction before generalizing inSection number with
  | nil => rfl
  | cons line before ih =>
    rw [List.cons_append, entriesOf_cons, entriesOf_cons, ih, List.append_assoc,
      List.foldl_cons, List.length_cons, Nat.add_assoc, Nat.add_comm 1]

/-- After a head the reading is in its section if that is `codegen`. -/
theorem sectionAfter_of_heads {line : List Char} {name : String} (h : Heads line name)
    (inSection : Bool) : sectionAfter inSection line = (name == "codegen") := by
  rw [sectionAfter, heads_iff.mp h]

/-- Any other line leaves the section as it is. -/
theorem sectionAfter_of_not_heads {line : List Char} (h : ∀ name, ¬ Heads line name)
    (inSection : Bool) : sectionAfter inSection line = inSection := by
  have hnone : sectionName? (content line) = none :=
    Option.eq_none_iff_forall_ne_some.mpr fun name hname => h name (heads_iff.mpr hname)
  rw [sectionAfter, hnone]

theorem Heads.unique {line : List Char} {name name' : String} (h : Heads line name)
    (h' : Heads line name') : name = name' :=
  Option.some.inj ((heads_iff.mp h).symm.trans (heads_iff.mp h'))

theorem concat_eq_append_cons {before earlier between : List (List Char)}
    {line head : List Char} (h : before ++ [line] = earlier ++ head :: between) :
    between = [] ∧ before = earlier ∧ line = head ∨
      ∃ shorter, between = shorter ++ [line] ∧ before = earlier ++ head :: shorter := by
  rcases List.eq_nil_or_concat' between with rfl | ⟨shorter, last, rfl⟩
  · exact .inl ⟨rfl, List.append_singleton_inj.mp h⟩
  · rw [← List.cons_append, ← List.append_assoc] at h
    obtain ⟨rfl, rfl⟩ := List.append_singleton_inj.mp h
    exact .inr ⟨shorter, rfl, rfl⟩

/-- Carrying the section along finds the last head. -/
theorem foldl_sectionAfter_iff (before : List (List Char)) :
    before.foldl sectionAfter false = true ↔ InCodegen before := by
  induction before using List.reverseRecOn with
  | nil => simp [InCodegen]
  | append_singleton before line ih =>
    rw [List.foldl_concat]
    by_cases hhead : ∃ name, Heads line name
    · obtain ⟨name, hname⟩ := hhead
      rw [sectionAfter_of_heads hname, beq_iff_eq]
      constructor
      · rintro rfl
        exact ⟨before, line, [], rfl, hname, by simp⟩
      · rintro ⟨earlier, head, between, hsplit, hcodegen, hbetween⟩
        rcases concat_eq_append_cons hsplit with ⟨-, -, rfl⟩ | ⟨shorter, rfl, -⟩
        · exact hname.unique hcodegen
        · exact absurd hname (hbetween line (by simp) name)
    · have hnone : ∀ name, ¬ Heads line name := not_exists.mp hhead
      rw [sectionAfter_of_not_heads hnone, ih]
      constructor
      · rintro ⟨earlier, head, between, rfl, hcodegen, hbetween⟩
        refine ⟨earlier, head, between ++ [line], by simp, hcodegen, ?_⟩
        simp only [List.mem_append, List.mem_singleton, or_imp, forall_and, forall_eq]
        exact ⟨hbetween, hnone⟩
      · rintro ⟨earlier, head, between, hsplit, hcodegen, hbetween⟩
        rcases concat_eq_append_cons hsplit with ⟨-, -, rfl⟩ | ⟨shorter, rfl, rfl⟩
        · exact absurd hcodegen (hnone _)
        · exact ⟨earlier, head, shorter, rfl, hcodegen,
            fun l hl => hbetween l (by simp [hl])⟩

/-- The entries are the settings that stand in the section, each with the number of its
line. -/
theorem mem_entriesOf_iff {inSection : Bool} {number : Nat} {lines : List (List Char)}
    {entry : ConfigEntry} :
    entry ∈ entriesOf inSection number lines ↔
      ∃ before line after, lines = before ++ line :: after ∧
        before.foldl sectionAfter inSection = true ∧ Sets line entry.key entry.value ∧
        entry.line = number + before.length := by
  induction lines generalizing inSection number with
  | nil => simp [entriesOf]
  | cons line lines ih =>
    have hfirst : entry ∈ (if inSection then (entryAt? number line).toList else []) ↔
        inSection = true ∧ Sets line entry.key entry.value ∧ entry.line = number := by
      cases inSection <;> simp [Option.mem_toList, entryAt?_eq_some_iff]
    rw [entriesOf_cons, List.mem_append, hfirst, ih]
    constructor
    · rintro (⟨hsection, hsets, hline⟩ | ⟨before, line', after, rfl, hsection,
        hsets, hline⟩)
      · exact ⟨[], line, lines, rfl, hsection, hsets, hline⟩
      · refine ⟨line :: before, line', after, rfl, hsection, hsets, ?_⟩
        rw [hline, List.length_cons]
        omega
    · rintro ⟨before, line', after, hsplit, hsection, hsets, hline⟩
      cases before with
      | nil =>
        obtain ⟨rfl, rfl⟩ := List.cons.inj hsplit
        exact .inl ⟨hsection, hsets, hline⟩
      | cons first before =>
        obtain ⟨rfl, rfl⟩ := List.cons.inj hsplit
        refine .inr ⟨before, line', after, rfl, hsection, hsets, ?_⟩
        rw [hline, List.length_cons]
        omega

/-- The entries come in the order of their lines. -/
theorem pairwise_entriesOf (inSection : Bool) (number : Nat) (lines : List (List Char)) :
    (entriesOf inSection number lines).Pairwise (·.line < ·.line) := by
  induction lines generalizing inSection number with
  | nil => exact .nil
  | cons line lines ih =>
    rw [entriesOf_cons, List.pairwise_append]
    refine ⟨?_, ih _ _, fun first hfirst later hlater => ?_⟩
    · split_ifs
      · cases entryAt? number line <;> simp
      · exact .nil
    · obtain ⟨before, -, -, -, -, -, hline⟩ := mem_entriesOf_iff.mp hlater
      have hnumber : first.line = number := by
        split_ifs at hfirst
        · exact (entryAt?_eq_some_iff.mp (Option.mem_toList.mp hfirst)).2
        · exact absurd hfirst List.not_mem_nil
      omega

/-- The reader finds the entries. -/
theorem isEntries_entries (text : String) : IsEntries (lines text) (entries text) := by
  rw [entries_eq]
  refine ⟨pairwise_entriesOf _ _ _, fun entry => ?_⟩
  simp only [mem_entriesOf_iff, foldl_sectionAfter_iff, Nat.add_comm 1]

end Config

end RealMode
