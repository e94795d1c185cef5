import Mathlib.Data.List.Nodup
import RealMode.Proofs.StaticData
import Std.Data.String.ToNat

/-!
# Labels of data items are unique

Labels are handed out one after the other, each with a look at the set of those that are
taken. Two facts carry everything.

- `fresh_not_mem`: what `fresh` chooses is not taken. The search gives up after as many
  variants as there are taken labels; if all of them were taken, then with the base itself
  there would be more labels in the set than its size.
- `Holds taken labels`: every label of the table is taken, and no two keys have the same.
  A claim keeps this (`Holds.insert`), and so does a list of claims (`Holds.claimAll`).

The text of a label is the base that was asked for, or a variant of it (`Variant`). So the
labels of literals consist of the characters that `stringBase` leaves over, underscores
and digits.
-/

namespace RealMode.DataLabels

variable {taken : Std.TreeSet String} {labels : Std.TreeMap String String}
  {base label : String}

/-! ## Variants of a base -/

theorem suffixed_injective {i j : Nat} (h : suffixed base i = suffixed base j) :
    i = j := by
  have hdigits : toString i = toString j := (String.append_right_inj _).mp h
  exact Nat.repr_injective hdigits

theorem suffixed_ne_base (base : String) (k : Nat) : suffixed base k ≠ base := by
  intro h
  have hlength := congrArg (List.length ∘ String.toList) h
  simp [suffixed] at hlength

/-- The label is the base or one of its variants. -/
inductive Variant (base : String) : String → Prop
  | base : Variant base base
  | suffixed (k : Nat) : Variant base (suffixed base k)

/-- A label begins with the base that was asked for. -/
theorem Variant.base_isPrefix_label (h : Variant base label) :
    base.toList <+: label.toList := by
  cases h with
  | base => exact List.prefix_rfl
  | suffixed k =>
    rw [DataLabels.suffixed, String.append_assoc, String.toList_append]
    exact List.prefix_append _ _

/-! ## The search for a free variant -/

/-- The search passes over taken variants only, and ends at a free one or after all its
rounds. -/
theorem searchSuffix_spec (taken : Std.TreeSet String) (base : String) (rounds : Nat) :
    ∀ k, (∀ i, k ≤ i → i < searchSuffix taken base k rounds → suffixed base i ∈ taken) ∧
      (suffixed base (searchSuffix taken base k rounds) ∉ taken ∨
        searchSuffix taken base k rounds = k + rounds) := by
  induction rounds with
  | zero =>
    intro k
    refine ⟨fun i hle hlt => absurd hlt (Nat.not_lt.mpr hle), .inr rfl⟩
  | succ rounds ih =>
    intro k
    by_cases hk : suffixed base k ∈ taken
    · obtain ⟨hpassed, hend⟩ := ih (k + 1)
      rw [searchSuffix, if_pos (Std.TreeSet.contains_iff_mem.mpr hk)]
      refine ⟨fun i hle hlt => ?_, hend.imp_right fun h => by omega⟩
      rcases Nat.eq_or_lt_of_le hle with rfl | hlt'
      · exact hk
      · exact hpassed i hlt' hlt
    · rw [searchSuffix, if_neg fun h => hk (Std.TreeSet.contains_iff_mem.mp h)]
      exact ⟨fun i hle hlt => absurd hlt (Nat.not_lt.mpr hle), .inl hk⟩

/-- A set does not hold a base together with as many variants of it as the set has
elements. -/
theorem exists_variant_not_mem (hbase : base ∈ taken) :
    ∃ i, 2 ≤ i ∧ i < 2 + taken.size ∧ suffixed base i ∉ taken := by
  by_contra hall
  have hmem : ∀ i, 2 ≤ i → i < 2 + taken.size → suffixed base i ∈ taken := by
    intro i hle hlt
    by_contra hnot
    exact hall ⟨i, hle, hlt, hnot⟩
  -- One label too many: the base and the variants are all different.
  have hnodup : (base :: (List.range' 2 taken.size).map (suffixed base)).Nodup := by
    refine List.nodup_cons.mpr ⟨fun h => ?_, ?_⟩
    · obtain ⟨k, -, hk⟩ := List.mem_map.mp h
      exact suffixed_ne_base base k hk
    · exact List.Nodup.map_on (fun i _ j _ h => suffixed_injective h) List.nodup_range'
  have hsubset : base :: (List.range' 2 taken.size).map (suffixed base) ⊆
      taken.toList := by
    intro x hx
    rw [Std.TreeSet.mem_toList]
    rcases List.mem_cons.mp hx with rfl | hx
    · exact hbase
    · obtain ⟨i, hi, rfl⟩ := List.mem_map.mp hx
      obtain ⟨hle, hlt⟩ := List.mem_range'_1.mp hi
      exact hmem i hle hlt
  have hlength := List.Nodup.length_le_of_subset hnodup hsubset
  rw [List.length_cons, List.length_map, List.length_range',
    Std.TreeSet.length_toList] at hlength
  omega

/-- The label that is chosen is free. -/
theorem fresh_not_mem (taken : Std.TreeSet String) (base : String) :
    fresh taken base ∉ taken := by
  by_cases hbase : base ∈ taken
  · rw [fresh, if_pos (Std.TreeSet.contains_iff_mem.mpr hbase)]
    obtain ⟨hpassed, hend⟩ := searchSuffix_spec taken base taken.size 2
    rcases hend with hfree | hlast
    · exact hfree
    · -- The search ran to its last round, past a free variant.
      obtain ⟨i, hle, hlt, hnot⟩ := exists_variant_not_mem hbase
      exact absurd (hpassed i hle (hlast ▸ hlt)) hnot
  · rwa [fresh, if_neg fun h => hbase (Std.TreeSet.contains_iff_mem.mp h)]

theorem variant_fresh (taken : Std.TreeSet String) (base : String) :
    Variant base (fresh taken base) := by
  unfold fresh
  split
  · exact .suffixed _
  · exact .base

/-! ## Claims -/

/-- Every label of the table is taken, and each belongs to one key. -/
structure Holds (taken : Std.TreeSet String) (labels : Std.TreeMap String String) :
    Prop where
  taken : ∀ {key label : String}, labels[key]? = some label → label ∈ taken
  unique : ∀ {key key' label : String}, labels[key]? = some label →
    labels[key']? = some label →
    key = key'

theorem Holds.empty (taken : Std.TreeSet String) : Holds taken ∅ := by
  refine { taken := fun h => ?_, unique := fun h _ => ?_ } <;> simp at h

theorem mem_claim (taken : Std.TreeSet String) (base x : String) :
    x ∈ (claim taken base).2 ↔ x = fresh taken base ∨ x ∈ taken := by
  simp only [claim, Std.TreeSet.mem_insert, Std.compare_eq_iff_eq]
  rw [eq_comm]

/-- A label that is looked up after an insertion is the new one, or was there before. -/
theorem getElem?_insert_eq_some {key key' new : String}
    (h : (labels.insert key new)[key']? = some label) :
    key = key' ∧ new = label ∨ labels[key']? = some label := by
  rw [Std.TreeMap.getElem?_insert] at h
  split at h
  · rename_i heq
    exact .inl ⟨Std.compare_eq_iff_eq.mp heq, Option.some.inj h⟩
  · exact .inr h

/-- A label that is claimed for a key is that key's alone. -/
theorem Holds.insert (h : Holds taken labels) (key base : String) :
    Holds (claim taken base).2 (labels.insert key (fresh taken base)) := by
  have hnew {key' : String} : labels[key']? ≠ some (fresh taken base) :=
    fun hkey' => fresh_not_mem taken base (h.taken hkey')
  refine { taken := fun h₁ => ?_, unique := fun h₁ h₂ => ?_ }
  · rw [mem_claim]
    rcases getElem?_insert_eq_some h₁ with ⟨-, rfl⟩ | hold
    · exact .inl rfl
    · exact .inr (h.taken hold)
  · rcases getElem?_insert_eq_some h₁ with ⟨rfl, rfl⟩ | hold₁
    · rcases getElem?_insert_eq_some h₂ with ⟨rfl, -⟩ | hold₂
      · rfl
      · exact absurd hold₂ hnew
    · rcases getElem?_insert_eq_some h₂ with ⟨rfl, rfl⟩ | hold₂
      · exact absurd hold₁ hnew
      · exact h.unique hold₁ hold₂

theorem Holds.claimAll {base : String → String} {keys : List String}
    (h : Holds taken labels) :
    Holds (claimAll base keys labels taken).2 (claimAll base keys labels taken).1 := by
  induction keys generalizing labels taken with
  | nil => exact h
  | cons key rest ih => exact ih (h.insert key (base key))

/-- What is taken stays taken. -/
theorem mem_claimAll_of_mem {base : String → String} {keys : List String} {x : String}
    (hx : x ∈ taken) : x ∈ (claimAll base keys labels taken).2 := by
  induction keys generalizing labels taken with
  | nil => exact hx
  | cons key rest ih => exact ih ((mem_claim taken (base key) x).mpr (.inr hx))

/-- A label in the table was there before, or it was free and is a variant of what its key
asked for. -/
theorem getElem?_claimAll {base : String → String} {keys : List String} {key : String}
    (h : (claimAll base keys labels taken).1[key]? = some label) :
    labels[key]? = some label ∨ label ∉ taken ∧ Variant (base key) label := by
  induction keys generalizing labels taken with
  | nil => exact .inl h
  | cons first rest ih =>
    rcases ih h with hinsert | ⟨hfree, hvariant⟩
    · rcases getElem?_insert_eq_some hinsert with ⟨rfl, rfl⟩ | hold
      · exact .inr ⟨fresh_not_mem taken (base first), variant_fresh taken (base first)⟩
      · exact .inl hold
    · exact .inr ⟨fun hmem => hfree ((mem_claim taken _ _).mpr (.inr hmem)), hvariant⟩

/-! ## Characters of labels -/

/-- An ASCII letter, an ASCII digit or the underscore. -/
def IsLabelChar (c : Char) : Prop :=
  c.isAlphanum ∨ c = '_'

theorem isLabelChar_of_labelChar? {c c' : Char} (h : labelChar? c = some c') :
    IsLabelChar c' := by
  unfold labelChar? at h
  split at h
  · cases h
  · split at h
    · rename_i hkeep
      obtain rfl := Option.some.inj h
      simpa [IsLabelChar] using hkeep
    · exact .inr (Option.some.inj h).symm

theorem isLabelChar_stringBase {text : String} :
    ∀ c ∈ (stringBase text).toList, IsLabelChar c := by
  intro c hc
  rw [stringBase, String.toList_append, List.mem_append] at hc
  rcases hc with hstem | hrest
  · have hletter : c = 's' ∨ c = 't' ∨ c = 'r' ∨ c = '_' := by simpa using hstem
    rcases hletter with rfl | rfl | rfl | rfl
    · exact .inl rfl
    · exact .inl rfl
    · exact .inl rfl
    · exact .inr rfl
  · rw [String.toList_ofList] at hrest
    obtain ⟨c', -, hc'⟩ := List.mem_filterMap.mp hrest
    exact isLabelChar_of_labelChar? hc'

/-- A number after a label is made of digits. -/
theorem Variant.isLabelChar (h : Variant base label)
    (hbase : ∀ c ∈ base.toList, IsLabelChar c) :
    ∀ c ∈ label.toList, IsLabelChar c := by
  cases h with
  | base => exact hbase
  | suffixed k =>
    intro c hc
    rw [DataLabels.suffixed, String.toList_append, String.toList_append, List.mem_append,
      List.mem_append] at hc
    rcases hc with (hbase' | hmark) | hdigit
    · exact hbase c hbase'
    · exact .inr (List.mem_singleton.mp hmark)
    · refine .inl ?_
      have hmem : c ∈ Nat.toDigits 10 k := by simpa using hdigit
      have hdigit := Nat.isDigit_of_mem_toDigits (by decide) (by decide) hmem
      simp [Char.isAlphanum, hdigit]

/-! ## The labels of a program -/

section Assign

variable {identifiers literals : Std.TreeSet String}

/-- What is taken once the line break has its label. -/
def takenByLineBreak (identifiers : Std.TreeSet String) : Std.TreeSet String :=
  (claim identifiers "new_line").2

/-- What is taken once the messages have their labels, too. -/
def takenByMessages (identifiers : Std.TreeSet String) : Std.TreeSet String :=
  (claimAll messageBase identifiers.toList ∅ (takenByLineBreak identifiers)).2

theorem newLine_mem_takenByLineBreak :
    (assign identifiers literals).newLine ∈ takenByLineBreak identifiers :=
  (mem_claim identifiers _ _).mpr (.inl rfl)

theorem mem_takenByLineBreak {x : String} (hx : x ∈ identifiers) :
    x ∈ takenByLineBreak identifiers :=
  (mem_claim identifiers _ _).mpr (.inr hx)

theorem mem_takenByMessages {x : String} (hx : x ∈ takenByLineBreak identifiers) :
    x ∈ takenByMessages identifiers :=
  mem_claimAll_of_mem hx

theorem holds_messages :
    Holds (takenByMessages identifiers) (assign identifiers literals).messages :=
  (Holds.empty (takenByLineBreak identifiers)).claimAll

/-- The label of a message is neither a name nor that of the line break. -/
theorem message?_assign {name : String}
    (h : (assign identifiers literals).message? name = some label) :
    label ∉ takenByLineBreak identifiers ∧ Variant (messageBase name) label := by
  rcases getElem?_claimAll h with hempty | hnew
  · simp at hempty
  · exact hnew

/-- The label of a literal is none of the labels before it. -/
theorem string?_assign {text : String}
    (h : (assign identifiers literals).string? text = some label) :
    label ∉ takenByMessages identifiers ∧ Variant (stringBase text) label := by
  rcases getElem?_claimAll h with hempty | hnew
  · simp at hempty
  · exact hnew

theorem holds_strings :
    Holds (claimAll stringBase literals.toList ∅ (takenByMessages identifiers)).2
      (assign identifiers literals).strings :=
  (Holds.empty (takenByMessages identifiers)).claimAll

/-- No two items have the same label. -/
theorem label?_unique {item item' : DataItem}
    (h : (assign identifiers literals).label? item = some label)
    (h' : (assign identifiers literals).label? item' = some label) : item = item' := by
  -- Line break, messages and literals in this order: each avoids what is taken before it.
  have hbreak_message {name} (hb : (assign identifiers literals).label? .lineBreak =
    some label)
      (hm : (assign identifiers literals).message? name = some label) : False := by
    obtain rfl := Option.some.inj hb
    exact (message?_assign hm).1 newLine_mem_takenByLineBreak
  have hbreak_literal {text} (hb : (assign identifiers literals).label? .lineBreak =
    some label)
      (hl : (assign identifiers literals).string? text = some label) : False := by
    obtain rfl := Option.some.inj hb
    exact (string?_assign hl).1 (mem_takenByMessages newLine_mem_takenByLineBreak)
  have hmessage_literal {name text} (hm : (assign identifiers literals).message? name =
    some label)
      (hl : (assign identifiers literals).string? text = some label) : False :=
    (string?_assign hl).1 (holds_messages.taken hm)
  cases item with
  | message name =>
    cases item' with
    | message name' => exact congrArg DataItem.message (holds_messages.unique h h')
    | literal text' => exact (hmessage_literal h h').elim
    | lineBreak => exact (hbreak_message h' h).elim
  | literal text =>
    cases item' with
    | message name' => exact (hmessage_literal h' h).elim
    | literal text' => exact congrArg DataItem.literal (holds_strings.unique h h')
    | lineBreak => exact (hbreak_literal h' h).elim
  | lineBreak =>
    cases item' with
    | message name' => exact (hbreak_message h h').elim
    | literal text' => exact (hbreak_literal h h').elim
    | lineBreak => rfl

/-- No item is labelled like a variable. -/
theorem label?_not_mem {item : DataItem}
    (h : (assign identifiers literals).label? item = some label) :
    label ∉ identifiers := by
  intro hmem
  cases item with
  | message name => exact (message?_assign h).1 (mem_takenByLineBreak hmem)
  | literal text =>
    exact (string?_assign h).1 (mem_takenByMessages (mem_takenByLineBreak hmem))
  | lineBreak =>
    obtain rfl := Option.some.inj h
    exact fresh_not_mem identifiers "new_line" hmem

/-- **Labels of data are unique.** For all names and literals, the messages of the names
and the literals have labels, and nothing else has; no two items have the same label, the
line break included, and none is labelled like a variable. The label of a literal begins
with `str_` and is made of ASCII letters, digits and underscores. -/
theorem assign_distinct (identifiers literals : Std.TreeSet String) :
    (∀ name, ((assign identifiers literals).message? name).isSome ↔ name ∈ identifiers) ∧
    (∀ text, ((assign identifiers literals).string? text).isSome ↔ text ∈ literals) ∧
    (∀ item item' label, (assign identifiers literals).label? item = some label →
      (assign identifiers literals).label? item' = some label → item = item') ∧
    (∀ item label, (assign identifiers literals).label? item = some label →
      label ∉ identifiers) ∧
    (∀ text label, (assign identifiers literals).string? text = some label →
      "str_".toList <+: label.toList ∧ ∀ c ∈ label.toList, IsLabelChar c) := by
  refine ⟨isSome_message?_assign identifiers literals,
    isSome_string?_assign identifiers literals,
    fun _ _ _ => label?_unique, fun _ _ => label?_not_mem, fun text label h => ?_⟩
  obtain ⟨-, hvariant⟩ := string?_assign h
  refine ⟨?_, hvariant.isLabelChar isLabelChar_stringBase⟩
  have hstem : "str_".toList <+: (stringBase text).toList := by
    rw [stringBase, String.toList_append]
    exact List.prefix_append _ _
  exact hstem.trans hvariant.base_isPrefix_label

/-- Two literals that ask for the same label, and a variable that has it already: both
literals have to step aside, to different labels. -/
theorem assign_distinct_collision :
    (assign (.ofList ["str_hi"]) (.ofList ["h i", "hi"])).string? "h i" =
      some "str_hi_2" ∧
    (assign (.ofList ["str_hi"]) (.ofList ["h i", "hi"])).string? "hi" = some "str_hi_3" ∧
    "str_hi_2" ∉ Std.TreeSet.ofList ["str_hi"] ∧
    ∀ item, (assign (.ofList ["str_hi"]) (.ofList ["h i", "hi"])).label? item =
        some "str_hi_3" → item = .literal "hi" := by
  have h₁ : (assign (.ofList ["str_hi"]) (.ofList ["h i", "hi"])).string? "h i" =
      some "str_hi_2" := by decide
  have h₂ : (assign (.ofList ["str_hi"]) (.ofList ["h i", "hi"])).string? "hi" =
      some "str_hi_3" := by decide
  obtain ⟨-, -, hunique, hfree, -⟩ :=
    assign_distinct (.ofList ["str_hi"]) (.ofList ["h i", "hi"])
  exact ⟨h₁, h₂, hfree (.literal "h i") _ h₁, fun item h =>
    hunique item (.literal "hi") _ h h₂⟩

end Assign

end RealMode.DataLabels
