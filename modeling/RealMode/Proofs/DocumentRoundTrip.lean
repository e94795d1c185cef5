import RealMode.Program.Document
import RealMode.Proofs.JsonText

/-!
# Program documents read back

Reading the document of a tree gives the tree back, as long as its JSON form is not nested
more deeply than a document may be; and no document gives a tree that is. So reading a
document and writing the tree that it gives ends with a document that gives the same tree.

- `Node.nesting` counts the nested objects of the JSON form of a tree.
- `partOfJson_toJson`: the JSON form of a tree is read as the tree.
- `nesting_le_of_partOfJson`: what is read from a JSON value is nested no deeper than the
  value, whichever of the two forms of a node it has.
- `Document.gives_read` and `Document.nested_read` are the two facts about texts: what is
  read from the text of a tree, and how deep what is read from any text can be nested.
-/

namespace RealMode

/-! ## Nesting of trees -/

/-- How many objects are nested in the JSON form of a tree. The alternative of a
conditional is an object between the conditional and what is in it. -/
def Node.nesting : Node → Nat
  | .number _ => 1
  | .string _ => 1
  | .boolean _ => 1
  | .identifier _ => 1
  | .operator _ lhs rhs => max lhs.nesting rhs.nesting + 1
  | .assignment _ value => value.nesting + 1
  | .last first => first.nesting + 1
  | .chain first next => max first.nesting next.nesting + 1
  | .ifThen cond body => max cond.nesting body.nesting + 1
  | .ifElse _ cond body alternative =>
    max (max cond.nesting body.nesting) (alternative.nesting + 1) + 1
  | .whileLoop cond body => max cond.nesting body.nesting + 1
  | .forLoop init cond step body =>
    max (max init.nesting cond.nesting) (max step.nesting body.nesting) + 1
  | .unknown => 1

/-- A tree nests as deep as the document it is written as. -/
theorem Node.nesting_toJson (tree : Node) : tree.toJson.nesting = tree.nesting := by
  induction tree with
  | number | string | boolean | identifier | unknown => rfl
  | _ =>
    simp only [toJson, tagged, Json.nesting, Json.nestingFields, nesting, *]
    omega

/-! ## Reading the JSON form of a tree -/

/-- No node has a field called `kind`, the name its tag is written under. -/
theorem Tag.lookup_kind_fields (tag : Tag) : tag.fields.lookup "kind" = none := by
  cases tag with
  | branch which => rfl
  | node kind => cases kind <;> rfl

/-- Once the kind is found, fields with other names do not matter for it. -/
theorem Tag.ofFields_of_forall_ne {family : Family} {found : Tag}
    {fields : List (String × Json)} (h : ∀ f ∈ fields, f.1 ≠ "kind") :
    Tag.ofFields family (some found) fields = .ok found := by
  induction fields with
  | nil => rfl
  | cons f fields ih =>
    obtain ⟨hf, hfields⟩ := List.forall_mem_cons.mp h
    rw [Tag.ofFields, if_neg hf, ih hfields]

/-- An object is read by its kind, which comes first, and its parts. -/
theorem partOfJson_tagged {type : PartType} {name : String}
    {fields : List (String × Json)} {part : Part}
    (htype : type = .node ∨ type.isOptional) (tag : Tag) (parts : Parts)
    (htag : Tag.ofJson type.family (.string name) = .ok tag)
    (hkeys : ∀ f ∈ fields, f.1 ≠ "kind")
    (hparts : partsOfFields tag [] fields = .ok parts)
    (hbuild : tag.build parts = .ok part) :
    partOfJson type (Node.tagged name fields) = .ok part := by
  have hofFields : Tag.ofFields type.family none (("kind", .string name) :: fields) =
      .ok tag := by
    rw [Tag.ofFields, if_pos rfl, htag]
    exact Tag.ofFields_of_forall_ne hkeys
  have hofParts : partsOfFields tag [] (("kind", .string name) :: fields) =
      .ok parts := by
    rw [partsOfFields, tag.lookup_kind_fields]
    exact hparts
  cases type with
  | text | flag | operator => simp [PartType.isOptional] at htype
  | node | optionalNode | optionalBranch =>
    rw [Node.tagged, partOfJson, hofFields, ← hbuild]
    · simp only [hofParts]
    all_goals simp

/-- A part that belongs to the kind and was not there before is added to the parts. -/
theorem partsOfFields_cons {tag : Tag} {parts : Parts} {key : String} {value : Json}
    {rest : List (String × Json)} {type : PartType} {part : Part}
    (hkey : tag.fields.lookup key = some type) (hnew : parts.lookup key = none)
    (hpart : partOfJson type value = .ok part) :
    partsOfFields tag parts ((key, value) :: rest) =
      partsOfFields tag ((key, part) :: parts) rest := by
  rw [partsOfFields, hkey]
  simp [hnew, hpart]

/-- An operator is read back from its symbol. -/
theorem partOfJson_symbol (op : BinaryOp) :
    partOfJson .operator (.string op.symbol) = .ok (.operator op) := by
  rw [partOfJson, operatorOfJson, operatorOfSymbol, BinaryOp.ofSymbol?_symbol]

/-- A tree that may be absent is read like one that may not. -/
theorem partOfJson_optionalNode (tree : Node) :
    partOfJson .optionalNode tree.toJson = partOfJson .node tree.toJson := by
  cases tree <;> rfl

/-- The alternative of a conditional is read back if its body is. -/
theorem partOfJson_branch {body : Node} (branch : Branch)
    (hbody : partOfJson .node body.toJson = .ok (.node body)) :
    partOfJson .optionalBranch (Node.tagged branch.tagName [("body", body.toJson)]) =
      .ok (.branch branch body) := by
  refine partOfJson_tagged (.inr rfl) (.branch branch) [("body", .node body)] ?_
    (by simp) ?_ rfl
  · cases branch <;> rfl
  · rw [partsOfFields_cons rfl rfl hbody]
    rfl

/-- The JSON form of a tree is read as the tree. -/
theorem partOfJson_toJson (tree : Node) :
    partOfJson .node tree.toJson = .ok (.node tree) := by
  induction tree with
  | number text =>
    exact partOfJson_tagged (.inl rfl) (.node .number) [("value", .text text)] rfl
      (by simp) rfl rfl
  | string text =>
    exact partOfJson_tagged (.inl rfl) (.node .string) [("value", .text text)] rfl
      (by simp) rfl rfl
  | boolean value =>
    exact partOfJson_tagged (.inl rfl) (.node .boolean) [("value", .flag value)] rfl
      (by simp) rfl
      rfl
  | identifier name =>
    exact partOfJson_tagged (.inl rfl) (.node .identifier) [("name", .text name)] rfl
      (by simp) rfl
      rfl
  | operator op lhs rhs ihl ihr =>
    refine partOfJson_tagged (.inl rfl) (.node .operator)
      [("rhs", .node rhs), ("lhs", .node lhs), ("op", .operator op)] rfl (by simp) ?_ rfl
    rw [partsOfFields_cons rfl rfl (partOfJson_symbol op), partsOfFields_cons rfl rfl ihl,
      partsOfFields_cons rfl rfl ihr]
    rfl
  | assignment target value ih =>
    have htarget : partOfJson .text (.string target) = .ok (.text target) := rfl
    refine partOfJson_tagged (.inl rfl) (.node .assignment)
      [("value", .node value), ("target", .text target)] rfl (by simp) ?_ rfl
    rw [partsOfFields_cons rfl rfl htarget, partsOfFields_cons rfl rfl ih]
    rfl
  | last first ih =>
    have hnext : partOfJson .optionalNode .null = .ok .absent := rfl
    refine partOfJson_tagged (.inl rfl) (.node .sequence)
      [("next", .absent), ("first", .node first)] rfl (by simp) ?_ rfl
    rw [partsOfFields_cons rfl rfl ih, partsOfFields_cons rfl rfl hnext]
    rfl
  | chain first next ih₁ ih₂ =>
    rw [← partOfJson_optionalNode] at ih₂
    refine partOfJson_tagged (.inl rfl) (.node .sequence)
      [("next", .node next), ("first", .node first)] rfl (by simp) ?_ rfl
    rw [partsOfFields_cons rfl rfl ih₁, partsOfFields_cons rfl rfl ih₂]
    rfl
  | ifThen cond body ihc ihb =>
    have halternative : partOfJson .optionalBranch .null = .ok .absent := rfl
    refine partOfJson_tagged (.inl rfl) (.node .conditional)
      [("alternative", .absent), ("body", .node body), ("cond", .node cond)] rfl
        (by simp) ?_ rfl
    rw [partsOfFields_cons rfl rfl ihc, partsOfFields_cons rfl rfl ihb,
      partsOfFields_cons rfl rfl halternative]
    rfl
  | ifElse branch cond body alternative ihc ihb iha =>
    refine partOfJson_tagged (.inl rfl) (.node .conditional)
      [("alternative", .branch branch alternative), ("body", .node body),
        ("cond", .node cond)]
      rfl (by simp) ?_ rfl
    rw [partsOfFields_cons rfl rfl ihc, partsOfFields_cons rfl rfl ihb,
      partsOfFields_cons rfl rfl (partOfJson_branch branch iha)]
    rfl
  | whileLoop cond body ihc ihb =>
    refine partOfJson_tagged (.inl rfl) (.node .whileLoop)
      [("body", .node body), ("cond", .node cond)] rfl (by simp) ?_ rfl
    rw [partsOfFields_cons rfl rfl ihc, partsOfFields_cons rfl rfl ihb]
    rfl
  | forLoop init cond step body ihi ihc ihs ihb =>
    refine partOfJson_tagged (.inl rfl) (.node .forLoop)
      [("body", .node body), ("step", .node step), ("cond", .node cond),
        ("init", .node init)]
      rfl (by simp) ?_ rfl
    rw [partsOfFields_cons rfl rfl ihi, partsOfFields_cons rfl rfl ihc,
      partsOfFields_cons rfl rfl ihs, partsOfFields_cons rfl rfl ihb]
    rfl
  | unknown =>
    exact partOfJson_tagged (.inl rfl) (.node .unknown) [] rfl (by simp) rfl rfl

/-- A tree is read back from the document it is written as. -/
theorem Node.ofJson_toJson (tree : Node) : ofJson tree.toJson = .ok tree := by
  rw [ofJson, partOfJson_toJson]

/-! ## Nesting of what is read -/

/-- How deep a part is nested. The alternative of a conditional is an object around its
body. -/
def Part.nesting : Part → Nat
  | .node value => value.nesting
  | .branch _ body => body.nesting + 1
  | _ => 0

theorem except_bind_eq_ok_iff {ε α β : Type} {x : Except ε α} {f : α → Except ε β}
    {b : β} :
    (x >>= f) = .ok b ↔ ∃ a, x = .ok a ∧ f a = .ok b := by
  cases x with
  | error e => exact ⟨nofun, by rintro ⟨_, ⟨⟩, _⟩⟩
  | ok a =>
    constructor
    · intro h
      exact ⟨a, rfl, h⟩
    · rintro ⟨_, ⟨⟩, h⟩
      exact h

section Parts

variable {parts : Parts} {n : Nat}

/-- A part found by name is one of the parts. -/
theorem Parts.nesting_le_of_lookup {name : String} {part : Part}
    (hparts : ∀ p ∈ parts, p.2.nesting ≤ n) (h : parts.lookup name = some part) :
    part.nesting ≤ n := by
  obtain ⟨before, after, rfl, -⟩ := List.lookup_eq_some_iff.mp h
  exact hparts (name, part) (by simp)

/-- Whatever is built from a tree among the parts is built from one that is nested as they
are. -/
theorem Parts.exists_of_node_bind {α : Type} {name : String}
    {f : Node → Except ShapeFault α} {a : α} (hparts : ∀ p ∈ parts, p.2.nesting ≤ n)
    (h : (parts.node name >>= f) = .ok a) :
    ∃ tree : Node, tree.nesting ≤ n ∧ f tree = .ok a := by
  obtain ⟨tree, htree, h⟩ := except_bind_eq_ok_iff.mp h
  refine ⟨tree, ?_, h⟩
  unfold Parts.node at htree
  split at htree
  · rename_i hlookup
    cases htree
    exact nesting_le_of_lookup hparts hlookup
  · cases htree

/-- A node is one object around its parts. -/
theorem Tag.nesting_build {tag : Tag} {part : Part}
    (hparts : ∀ p ∈ parts, p.2.nesting ≤ n) (h : tag.build parts = .ok part) :
    part.nesting ≤ n + 1 := by
  cases tag with
  | branch which =>
    obtain ⟨body, hbody, h⟩ := Parts.exists_of_node_bind hparts h
    cases h
    exact Nat.succ_le_succ hbody
  | node kind =>
    cases kind with
    | number | string | boolean | identifier =>
      obtain ⟨_, -, h⟩ := except_bind_eq_ok_iff.mp h
      cases h
      exact Nat.le_add_left 1 n
    | operator =>
      obtain ⟨_, -, h⟩ := except_bind_eq_ok_iff.mp h
      obtain ⟨lhs, hlhs, h⟩ := Parts.exists_of_node_bind hparts h
      obtain ⟨rhs, hrhs, h⟩ := Parts.exists_of_node_bind hparts h
      cases h
      exact Nat.succ_le_succ (Nat.max_le.mpr ⟨hlhs, hrhs⟩)
    | assignment =>
      obtain ⟨_, -, h⟩ := except_bind_eq_ok_iff.mp h
      obtain ⟨value, hvalue, h⟩ := Parts.exists_of_node_bind hparts h
      cases h
      exact Nat.succ_le_succ hvalue
    | sequence =>
      obtain ⟨first, hfirst, h⟩ := Parts.exists_of_node_bind hparts h
      split at h
      · rename_i next hlookup
        cases h
        have hnext : next.nesting ≤ n := Parts.nesting_le_of_lookup hparts hlookup
        exact Nat.succ_le_succ (Nat.max_le.mpr ⟨hfirst, hnext⟩)
      · cases h
        exact Nat.succ_le_succ hfirst
    | conditional =>
      obtain ⟨cond, hcond, h⟩ := Parts.exists_of_node_bind hparts h
      obtain ⟨body, hbody, h⟩ := Parts.exists_of_node_bind hparts h
      have hboth := Nat.max_le.mpr ⟨hcond, hbody⟩
      split at h
      · rename_i alternative hlookup
        cases h
        have halternative : alternative.nesting + 1 ≤ n :=
          Parts.nesting_le_of_lookup hparts hlookup
        exact Nat.succ_le_succ (Nat.max_le.mpr ⟨hboth, halternative⟩)
      · cases h
        exact Nat.succ_le_succ hboth
    | whileLoop =>
      obtain ⟨cond, hcond, h⟩ := Parts.exists_of_node_bind hparts h
      obtain ⟨body, hbody, h⟩ := Parts.exists_of_node_bind hparts h
      cases h
      exact Nat.succ_le_succ (Nat.max_le.mpr ⟨hcond, hbody⟩)
    | forLoop =>
      obtain ⟨init, hinit, h⟩ := Parts.exists_of_node_bind hparts h
      obtain ⟨cond, hcond, h⟩ := Parts.exists_of_node_bind hparts h
      obtain ⟨step, hstep, h⟩ := Parts.exists_of_node_bind hparts h
      obtain ⟨body, hbody, h⟩ := Parts.exists_of_node_bind hparts h
      cases h
      have hhead := Nat.max_le.mpr ⟨hinit, hcond⟩
      have hloop := Nat.max_le.mpr ⟨hstep, hbody⟩
      exact Nat.succ_le_succ (Nat.max_le.mpr ⟨hhead, hloop⟩)
    | unknown =>
      cases h
      exact Nat.le_add_left 1 n

end Parts

theorem nesting_of_operatorOfSymbol {symbol : String} {part : Part}
    (h : operatorOfSymbol symbol = .ok part) : part.nesting = 0 := by
  unfold operatorOfSymbol at h
  split at h
  · cases h
    rfl
  · cases h

theorem nesting_of_operatorOfJson {value : Json} {part : Part}
    (h : operatorOfJson value = .ok part) : part.nesting = 0 := by
  unfold operatorOfJson at h
  split at h
  · exact nesting_of_operatorOfSymbol h
  · obtain ⟨op, hop, h⟩ := except_bind_eq_ok_iff.mp h
    split at h
    · cases h
      exact nesting_of_operatorOfSymbol hop
    · cases h
      exact nesting_of_operatorOfSymbol hop
    · cases h
  · cases h
  · cases h

theorem nesting_of_textOfJson {value : Json} {part : Part}
    (h : textOfJson value = .ok part) : part.nesting = 0 := by
  unfold textOfJson at h
  split at h
  · cases h
    rfl
  · cases h

theorem nesting_of_flagOfJson {value : Json} {part : Part}
    (h : flagOfJson value = .ok part) : part.nesting = 0 := by
  unfold flagOfJson at h
  split at h
  · cases h
    rfl
  · cases h

/-- Where the parts of a node come from: the fields of an object, or the elements of an
array after its kind. -/
inductive PartsFrom (tag : Tag) (parts : Parts) : Json → Prop
  | fields (fields : List (String × Json)) (h : partsOfFields tag [] fields = .ok parts) :
      PartsFrom tag parts (.object fields)
  | elements (first : Json) (elements : List Json)
      (h : partsOfElements tag elements.length tag.fields elements = .ok parts) :
      PartsFrom tag parts (.array (first :: elements))

/-- A part is no tree, or it is built from the parts of a node. -/
theorem partOfJson_cases {type : PartType} {value : Json} {part : Part}
    (h : partOfJson type value = .ok part) :
    part.nesting = 0 ∨
      ∃ tag parts, PartsFrom tag parts value ∧ tag.build parts = .ok part := by
  unfold partOfJson at h
  split at h
  · exact .inl (nesting_of_textOfJson h)
  · exact .inl (nesting_of_flagOfJson h)
  · exact .inl (nesting_of_operatorOfJson h)
  · split at h
    · split at h
      · cases h
        exact .inl rfl
      · cases h
    · split at h
      · cases h
      · split at h
        · cases h
        · rename_i hparts
          exact .inr ⟨_, _, .fields _ hparts, h⟩
    · cases h
    · split at h
      · cases h
      · split at h
        · cases h
        · rename_i hparts
          exact .inr ⟨_, _, .elements _ _ hparts, h⟩
    · cases h

mutual

/-- A part is nested no deeper than the value that it is read from. -/
theorem nesting_le_of_partOfJson (type : PartType) (value : Json) (part : Part)
    (h : partOfJson type value = .ok part) : part.nesting ≤ value.nesting := by
  obtain hzero | ⟨tag, parts, hfrom, hbuild⟩ := partOfJson_cases h
  · omega
  · match value, hfrom with
    | _, .fields fields hparts =>
      have hle :=
        nesting_le_of_partsOfFields tag [] fields parts (Json.nestingFields fields)
        (by simp) (Nat.le_refl _) hparts
      exact Tag.nesting_build hle hbuild
    | _, .elements first elements hparts =>
      have hnesting := Nat.le_max_right first.nesting (Json.nestingElements elements)
      have hle :=
        nesting_le_of_partsOfElements tag elements.length tag.fields elements parts _
        hnesting hparts
      exact Tag.nesting_build hle hbuild

/-- Parts read from the fields of an object nest no deeper than the fields. -/
theorem nesting_le_of_partsOfFields (tag : Tag) (before : Parts)
    (fields : List (String × Json)) (parts : Parts) (n : Nat)
    (hbefore : ∀ p ∈ before, p.2.nesting ≤ n) (hfields : Json.nestingFields fields ≤ n)
    (h : partsOfFields tag before fields = .ok parts) :
    ∀ p ∈ parts, p.2.nesting ≤ n := by
  match fields with
  | [] =>
    cases h
    exact hbefore
  | (key, value) :: rest =>
    obtain ⟨hvalue, hrest⟩ := Nat.max_le.mp hfields
    rw [partsOfFields] at h
    split at h
    · exact nesting_le_of_partsOfFields tag before rest parts n hbefore hrest h
    · rename_i type _
      split at h
      · cases h
      · split at h
        · cases h
        · rename_i part hpart
          have hle := nesting_le_of_partOfJson type value part hpart
          refine nesting_le_of_partsOfFields tag _ rest parts n ?_ hrest h
          exact List.forall_mem_cons.mpr ⟨Nat.le_trans hle hvalue, hbefore⟩

/-- Parts read from the elements of an array nest no deeper than the elements. -/
theorem nesting_le_of_partsOfElements (tag : Tag) (count : Nat)
    (expected : List (String × PartType)) (elements : List Json) (parts : Parts) (n : Nat)
    (helements : Json.nestingElements elements ≤ n)
    (h : partsOfElements tag count expected elements = .ok parts) :
    ∀ p ∈ parts, p.2.nesting ≤ n := by
  match elements, expected with
  | [], expected =>
    rw [partsOfElements] at h
    split at h
    · cases h
      simp
    · cases h
  | value :: rest, [] => cases h
  | value :: rest, (name, type) :: expected =>
    obtain ⟨hvalue, hrest⟩ := Nat.max_le.mp helements
    rw [partsOfElements] at h
    split at h
    · cases h
    · rename_i part hpart
      split at h
      · cases h
      · rename_i more hmore
        cases h
        have hle := nesting_le_of_partOfJson type value part hpart
        have htail :=
          nesting_le_of_partsOfElements tag count expected rest more n hrest hmore
        exact List.forall_mem_cons.mpr ⟨Nat.le_trans hle hvalue, htail⟩

end

/-- A tree nests no deeper than the document it is read from. -/
theorem Node.nesting_le_of_ofJson {value : Json} {tree : Node}
    (h : ofJson value = .ok tree) :
    tree.nesting ≤ value.nesting := by
  unfold ofJson at h
  split at h
  · rename_i hpart
    cases h
    exact nesting_le_of_partOfJson _ _ _ hpart
  · cases h
  · cases h

/-! ## Reading the text of a tree -/

/-- An object that begins with its kind, which no other field is named like, and whose
fields are read back. -/
def Json.Tagged (value : Json) : Prop :=
  ∃ name fields, value = Node.tagged name fields ∧
    ∀ f ∈ fields, f.1 ≠ "kind" ∧ Json.ReadsBack f.2

/-- A tagged document reads back, since its parts do. -/
theorem Json.Tagged.readsBack {value : Json} (h : value.Tagged) : value.ReadsBack := by
  obtain ⟨name, fields, rfl, hfields⟩ := h
  exact .object (readsBack_string name) fun f hf => (hfields f hf).2

/-- What a tree is written as is tagged at every level. -/
theorem Node.tagged_toJson (tree : Node) : tree.toJson.Tagged := by
  induction tree with
  | ifElse branch cond body alternative ihc ihb iha =>
    -- The alternative is an object of its own, around the tree in it.
    have halternative : Json.Tagged
        (tagged branch.tagName [("body", alternative.toJson)]) :=
      ⟨_, _, rfl, by simp [iha.readsBack]⟩
    refine ⟨_, _, rfl, ?_⟩
    simp [ihc.readsBack, ihb.readsBack, halternative.readsBack]
  | _ =>
    refine ⟨_, _, rfl, ?_⟩
    simp [Json.readsBack_null, Json.readsBack_bool, Json.readsBack_string,
      Json.Tagged.readsBack, *]

namespace Document

open Json (Gives Nested ReadsBack FieldReadsBack)

/-- The kind is read back. -/
theorem fieldReadsBack_kind (rounds level : Nat) (name : String) :
    FieldReadsBack .defect (maxNesting - 1) rounds level (readField rounds) [] "kind"
      (.string name) := by
  intro rest hlength
  have hstring :=
    Json.readsBack_string name (maxNesting - 1) rounds (level + 1) rest hlength
  show Gives _ _ _ _ ((readInner rounds _).andThen _)
  exact (hstring.mapReason TreeReason.defect).andThen_of_eq_ok rfl

/-- A field with another name is read back if its value is. -/
theorem fieldReadsBack_of_ne {key : String} {value : Json} (hkey : key ≠ "kind")
    (hvalue : value.ReadsBack) (rounds level : Nat) (acc : List (String × Json)) :
    FieldReadsBack .defect (maxNesting - 1) rounds level (readField rounds) acc key
      value := by
  intro rest hlength
  rw [readField, if_neg hkey]
  show Gives _ _ _ _ (readInner rounds (' ' :: _))
  rw [readInner, Json.readValue_blank]
  exact (hvalue _ rounds (level + 1) rest hlength).mapReason TreeReason.defect

/-- What is read from the text of a tree. -/
theorem gives_read (tree : Node) :
    Gives (.defect .tooDeep) (tree.nesting ≤ maxNesting) tree.toJson []
      (read (Json.write 0 tree.toJson [])) := by
  obtain ⟨name, fields, htree, hfields⟩ := tree.tagged_toJson
  rw [← tree.nesting_toJson, htree]
  have hread :=
    Json.gives_object "kind" (.string name) fields [] _ (fieldReadsBack_kind _ 0 name)
    (fun acc f hf => fieldReadsBack_of_ne (hfields f hf).1 (hfields f hf).2 _ 0 acc)
    (Nat.le_refl _) (Nat.le_refl _)
  have hfits : Json.nestingFields (("kind", .string name) :: fields) ≤ maxNesting - 1 ↔
      (Node.tagged name fields).nesting ≤ maxNesting := by
    rw [Node.tagged, Json.nesting, maxNesting]
    omega
  rw [read, Node.tagged, Json.write_object_cons, Json.skipSpace_cons_of_not_isSpace rfl]
  show Gives _ _ _ _ ((Json.readFields _ _ _ _ _).andThen _)
  exact (hread.andThen_of_eq_ok rfl).of_iff hfits

theorem nested_readInner (rounds : Nat) (cs : List Char) :
    Nested (maxNesting - 1) (readInner rounds cs) :=
  (Json.nested_readValue rounds (maxNesting - 1) cs).mapReason

theorem nested_readKind (rounds : Nat) (cs : List Char) :
    Nested (maxNesting - 1) (readKind rounds cs) := by
  unfold readKind
  dsimp only
  split
  · exact .error _
  · exact .error _
  · refine .andThen fun value rest _ => ?_
    split
    · exact .ok (Nat.zero_le _)
    · exact .error _

/-- A field is read one level down, whether it is the tag or a part. -/
theorem nested_readField (rounds : Nat) (acc : List (String × Json)) (key : String)
    (cs : List Char) :
    Nested (maxNesting - 1) (readField rounds acc key cs) := by
  unfold readField
  split
  · split
    · exact .error _
    · exact .andThen fun _ cs _ => nested_readKind rounds cs
  · exact .andThen fun _ cs _ => nested_readInner rounds cs

theorem nested_readElement (rounds : Nat) (acc : List Json) (cs : List Char) :
    Nested (maxNesting - 1) (readElement rounds acc cs) := by
  unfold readElement
  split
  · exact nested_readKind rounds cs
  · exact nested_readInner rounds cs

/-- Whatever is read from a text is nested no deeper than a document may be. -/
theorem nested_read (cs : List Char) : Nested maxNesting (read cs) := by
  -- Looking for the kind of a value leaves the value as it is.
  have hkind : ∀ {result : Json.Read TreeReason Json}, Nested maxNesting result →
      Nested maxNesting (result.andThen fun value rest =>
        if hasKind value then .ok (value, rest)
        else .error (.here (.fault (.missingField "kind")) rest)) := by
    intro result h
    refine .andThen fun value rest hresult => ?_
    split
    · exact .ok (h value rest hresult)
    · exact .error _
  unfold read
  dsimp only
  split
  · exact hkind (Json.nested_readFields (nested_readField _) _ _ _ nofun)
  · exact hkind (Json.nested_readElements (nested_readElement _) _ _ _ nofun)
  · exact .andThen fun value rest _ => .error _

end Document

namespace Node

theorem toList_render (tree : Node) : tree.render.toList = Json.write 0 tree.toJson [] :=
  String.toList_ofList

/-- A tree that is not nested too deeply is read back from its text. -/
theorem parse_render_of_le {tree : Node} (h : tree.nesting ≤ Document.maxNesting) :
    parse tree.render = .ok tree := by
  have hread := (Document.gives_read tree).eq_ok h
  rw [← toList_render] at hread
  rw [parse, hread]
  simp only [ofJson_toJson]
  rfl

/-- The text of a tree that is nested too deeply is refused for that. -/
theorem parse_render_of_lt {tree : Node} (h : Document.maxNesting < tree.nesting) :
    ∃ position, parse tree.render = .error ⟨.defect .tooDeep, some position⟩ := by
  obtain ⟨stop, hread, hreason⟩ :=
    (Document.gives_read tree).exists_eq_error (Nat.not_le.mpr h)
  rw [← toList_render] at hread
  refine ⟨stop.position tree.render.toList, ?_⟩
  rw [parse, hread, ← hreason]

/-- No tree that is accepted nests deeper than the limit. -/
theorem nesting_le_of_parse {text : String} {tree : Node} (h : parse text = .ok tree) :
    tree.nesting ≤ Document.maxNesting := by
  unfold parse at h
  dsimp only at h
  split at h
  · cases h
  · rename_i value rest hread
    split at h
    · cases h
    · rename_i hvalue
      split at h
      · cases h
        exact Nat.le_trans (nesting_le_of_ofJson hvalue)
          (Document.nested_read _ value rest hread)
      · cases h

/-- **Trees are read back.** The text of a tree is read as the tree, if its JSON form is
nested at most 127 deep, and is refused as an invalid program tree otherwise. Every tree
that is read from a text is nested at most that deep, and so it is read back from its own
text. -/
theorem parse_render (tree : Node) (text : String) :
    tree.toJson.nesting = tree.nesting ∧
    (tree.nesting ≤ 127 → parse tree.render = .ok tree) ∧
    (127 < tree.nesting →
      ∃ e, parse tree.render = .error e ∧ e.reason = .defect .tooDeep ∧
        e.diagnostic.severity = .error ∧ e.diagnostic.message = "invalid program tree") ∧
    (parse text = .ok tree → tree.nesting ≤ 127 ∧ parse tree.render = .ok tree) := by
  refine ⟨tree.nesting_toJson, parse_render_of_le, fun h => ?_, fun h => ?_⟩
  · obtain ⟨position, hparse⟩ := parse_render_of_lt h
    exact ⟨_, hparse, rfl, rfl, rfl⟩
  · have hnesting := nesting_le_of_parse h
    exact ⟨hnesting, parse_render_of_le hnesting⟩

/-- A conditional whose text has characters to be escaped and others, and a sequence that
is nested one level too deep. -/
theorem parse_render_conditional :
    let conditional : Node := ifElse .elif (.identifier "é") (.boolean true)
      (.assignment "x" (.string "a\"\\\n\u0001😀"))
    let deep : Node := Nat.repeat last 127 unknown
    conditional.nesting = 4 ∧ conditional.nesting ≤ 127 ∧
    parse conditional.render = .ok conditional ∧
    deep.nesting = 128 ∧ ∃ e, parse deep.render = .error e ∧
      e.diagnostic.message = "invalid program tree" := by
  intro conditional deep
  have hparse : parse conditional.render = .ok conditional :=
    (parse_render conditional "").2.1 (by decide)
  have hnesting : conditional.nesting ≤ 127 :=
    ((parse_render conditional conditional.render).2.2.2 hparse).1
  have hdeep : deep.nesting = 128 := rfl
  obtain ⟨e, hstop, _, _, hmessage⟩ :=
    (parse_render deep "").2.2.1 (Nat.le_of_eq hdeep.symm)
  exact ⟨rfl, hnesting, hparse, hdeep, e, hstop, hmessage⟩

end Node

end RealMode
