import RealMode.Data.Segment
import RealMode.Proofs.Tree

/-!
# What the data segment declares

Two walks over a tree have to agree: `StaticData.collect`, which goes through a list of
pending nodes, and lowering, which asks for the label of each item it refers to. The
common ground is `Node.subtrees`.

- `mem_identifiers_collect`, `mem_literals_collect`: the work list finds the names and the
  literals of all nodes of the tree, and no others.
- `DataItem` is what a label may stand for, apart from a variable: the message of a name,
  a string literal or the line break. `isSome_label?_labels`: every item of the collected
  data has a label.
- `line_mem_segment`: the segment declares an item under the very label that is looked up
  for it.
-/

namespace RealMode

/-! ## Names and literals of a tree -/

namespace Node

/-- The variable that a node itself names. -/
def name? : Node → Option String
  | .identifier name => some name
  | .assignment target _ => some target
  | _ => none

/-- The string literal that a node is. -/
def literal? : Node → Option String
  | .string text => some text
  | _ => none

/-- The names of the variables of a tree. -/
def names (tree : Node) : List String :=
  tree.subtrees.filterMap name?

/-- The string literals of a tree. -/
def literals (tree : Node) : List String :=
  tree.subtrees.filterMap literal?

end Node

/-- What a tree contributes comes from the node itself or from one of its direct
subtrees. -/
theorem Node.mem_filterMap_subtrees {part : Node → Option String} {node : Node}
    {x : String} :
    x ∈ node.subtrees.filterMap part ↔
      part node = some x ∨ ∃ child ∈ node.children,
        x ∈ child.subtrees.filterMap part := by
  rw [node.subtrees_eq_cons]
  simp only [List.mem_filterMap, List.mem_cons, List.mem_flatMap]
  grind

namespace StaticData

theorem mem_identifiers_visit (data : StaticData) (node : Node) (x : String) :
    x ∈ (data.visit node).identifiers ↔ x ∈ data.identifiers ∨ node.name? = some x := by
  cases node with
  | identifier name => simp [visit, Node.name?, or_comm]
  | assignment target value => simp [visit, Node.name?, or_comm]
  | _ => simp [visit, Node.name?]

theorem mem_literals_visit (data : StaticData) (node : Node) (x : String) :
    x ∈ (data.visit node).literals ↔ x ∈ data.literals ∨ node.literal? = some x := by
  cases node with
  | string text => simp [visit, Node.literal?, or_comm]
  | _ => simp [visit, Node.literal?]

/-- The work list, for either set: it adds what the nodes of all pending trees
contribute. -/
theorem mem_collectFrom {view : StaticData → Std.TreeSet String}
    {part : Node → Option String}
    (hvisit : ∀ data node x, x ∈ view (data.visit node) ↔ x ∈ view data ∨
    part node = some x)
    (data : StaticData) (pending : List Node) (x : String) :
    x ∈ view (collectFrom data pending) ↔
      x ∈ view data ∨ ∃ node ∈ pending, x ∈ node.subtrees.filterMap part := by
  induction data, pending using collectFrom.induct with
  | case1 data => simp [collectFrom]
  | case2 data node rest ih =>
    have hpending : (∃ n ∈ node :: rest, x ∈ n.subtrees.filterMap part) ↔
        x ∈ node.subtrees.filterMap part ∨ ∃ n ∈ rest, x ∈ n.subtrees.filterMap part := by
      simp
    -- A node that is taken out leaves its own part behind and its children pending.
    rw [collectFrom, ih, hvisit, hpending, Node.mem_filterMap_subtrees]
    simp only [List.mem_append]
    grind

/-- The names of a program are collected, and nothing else. -/
theorem mem_identifiers_collect (tree : Node) (x : String) :
    x ∈ (collect tree).identifiers ↔ x ∈ tree.names := by
  rw [collect, mem_collectFrom mem_identifiers_visit]
  simp [empty, Node.names]

/-- The string literals of a program are collected, and nothing else. -/
theorem mem_literals_collect (tree : Node) (x : String) :
    x ∈ (collect tree).literals ↔ x ∈ tree.literals := by
  rw [collect, mem_collectFrom mem_literals_visit]
  simp [empty, Node.literals]

end StaticData

/-! ## Items and their labels -/

/-- What the data segment declares besides the variables. -/
inductive DataItem
  | message (name : String)
  | literal (text : String)
  | lineBreak
deriving DecidableEq, Repr

namespace DataItem

/-- The line that declares an item under a label. -/
def line (label : String) : DataItem → Line
  | .message name => .message label name
  | .literal text => .literal label text
  | .lineBreak => .lineBreak label

end DataItem

namespace DataLabels

/-- The label of an item. -/
def label? (labels : DataLabels) : DataItem → Option String
  | .message name => labels.message? name
  | .literal text => labels.string? text
  | .lineBreak => some labels.newLine

/-- Every key gets a label, and labels that are there already stay. -/
theorem mem_claimAll (base : String → String) (keys : List String) :
    ∀ (labels : Std.TreeMap String String) (taken : Std.TreeSet String) (x : String),
      x ∈ (claimAll base keys labels taken).1 ↔ x ∈ labels ∨ x ∈ keys := by
  induction keys with
  | nil =>
    intro labels taken x
    simp [claimAll]
  | cons key rest ih =>
    intro labels taken x
    rw [claimAll, ih]
    simp only [Std.TreeMap.mem_insert, Std.compare_eq_iff_eq, List.mem_cons]
    grind

theorem isSome_message?_assign (identifiers literals : Std.TreeSet String) (x : String) :
    ((assign identifiers literals).message? x).isSome ↔ x ∈ identifiers := by
  simp only [message?, assign]
  rw [Std.TreeMap.isSome_getElem?_iff_mem, mem_claimAll]
  simp

theorem isSome_string?_assign (identifiers literals : Std.TreeSet String) (x : String) :
    ((assign identifiers literals).string? x).isSome ↔ x ∈ literals := by
  simp only [string?, assign]
  rw [Std.TreeMap.isSome_getElem?_iff_mem, mem_claimAll]
  simp

end DataLabels

namespace StaticData

/-- The items of the collected data. -/
def HasItem (data : StaticData) : DataItem → Prop
  | .message name => name ∈ data.identifiers
  | .literal text => text ∈ data.literals
  | .lineBreak => True

/-- Every item of the data has a label, and only those. -/
theorem isSome_label?_labels (data : StaticData) (item : DataItem) :
    (data.labels.label? item).isSome ↔ data.HasItem item := by
  cases item with
  | message name => exact DataLabels.isSome_message?_assign _ _ name
  | literal text => exact DataLabels.isSome_string?_assign _ _ text
  | lineBreak => exact ⟨fun _ => trivial, fun _ => rfl⟩

theorem mem_identifierLines_iff {labels : DataLabels} {name : String} {line : Line} :
    line ∈ identifierLines labels name ↔ line = .word name ∨
      ∃ label, labels.message? name = some label ∧ line = .message label name := by
  unfold identifierLines
  cases labels.message? name with
  | none => simp
  | some label => simp

theorem mem_literalLines_iff {labels : DataLabels} {line : Line} :
    line ∈ literalLines labels ↔
      ∃ literal label, labels.string? literal = some label ∧
      line = .literal label literal := by
  simp [literalLines, DataLabels.string?, eq_comm]

/-- The lines of the segment: its marks, and what has a label. -/
theorem mem_segment_iff {data : StaticData} {labels : DataLabels} {line : Line} :
    line ∈ data.segment labels ↔ line = .segmentStart .data ∨
      (∃ name ∈ data.identifiers, line = .word name ∨
        ∃ label, labels.message? name = some label ∧ line = .message label name) ∨
      (∃ literal label,
        labels.string? literal = some label ∧ line = .literal label literal) ∨
      line = .lineBreak labels.newLine ∨ line = .segmentEnd .data := by
  simp [segment, mem_identifierLines_iff, mem_literalLines_iff]

/-- The segment has a word for each variable. -/
theorem word_mem_segment {data : StaticData} {name : String}
    (h : name ∈ data.identifiers) :
    Line.word name ∈ data.segment data.labels := by
  exact mem_segment_iff.mpr (.inr (.inl ⟨name, h, .inl rfl⟩))

/-- The segment declares an item under the label that is looked up for it. -/
theorem line_mem_segment {data : StaticData} {item : DataItem} {label : String}
    (h : data.labels.label? item = some label) :
    item.line label ∈ data.segment data.labels := by
  have hitem : data.HasItem item := by
    rw [← isSome_label?_labels, h]
    rfl
  rw [mem_segment_iff]
  cases item with
  | message name => exact .inr (.inl ⟨name, hitem, .inr ⟨label, h, rfl⟩⟩)
  | literal text => exact .inr (.inr (.inl ⟨text, label, h, rfl⟩))
  | lineBreak =>
    obtain rfl : data.labels.newLine = label := Option.some.inj h
    exact .inr (.inr (.inr (.inl rfl)))

end StaticData

end RealMode
