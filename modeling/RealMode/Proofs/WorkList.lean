import RealMode.Proofs.StaticData

/-!
# The work list

`StaticData.collect` goes through a tree with a list of trees that are still to be
visited. It takes the first of them and puts its direct subtrees in front of the others.
Which tree is taken and where its subtrees are put makes no difference to what is found.

- `StaticData.addTree` collects by plain recursion, slot by slot. The work list yields the
  same (`collectFrom_eq_foldl_addTree`).
- `Search.Step` visits any one of the pending trees, and `Search.Run` counts the visits. A
  visit takes one node off the pending trees (`Step.total_eq`), and what has been found
  and what the pending trees contribute stays the same together (`Step.mem_iff`).
- `StaticData.collect_in_any_order` puts them together.
-/

namespace RealMode

namespace Node

/-- The names of a tree are those of its identifiers and of its assignment targets. -/
theorem mem_names_iff {tree : Node} {x : String} :
    x ∈ tree.names ↔
      .identifier x ∈ tree.subtrees ∨ ∃ value, .assignment x value ∈ tree.subtrees := by
  rw [names, List.mem_filterMap]
  constructor
  · rintro ⟨node, hnode, hname⟩
    cases node with
    | identifier name =>
      obtain rfl := Option.some.inj hname
      exact .inl hnode
    | assignment target value =>
      obtain rfl := Option.some.inj hname
      exact .inr ⟨value, hnode⟩
    | _ => simp [name?] at hname
  · rintro (hnode | ⟨value, hnode⟩)
    · exact ⟨_, hnode, rfl⟩
    · exact ⟨_, hnode, rfl⟩

theorem mem_literals_iff {tree : Node} {x : String} :
    x ∈ tree.literals ↔ .string x ∈ tree.subtrees := by
  rw [literals, List.mem_filterMap]
  constructor
  · rintro ⟨node, hnode, htext⟩
    cases node with
    | string text =>
      obtain rfl := Option.some.inj htext
      exact hnode
    | _ => simp [literal?] at htext
  · intro hnode
    exact ⟨_, hnode, rfl⟩

end Node

namespace StaticData

/-! ## Plain recursion -/

/-- Adds what a tree uses, in each of its slots. -/
def addTree (data : StaticData) : Node → StaticData
  | .identifier name => { data with identifiers := data.identifiers.insert name }
  | .string text => { data with literals := data.literals.insert text }
  | .number _ | .boolean _ | .unknown => data
  | .operator _ lhs rhs => (data.addTree lhs).addTree rhs
  | .assignment target value =>
    addTree { data with identifiers := data.identifiers.insert target } value
  | .last first => data.addTree first
  | .chain first next => (data.addTree first).addTree next
  | .ifThen cond body => (data.addTree cond).addTree body
  | .ifElse _ cond body alternative =>
    ((data.addTree cond).addTree body).addTree alternative
  | .whileLoop cond body => (data.addTree cond).addTree body
  | .forLoop init cond step body =>
    (((data.addTree init).addTree cond).addTree step).addTree body

/-- A tree is its first node and then its direct subtrees. -/
theorem addTree_eq_foldl (data : StaticData) (tree : Node) :
    data.addTree tree = tree.children.foldl addTree (data.visit tree) := by
  cases tree <;> rfl

/-- Since the subtrees of a node go in front of what is pending, the work list goes
through the trees in the order of the recursion. -/
theorem collectFrom_eq_foldl_addTree (data : StaticData) (pending : List Node) :
    collectFrom data pending = pending.foldl addTree data := by
  induction data, pending using collectFrom.induct with
  | case1 data => rw [collectFrom, List.foldl_nil]
  | case2 data node rest ih =>
    rw [collectFrom, ih, List.foldl_append, ← addTree_eq_foldl, List.foldl_cons]

/-- The same names and the same literals, as sets. -/
structure SameSets (data data' : StaticData) : Prop where
  identifiers : ∀ x, x ∈ data'.identifiers ↔ x ∈ data.identifiers
  literals : ∀ x, x ∈ data'.literals ↔ x ∈ data.literals

end StaticData

/-! ## Searches -/

theorem Node.total_perm {f : Node → Nat} {trees trees' : List Node}
    (h : trees.Perm trees') :
    total f trees = total f trees' := by
  induction h with
  | nil => rfl
  | cons tree _ ih => rw [total, total, ih]
  | swap tree tree' rest =>
    simp only [total]
    omega
  | trans _ _ ih₁ ih₂ => exact ih₁.trans ih₂

/-- A search through trees: what has been found, and the trees that are still to be
visited. -/
structure Search where
  found : StaticData
  pending : List Node

namespace Search

/-- The search that begins with a tree. -/
def start (tree : Node) : Search :=
  ⟨.empty, [tree]⟩

/-- One of the pending trees is visited, whichever it is, and its direct subtrees are put
among the others, wherever it may be. -/
inductive Step : Search → Search → Prop
  | visit {found : StaticData} {pending pending' rest : List Node} {node : Node}
      (htaken : pending.Perm (node :: rest))
      (hput : pending'.Perm (node.children ++ rest)) :
      Step ⟨found, pending⟩ ⟨found.visit node, pending'⟩

/-- `Run k s s'`: the search goes from `s` to `s'` in `k` visits. -/
inductive Run : Nat → Search → Search → Prop
  | refl (s : Search) : Run 0 s s
  | step {k : Nat} {s s₁ s' : Search} : Step s s₁ → Run k s₁ s' → Run (k + 1) s s'

variable {s s' : Search}

/-- A search goes on as long as trees are pending. -/
theorem exists_step (h : s.pending ≠ []) : ∃ s', Step s s' := by
  obtain ⟨found, pending⟩ := s
  obtain ⟨node, rest, rfl⟩ := List.exists_cons_of_ne_nil h
  exact ⟨_, .visit (.refl _) (.refl _)⟩

/-- Every visit leaves one node less. -/
theorem Step.total_eq (h : Step s s') :
    Node.total Node.size s.pending = Node.total Node.size s'.pending + 1 := by
  obtain ⟨htaken, hput⟩ := h
  rw [Node.total_perm htaken, Node.total_perm hput, Node.total_append, Node.total,
    Node.size_eq_total_children]
  omega

/-- What is found or still to be found, of either set, is the same before and after a
visit. -/
theorem Step.mem_iff {view : StaticData → Std.TreeSet String}
    {part : Node → Option String}
    (hvisit : ∀ data node x, x ∈ view (data.visit node) ↔ x ∈ view data ∨
    part node = some x)
    (h : Step s s') (x : String) :
    (x ∈ view s'.found ∨ ∃ tree ∈ s'.pending, x ∈ tree.subtrees.filterMap part) ↔
      x ∈ view s.found ∨ ∃ tree ∈ s.pending, x ∈ tree.subtrees.filterMap part := by
  obtain @⟨found, pending, pending', rest, node, htaken, hput⟩ := h
  have hpending : (∃ tree ∈ pending, x ∈ tree.subtrees.filterMap part) ↔
      (part node = some x ∨ ∃ child ∈ node.children, x ∈ child.subtrees.filterMap part) ∨
        ∃ tree ∈ rest, x ∈ tree.subtrees.filterMap part := by
    rw [← Node.mem_filterMap_subtrees]
    simp [htaken.mem_iff]
  have hpending' : (∃ tree ∈ pending', x ∈ tree.subtrees.filterMap part) ↔
      (∃ child ∈ node.children, x ∈ child.subtrees.filterMap part) ∨
        ∃ tree ∈ rest, x ∈ tree.subtrees.filterMap part := by
    simp only [hput.mem_iff, List.mem_append]
    grind
  rw [hvisit, hpending, hpending', or_assoc, or_assoc]

/-- The visits of a run and the nodes that are still pending are always the same
number. -/
theorem Run.total_eq {k : Nat} (h : Run k s s') :
    Node.total Node.size s.pending = Node.total Node.size s'.pending + k := by
  induction h with
  | refl s => rfl
  | step hstep _ ih =>
    rw [hstep.total_eq, ih, Nat.add_assoc]

theorem Run.mem_iff {view : StaticData → Std.TreeSet String} {part : Node → Option String}
    (hvisit : ∀ data node x, x ∈ view (data.visit node) ↔ x ∈ view data ∨
    part node = some x)
    {k : Nat} (h : Run k s s') (x : String) :
    (x ∈ view s'.found ∨ ∃ tree ∈ s'.pending, x ∈ tree.subtrees.filterMap part) ↔
      x ∈ view s.found ∨ ∃ tree ∈ s.pending, x ∈ tree.subtrees.filterMap part := by
  induction h with
  | refl s => rfl
  | step hstep _ ih => exact ih.trans (hstep.mem_iff hvisit x)

/-- No nodes are left exactly when no trees are. -/
theorem total_eq_zero_iff : Node.total Node.size s.pending = 0 ↔ s.pending = [] := by
  cases s.pending with
  | nil => exact iff_of_true rfl rfl
  | cons tree rest =>
    refine iff_of_false (fun h => ?_) (List.cons_ne_nil tree rest)
    have hsize := tree.one_le_size
    rw [Node.total] at h
    omega

/-- A search that has ended has found the names of the tree, and no others; likewise the
string literals. -/
theorem Run.mem_found {k : Nat} {tree : Node} (h : Run k (start tree) s)
    (hend : s.pending = []) (x : String) :
    (x ∈ s.found.identifiers ↔ x ∈ tree.names) ∧
    (x ∈ s.found.literals ↔ x ∈ tree.literals) := by
  have hnames := h.mem_iff StaticData.mem_identifiers_visit x
  have hliterals := h.mem_iff StaticData.mem_literals_visit x
  rw [hend] at hnames hliterals
  constructor
  · simpa [start, StaticData.empty, Node.names] using hnames
  · simpa [start, StaticData.empty, Node.literals] using hliterals

/-- The work list is one way to search. -/
theorem run_collectFrom (data : StaticData) (pending : List Node) :
    Run (Node.total Node.size pending) ⟨data, pending⟩ ⟨data.collectFrom pending,
      []⟩ := by
  induction data, pending using StaticData.collectFrom.induct with
  | case1 data =>
    rw [StaticData.collectFrom]
    exact .refl _
  | case2 data node rest ih =>
    have hstep : Step ⟨data, node :: rest⟩ ⟨data.visit node, node.children ++ rest⟩ :=
      .visit (.refl _) (.refl _)
    rw [hstep.total_eq, StaticData.collectFrom]
    exact .step hstep ih

end Search

namespace StaticData

/-- **The work list finds what the recursion finds, in any order.** What is collected from
a tree is what plain recursion collects: the names of its identifiers and of its
assignment targets, and its string literals, in all slots and nothing more. The work list
makes one visit for each node. Every other search, whichever pending tree it takes next,
goes on until nothing is pending, which is the case after as many visits as the tree has
nodes, and then it has found the same sets. -/
theorem collect_in_any_order (tree : Node) :
    collect tree = empty.addTree tree ∧
    (∀ x, x ∈ (collect tree).identifiers ↔
      .identifier x ∈ tree.subtrees ∨ ∃ value, .assignment x value ∈ tree.subtrees) ∧
    (∀ x, x ∈ (collect tree).literals ↔ .string x ∈ tree.subtrees) ∧
    Search.Run tree.size (.start tree) ⟨collect tree, []⟩ ∧
    ∀ (k : Nat) (s : Search), Search.Run k (.start tree) s →
      k ≤ tree.size ∧ (k = tree.size ↔ s.pending = []) ∧
      (s.pending ≠ [] → ∃ s', Search.Step s s') ∧
      (s.pending = [] → (collect tree).SameSets s.found) := by
  have htotal : Node.total Node.size (Search.start tree).pending = tree.size :=
    Nat.add_zero _
  refine ⟨collectFrom_eq_foldl_addTree empty [tree], ?_, ?_, ?_, ?_⟩
  · intro x
    rw [mem_identifiers_collect, Node.mem_names_iff]
  · intro x
    rw [mem_literals_collect, Node.mem_literals_iff]
  · rw [← htotal]
    exact Search.run_collectFrom empty [tree]
  · intro k s hrun
    have hcount := hrun.total_eq
    rw [htotal] at hcount
    refine ⟨by omega, ?_, Search.exists_step, fun hend => ⟨fun x => ?_, fun x => ?_⟩⟩
    · rw [← Search.total_eq_zero_iff]
      omega
    · rw [(hrun.mem_found hend x).1, mem_identifiers_collect]
    · rw [(hrun.mem_found hend x).2, mem_literals_collect]

/-- A search that takes the right operand before the left one, which the work list does
not do. -/
theorem collect_in_any_order_operands :
    let sum : Node := .operator (.arith .add) (.string "a") (.identifier "y")
    let tree : Node := .assignment "x" sum
    let found : StaticData :=
      ((((empty.visit tree).visit sum).visit (.identifier "y")).visit (.string "a"))
    Search.Run 4 (.start tree) ⟨found, []⟩ ∧ (collect tree).SameSets found ∧
      found.identifiers.toList = ["x", "y"] ∧ found.literals.toList = ["a"] := by
  intro sum tree found
  have htarget : Search.Step (.start tree) ⟨empty.visit tree, [sum]⟩ :=
    .visit (.refl _) (.refl _)
  have hsum : Search.Step ⟨empty.visit tree, [sum]⟩
      ⟨(empty.visit tree).visit sum, [.string "a", .identifier "y"]⟩ :=
    .visit (.refl _) (.refl _)
  have hright : Search.Step ⟨(empty.visit tree).visit sum, [.string "a", .identifier "y"]⟩
      ⟨((empty.visit tree).visit sum).visit (.identifier "y"), [.string "a"]⟩ :=
    .visit (.swap _ _ []) (.refl _)
  have hleft :
      Search.Step ⟨((empty.visit tree).visit sum).visit (.identifier "y"), [.string "a"]⟩
        ⟨found, []⟩ :=
    .visit (.refl _) (.refl _)
  have hrun : Search.Run 4 (.start tree) ⟨found, []⟩ :=
    .step htarget (.step hsum (.step hright (.step hleft (.refl _))))
  obtain ⟨-, -, -, -, hsearch⟩ := collect_in_any_order tree
  obtain ⟨-, -, -, hsame⟩ := hsearch 4 _ hrun
  exact ⟨hrun, hsame rfl, by decide, by decide⟩

end StaticData

end RealMode
