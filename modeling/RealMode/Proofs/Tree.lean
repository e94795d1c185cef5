import RealMode.Program.Node

/-!
# The nodes of a tree

`Node.subtrees` lists every node of a tree with all that hangs below it, a node before its
subtrees and these in the order in which they are written. What is said of "every literal"
or "every conditional" of a program is said of the members of this list.
-/

namespace RealMode.Node

/-- Every node of a tree, the tree itself first. -/
def subtrees : Node → List Node
  | .number text => [.number text]
  | .string text => [.string text]
  | .boolean value => [.boolean value]
  | .identifier name => [.identifier name]
  | .operator op lhs rhs => .operator op lhs rhs :: (lhs.subtrees ++ rhs.subtrees)
  | .assignment target value => .assignment target value :: value.subtrees
  | .last first => .last first :: first.subtrees
  | .chain first next => .chain first next :: (first.subtrees ++ next.subtrees)
  | .ifThen cond body => .ifThen cond body :: (cond.subtrees ++ body.subtrees)
  | .ifElse branch cond body alternative =>
    .ifElse branch cond body alternative ::
      (cond.subtrees ++ body.subtrees ++ alternative.subtrees)
  | .whileLoop cond body => .whileLoop cond body :: (cond.subtrees ++ body.subtrees)
  | .forLoop init cond step body =>
    .forLoop init cond step body ::
      (init.subtrees ++ cond.subtrees ++ step.subtrees ++ body.subtrees)
  | .unknown => [.unknown]

/-- The comparison that a node is, if it is one: the flags it leaves have to be turned
into a word before they can be used as a value. -/
def comparison? : Node → Option Comparison
  | .operator op _ _ => op.comparison?
  | _ => none

/-- The subtrees whose value a node uses as a word. -/
def operands : Node → List Node
  | .operator _ lhs rhs => [lhs, rhs]
  | .assignment _ value => [value]
  | _ => []

/-- A value is a literal text, or has to be computed. Assignments tell the two apart. -/
theorem eq_string_or_ne (node : Node) :
    (∃ text, node = .string text) ∨ ∀ text, node ≠ .string text := by
  cases node with
  | string text => exact .inl ⟨text, rfl⟩
  | _ => exact .inr fun text h => by cases h

/-- A tree is the first of its nodes. -/
theorem subtrees_eq_cons (tree : Node) :
    tree.subtrees = tree :: tree.children.flatMap subtrees := by
  cases tree <;> simp [subtrees, children]

theorem mem_subtrees_self (tree : Node) : tree ∈ tree.subtrees := by
  rw [subtrees_eq_cons]
  exact List.mem_cons_self

/-- The direct subtrees of a node of a tree are nodes of the tree. -/
theorem mem_subtrees_of_mem_children {tree node child : Node}
    (hnode : node ∈ tree.subtrees) (hchild : child ∈ node.children) :
    child ∈ tree.subtrees := by
  induction tree with
  | number | string | boolean | identifier | unknown =>
    obtain rfl := List.mem_singleton.mp hnode
    exact nomatch hchild
  | _ =>
    rw [subtrees_eq_cons] at hnode ⊢
    rcases List.mem_cons.mp hnode with rfl | hbelow
    · exact .tail _ (List.mem_flatMap.mpr ⟨child, hchild, child.mem_subtrees_self⟩)
    · refine List.mem_cons_of_mem _ ?_
      simp only [children, List.flatMap_cons, List.flatMap_nil,
        List.mem_append] at hbelow ⊢
      grind

end RealMode.Node
