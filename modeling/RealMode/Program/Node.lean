import RealMode.Program.Operator

/-!
# Program trees

A program is a tree of `Node`s. Two constructors stand for a sequence cell and two for a
conditional, so that no field is optional:

- `last s` is a sequence cell with nothing after it, `chain s rest` one that is followed
  by `rest`;
- `ifThen c b` has no alternative, `ifElse k c b a` has the alternative `a` of kind `k`.

Number literals keep the text they were written with; `Literal` gives their value.
-/

namespace RealMode

/-- How the alternative of a conditional is introduced. -/
inductive Branch
  | otherwise
  | elif
deriving DecidableEq, Repr

/-- A program tree. -/
inductive Node
  | number (text : String)
  | string (text : String)
  | boolean (value : Bool)
  | identifier (name : String)
  | operator (op : BinaryOp) (lhs rhs : Node)
  | assignment (target : String) (value : Node)
  | last (first : Node)
  | chain (first next : Node)
  | ifThen (cond body : Node)
  | ifElse (branch : Branch) (cond body alternative : Node)
  | whileLoop (cond body : Node)
  | forLoop (init cond step body : Node)
  | unknown
deriving DecidableEq

/-- What a node is, its contents aside. -/
inductive Kind
  | number
  | string
  | boolean
  | identifier
  | operator
  | assignment
  | sequence
  | conditional
  | whileLoop
  | forLoop
  | unknown
deriving DecidableEq, Repr

/-- The word by which messages name a kind. -/
def Kind.name : Kind → String
  | .number => "number"
  | .string => "string"
  | .boolean => "boolean"
  | .identifier => "identifier"
  | .operator => "operator"
  | .assignment => "assignment"
  | .sequence => "sequence"
  | .conditional => "if"
  | .whileLoop => "while"
  | .forLoop => "for"
  | .unknown => "unknown"

/-- The word by which messages name a branch. -/
def Branch.name : Branch → String
  | .otherwise => "else"
  | .elif => "elif"

namespace Node

/-- The kind of a node. -/
def kind : Node → Kind
  | .number _ => .number
  | .string _ => .string
  | .boolean _ => .boolean
  | .identifier _ => .identifier
  | .operator .. => .operator
  | .assignment .. => .assignment
  | .last _ => .sequence
  | .chain .. => .sequence
  | .ifThen .. => .conditional
  | .ifElse .. => .conditional
  | .whileLoop .. => .whileLoop
  | .forLoop .. => .forLoop
  | .unknown => .unknown

/-- The direct subtrees of a node, in the order in which they are written. -/
def children : Node → List Node
  | .number _ => []
  | .string _ => []
  | .boolean _ => []
  | .identifier _ => []
  | .operator _ lhs rhs => [lhs, rhs]
  | .assignment _ value => [value]
  | .last first => [first]
  | .chain first next => [first, next]
  | .ifThen cond body => [cond, body]
  | .ifElse _ cond body alternative => [cond, body, alternative]
  | .whileLoop cond body => [cond, body]
  | .forLoop init cond step body => [init, cond, step, body]
  | .unknown => []

/-- The number of nodes of a tree. -/
def size : Node → Nat
  | .number _ => 1
  | .string _ => 1
  | .boolean _ => 1
  | .identifier _ => 1
  | .operator _ lhs rhs => lhs.size + rhs.size + 1
  | .assignment _ value => value.size + 1
  | .last first => first.size + 1
  | .chain first next => first.size + next.size + 1
  | .ifThen cond body => cond.size + body.size + 1
  | .ifElse _ cond body alternative => cond.size + body.size + alternative.size + 1
  | .whileLoop cond body => cond.size + body.size + 1
  | .forLoop init cond step body => init.size + cond.size + step.size + body.size + 1
  | .unknown => 1

/-- A quantity of trees, summed up over a list of them. -/
def total (f : Node → Nat) : List Node → Nat
  | [] => 0
  | tree :: rest => f tree + total f rest

/-- The statements as one tree: a chain of sequence cells that ends in a `last` cell. No
statements, no tree. -/
def block : List Node → Option Node
  | [] => none
  | s :: rest => some <| match block rest with
    | some next => .chain s next
    | none => .last s

/-- The alternative of a conditional: how it is introduced and its body. -/
def alternative? : Node → Option (Branch × Node)
  | .ifElse branch _ _ alternative => some (branch, alternative)
  | _ => none

theorem one_le_size (n : Node) : 1 ≤ n.size := by
  cases n <;> simp [size]

theorem total_append (f : Node → Nat) (trees trees' : List Node) :
    total f (trees ++ trees') = total f trees + total f trees' := by
  induction trees with
  | nil => exact (Nat.zero_add _).symm
  | cons tree rest ih => rw [List.cons_append, total, total, ih, Nat.add_assoc]

/-- A tree has one node more than its direct subtrees together. -/
theorem size_eq_total_children (n : Node) : n.size = total size n.children + 1 := by
  cases n <;> simp only [size, children, total] <;> omega

end Node

end RealMode
