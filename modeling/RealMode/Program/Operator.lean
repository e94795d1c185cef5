/-!
# Binary operators

Four arithmetic operators and six comparisons. They are two types, because lowering treats
them apart: arithmetic leaves a word in `AX`, a comparison leaves flags for a jump.
-/

namespace RealMode

/-- Arithmetic on words. -/
inductive Arithmetic
  | add
  | sub
  | mul
  | div
deriving DecidableEq, Repr

/-- Comparison of signed words. -/
inductive Comparison
  | eq
  | ne
  | lt
  | gt
  | le
  | ge
deriving DecidableEq, Repr

/-- An operator between two operands. -/
inductive BinaryOp
  | arith (op : Arithmetic)
  | compare (op : Comparison)
deriving DecidableEq, Repr

namespace BinaryOp

/-- Every operator, in the order in which messages list them. -/
def all : List BinaryOp :=
  [.arith .add, .arith .sub, .arith .mul, .arith .div,
   .compare .eq, .compare .ne, .compare .lt, .compare .gt, .compare .le, .compare .ge]

/-- How an operator is written. -/
def symbol : BinaryOp → String
  | .arith .add => "+"
  | .arith .sub => "-"
  | .arith .mul => "*"
  | .arith .div => "/"
  | .compare .eq => "=="
  | .compare .ne => "!="
  | .compare .lt => "<"
  | .compare .gt => ">"
  | .compare .le => "<="
  | .compare .ge => ">="

/-- The operator that is written as the given text. -/
def ofSymbol? (text : String) : Option BinaryOp :=
  all.find? fun op => op.symbol == text

/-- The comparison, if the operator is one. -/
def comparison? : BinaryOp → Option Comparison
  | .arith _ => none
  | .compare c => some c

/-- Whether the operator compares its operands. -/
def isComparison (op : BinaryOp) : Bool :=
  op.comparison?.isSome

/-- Reading an operator's symbol gives the operator back. -/
theorem ofSymbol?_symbol (op : BinaryOp) : ofSymbol? op.symbol = some op := by
  rcases op with a | c
  · cases a <;> decide
  · cases c <;> decide

end BinaryOp

end RealMode
