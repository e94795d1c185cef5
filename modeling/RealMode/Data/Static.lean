import RealMode.Program.Node
import Std.Data.TreeSet

/-!
# Static data of a program

The names a program uses and the string literals in it: what its data segment has to
declare. `StaticData.collect` goes through a tree with a list of nodes still to be
visited, so that a deep tree needs no deep recursion.
-/

namespace RealMode

/-- The names and the string literals of a program. -/
structure StaticData where
  identifiers : Std.TreeSet String := ∅
  literals : Std.TreeSet String := ∅

namespace StaticData

/-- No data. -/
def empty : StaticData :=
  ⟨∅, ∅⟩

/-- Adds what a node itself uses, its subtrees aside. -/
def visit (data : StaticData) : Node → StaticData
  | .identifier name => { data with identifiers := data.identifiers.insert name }
  | .assignment target _ => { data with identifiers := data.identifiers.insert target }
  | .string text => { data with literals := data.literals.insert text }
  | _ => data

/-- Adds what the pending trees use. -/
def collectFrom (data : StaticData) (pending : List Node) : StaticData :=
  match pending with
  | [] => data
  | node :: rest => collectFrom (data.visit node) (node.children ++ rest)
termination_by Node.total Node.size pending
decreasing_by rw [Node.total_append, Node.total, node.size_eq_total_children]; omega

/-- The names and the string literals of a tree. -/
def collect (tree : Node) : StaticData :=
  collectFrom empty [tree]

end StaticData

end RealMode
