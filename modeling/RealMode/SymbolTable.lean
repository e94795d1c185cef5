import RealMode.Warning
import Std.Data.TreeMap

/-!
# Symbol tables

A symbol table records the variables of a program in the order of their names: the kind of
the value that was first assigned, and the integer and the text that were last recorded.
Odd requests leave the entries alone and add a warning to the pending ones, which
`takeWarnings` hands over.
-/

namespace RealMode

/-- What is recorded of a variable. -/
structure Symbol where
  kind : ValueKind
  int : Int := 0
  str : Option String := none
deriving DecidableEq, Repr

/-- What is known of a variable that was never declared. -/
def Symbol.undefined : Symbol :=
  ⟨.undefined, 0, none⟩

/-- The variables by name, and the warnings that nobody has taken yet. -/
structure SymbolTable where
  entries : Std.TreeMap String Symbol := ∅
  pending : List Warning := []

namespace SymbolTable

/-- The table without variables. -/
def empty : SymbolTable :=
  ⟨∅, []⟩

/-- What is recorded of a variable. -/
def get? (table : SymbolTable) (name : String) : Option Symbol :=
  table.entries[name]?

/-- Whether a variable is recorded. -/
def isDeclared (table : SymbolTable) (name : String) : Bool :=
  table.entries.contains name

/-- The number of variables. -/
def size (table : SymbolTable) : Nat :=
  table.entries.size

/-- The variables in the order of their names. -/
def toList (table : SymbolTable) : List (String × Symbol) :=
  table.entries.toList

/-- Adds a warning. -/
def warn (table : SymbolTable) (warning : Warning) : SymbolTable :=
  { table with pending := table.pending ++ [warning] }

/-- Records a new variable. One that is there already keeps its entry. -/
def declare (table : SymbolTable) (name : String) (kind : ValueKind) : SymbolTable :=
  match table.get? name with
  | some symbol => table.warn (.redeclared name symbol.kind)
  | none => { table with entries := table.entries.insert name ⟨kind, 0, none⟩ }

/-- Changes the entry of a variable. -/
def modify (table : SymbolTable) (name : String) (change : Symbol → Symbol) :
    SymbolTable :=
  match table.get? name with
  | some symbol => { table with entries := table.entries.insert name (change symbol) }
  | none => table.warn (.undefinedVariable name)

/-- Records an integer. -/
def updateInt (table : SymbolTable) (name : String) (value : Int) : SymbolTable :=
  table.modify name fun symbol => { symbol with int := value }

/-- Records a text. -/
def updateStr (table : SymbolTable) (name : String) (value : String) : SymbolTable :=
  table.modify name fun symbol => { symbol with str := some value }

/-- Looks a variable up that should be there. -/
def lookup (table : SymbolTable) (name : String) : Symbol × SymbolTable :=
  match table.get? name with
  | some symbol => (symbol, table)
  | none => (.undefined, table.warn (.undefinedVariable name))

/-- Hands the pending warnings over. -/
def takeWarnings (table : SymbolTable) : List Warning × SymbolTable :=
  (table.pending, { table with pending := [] })

/-! ## What the operations do to the entries -/

@[simp] theorem get?_warn (table : SymbolTable) (warning : Warning) (name : String) :
    (table.warn warning).get? name = table.get? name := rfl

/-- A declaration adds its entry unless there is one. -/
theorem get?_declare (table : SymbolTable) (name : String) (kind : ValueKind)
    (x : String) :
    (table.declare name kind).get? x =
      if x = name ∧ table.get? x = none then some ⟨kind, 0, none⟩ else table.get? x := by
  unfold declare
  split
  · rename_i symbol h
    rw [get?_warn]
    split
    · rename_i hx
      rw [hx.1, h] at hx
      exact absurd hx.2 (by simp)
    · rfl
  · rename_i h
    by_cases hx : x = name
    · subst hx
      simp [get?] at h ⊢
      simp [h]
    · have hne : ¬ name = x := fun heq => hx heq.symm
      simp [get?, Std.TreeMap.getElem?_insert, hx, hne]

/-- A change touches the entry of its name alone. -/
theorem get?_modify (table : SymbolTable) (name : String) (change : Symbol → Symbol)
    (x : String) :
    (table.modify name change).get? x =
      if x = name then (table.get? x).map change else table.get? x := by
  unfold modify
  split
  · rename_i symbol h
    by_cases hx : x = name
    · subst hx
      simp [h]
      simp [get?]
    · have hne : ¬ name = x := fun heq => hx heq.symm
      simp [get?, Std.TreeMap.getElem?_insert, hx, hne]
  · rename_i h
    by_cases hx : x = name
    · subst hx
      simp [h]
    · simp [hx]

end SymbolTable

end RealMode
