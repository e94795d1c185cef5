import RealMode.Proofs.Lowering
import RealMode.Proofs.Semantics

/-!
# Kinds of variables

How an assignment is echoed depends on the kind of its value: as a text, or as a number.
The kind of a variable is that of the value that was first assigned to it, so that in a
program over numbers no variable is ever taken for a text.

- `kindOf_eq_kindGiven`: the kind of a value is a matter of the kinds of the variables
  alone.
- `kind?_complete`: a completed assignment gives its target a kind unless it has one, and
  changes no other.
- `Lowers.holdsNumbers`: lowering a statement over numbers keeps the table free of texts.
-/

namespace RealMode

/-- The kind of a value, given the kinds of the variables. A variable without a kind is
undefined. -/
def Node.kindGiven (kinds : String → Option ValueKind) : Node → ValueKind
  | .number text => if Literal.isFloat text then .float else .integer
  | .string _ => .string
  | .boolean _ => .boolean
  | .identifier name => (kinds name).getD .undefined
  | .operator (.compare _) _ _ => .boolean
  | .operator (.arith _) _ _ => .integer
  | _ => .undefined

namespace SymbolTable

/-- The kind of a variable. -/
def kind? (table : SymbolTable) (name : String) : Option ValueKind :=
  (table.get? name).map Symbol.kind

/-- Of all that a table records, the kind of a value depends on the kinds of the variables
only. -/
theorem kindOf_eq_kindGiven (table : SymbolTable) (value : Node) :
    table.kindOf value = value.kindGiven table.kind? := by
  cases value with
  | identifier name =>
    rw [kindOf, Node.kindGiven, kind?]
    cases table.get? name <;> rfl
  | operator op lhs rhs => cases op <;> rfl
  | _ => rfl

/-- Declaring gives a kind to a name that has none. -/
theorem kind?_declare (table : SymbolTable) (name : String) (kind : ValueKind)
    (x : String) :
    (table.declare name kind).kind? x =
      if x = name ∧ table.kind? x = none then some kind else table.kind? x := by
  simp only [kind?, get?_declare, Option.map_eq_none_iff]
  split <;> rfl

/-- A change that keeps the kind of its entry keeps all kinds. -/
theorem kind?_modify (table : SymbolTable) (name : String) {change : Symbol → Symbol}
    (hchange : ∀ symbol, (change symbol).kind = symbol.kind) (x : String) :
    (table.modify name change).kind? x = table.kind? x := by
  rw [kind?, get?_modify, kind?]
  split
  · rw [Option.map_map]
    exact congrArg (Option.map · _) (funext hchange)
  · rfl

/-- Recording a value changes no kind. -/
theorem kind?_updateInt (table : SymbolTable) (name : String) (value : Int) (x : String) :
    (table.updateInt name value).kind? x = table.kind? x := by
  rw [updateInt, kind?_modify]
  exact fun symbol => rfl

theorem kind?_updateStr (table : SymbolTable) (name value x : String) :
    (table.updateStr name value).kind? x = table.kind? x := by
  rw [updateStr, kind?_modify]
  exact fun symbol => rfl

/-- Registering an assignment gives the kind of its first value, whatever the policy. -/
theorem kind?_register (table : SymbolTable) (policy : Policy) (target : String)
    (kind : ValueKind) (x : String) :
    (table.register policy target kind).kind? x =
      if x = target ∧ table.kind? x = none then some kind else table.kind? x := by
  cases policy with
  | warn => exact kind?_declare table target kind x
  | allow =>
    rw [register]
    split
    · rename_i hdeclared
      have hsome : table.kind? target ≠ none := by
        simpa [kind?, get?, isDeclared] using hdeclared
      rw [if_neg]
      rintro ⟨rfl, hnone⟩
      exact hsome hnone
    · exact kind?_declare table target kind x

/-- Recording a value changes no kind. -/
theorem kind?_recordValue (table : SymbolTable) (target : String) (value : Node)
    (x : String) :
    (table.recordValue target value).kind? x = table.kind? x := by
  cases value with
  | string text => exact kind?_updateStr table target text x
  | boolean value => exact kind?_updateInt table target _ x
  | number text =>
    rw [recordValue]
    split
    · exact kind?_updateInt table target _ x
    · rfl
  | identifier name =>
    rw [recordValue]
    split
    · split
      · exact (kind?_updateStr _ target _ x).trans (kind?_updateInt table target _ x)
      · exact kind?_updateInt table target _ x
    · rfl
  | _ => rfl

theorem kind?_lookup (table : SymbolTable) (name x : String) :
    (table.lookup name).2.kind? x = table.kind? x := by
  unfold lookup
  split <;> rfl

end SymbolTable

namespace Lowering

/-- Completing an assignment does the same. -/
theorem kind?_complete (ctx : Context) (target : String) (kind : ValueKind) (value : Node)
    (s : Session) (x : String) :
    (complete ctx target kind value s).session.symbols.kind? x =
      if x = target ∧ s.symbols.kind? x = none then some kind else s.symbols.kind? x :=
  (SymbolTable.kind?_recordValue _ target value x).trans
    (SymbolTable.kind?_register s.symbols ctx.settings.redeclaration target kind x)

theorem symbols_materialize (flags : Option Comparison) (s : Session) :
    (materialize flags s).session.symbols = s.symbols := by
  cases flags <;> rfl

end Lowering

/-- No variable is known to hold a text. -/
def Session.HoldsNumbers (s : Session) : Prop :=
  ∀ x, s.symbols.kind? x ≠ some .string

/-- Where variables hold numbers, a numeric value is no string. -/
theorem Session.HoldsNumbers.kindOf_ne_string {s : Session} (hs : s.HoldsNumbers)
    {value : Node} (hvalue : value.isNumeric) : s.symbols.kindOf value ≠ .string := by
  cases value with
  | number text =>
    rw [SymbolTable.kindOf]
    split <;> nofun
  | identifier name =>
    have hname := hs name
    rw [SymbolTable.kind?] at hname
    rw [SymbolTable.kindOf]
    split
    · rename_i symbol hsymbol
      rw [hsymbol] at hname
      exact fun hkind => hname (congrArg some hkind)
    · nofun
  | operator op lhs rhs => cases op <;> nofun
  | boolean value => nofun
  | _ => exact nomatch hvalue

open Lowering in
/-- Lowering a statement over numbers declares no text. -/
theorem Lowering.Lowers.holdsNumbers {ctx : Context} {level : Nat} {inChain : Bool}
    {tree : Node} {s s' : Session} {code : List Code} {warnings : List Warning}
    {flags : Option Comparison}
    (h : Lowers ctx level inChain tree s code warnings s' flags)
    (htree : tree.isStatement) (hs : s.HoldsNumbers) : s'.HoldsNumbers := by
  have materialized {flags : Option Comparison} {s : Session} (hs : s.HoldsNumbers) :
      (materialize flags s).session.HoldsNumbers := by
    intro x
    rw [symbols_materialize]
    exact hs x
  induction h with
  | number | string | boolean | unknown => exact hs
  | identifier =>
    intro x
    exact (SymbolTable.kind?_lookup _ _ x).trans_ne (hs x)
  | operator _ _ _ ihl ihr =>
    obtain ⟨hlhs, hrhs⟩ := Bool.and_eq_true_iff.mp htree
    refine materialized (ihr (Node.isStatement_of_isNumeric hrhs) (materialized ?_))
    exact ihl (Node.isStatement_of_isNumeric hlhs) hs
  | assignLiteral => exact nomatch htree
  | @assignWord _ _ s target value _ _ _ s₁ flags _ _ _ _ ih =>
    intro x
    rw [kind?_complete]
    split
    · exact fun hkind => hs.kindOf_ne_string htree (Option.some.inj hkind)
    · exact materialized (ih (Node.isStatement_of_isNumeric htree) hs) x
  | last _ _ ih => exact ih htree hs
  | chain _ _ _ ih₁ ih₂ =>
    obtain ⟨hfirst, hnext⟩ := Bool.and_eq_true_iff.mp htree
    exact ih₂ hnext (ih₁ hfirst hs)
  | ifThen _ _ _ _ ihc ihb =>
    obtain ⟨hcond, hbody⟩ := Bool.and_eq_true_iff.mp htree
    exact ihb hbody (ihc (Node.isStatement_of_isNumeric hcond) hs)
  | ifElse _ _ _ _ _ ihc ihb iha =>
    obtain ⟨h, halternative⟩ := Bool.and_eq_true_iff.mp htree
    obtain ⟨hcond, hbody⟩ := Bool.and_eq_true_iff.mp h
    exact iha halternative (ihb hbody (ihc (Node.isStatement_of_isNumeric hcond) hs))
  | whileLoop _ _ _ _ ihc ihb =>
    obtain ⟨hcond, hbody⟩ := Bool.and_eq_true_iff.mp htree
    exact ihb hbody (ihc (Node.isStatement_of_isNumeric hcond) hs)
  | forLoop _ _ _ _ _ _ ihi ihc ihb ihs =>
    obtain ⟨h, hbody⟩ := Bool.and_eq_true_iff.mp htree
    obtain ⟨h, hstep⟩ := Bool.and_eq_true_iff.mp h
    obtain ⟨hinit, hcond⟩ := Bool.and_eq_true_iff.mp h
    exact ihs hstep (ihb hbody (ihc (Node.isStatement_of_isNumeric hcond) (ihi hinit hs)))

end RealMode
