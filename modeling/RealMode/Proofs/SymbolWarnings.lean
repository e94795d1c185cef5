import RealMode.Proofs.SymbolKinds

/-!
# What a symbol table warns about

Every operation on a symbol table appends to its pending warnings what depends on the
kinds of the variables alone: a declaration warns of a variable that has a kind already, a
request for a variable warns if it has none. So the kinds and the pending warnings of a
table are all that has to be known to tell its warnings later on, whatever else is
recorded.

- `pending_declare`, `pending_modify` and `pending_lookup` say so of the operations.
- `pending_recordValue`: recording a value warns of nothing, because the target is
  registered first.
- `warnings_identifier` and `warnings_complete` are what the two steps of lowering that
  use the table report.
-/

namespace RealMode

/-- The warning about a variable that is asked for, unless it has a kind. -/
def absence? (name : String) : Option ValueKind → Option Warning
  | some _ => none
  | none => some (.undefinedVariable name)

/-- The warning about a variable that is assigned, if it has a kind and the policy is to
warn. -/
def redeclaration? (policy : Policy) (name : String) (first : Option ValueKind) :
    Option Warning :=
  match policy with
  | .warn => first.map (Warning.redeclared name)
  | .allow => none

namespace SymbolTable

theorem isDeclared_eq_isSome_kind? (table : SymbolTable) (name : String) :
    table.isDeclared name = (table.kind? name).isSome := by
  simp [isDeclared, kind?, get?]

/-- A declaration warns of a variable that is there already. -/
theorem pending_declare (table : SymbolTable) (name : String) (kind : ValueKind) :
    (table.declare name kind).pending =
      table.pending ++ (redeclaration? .warn name (table.kind? name)).toList := by
  rw [declare, kind?]
  cases table.get? name with
  | none => exact (List.append_nil _).symm
  | some symbol => rfl

/-- A change warns of a variable that is not there. -/
theorem pending_modify (table : SymbolTable) (name : String) (change : Symbol → Symbol) :
    (table.modify name change).pending =
      table.pending ++ (absence? name (table.kind? name)).toList := by
  rw [modify, kind?]
  cases table.get? name with
  | none => rfl
  | some symbol => exact (List.append_nil _).symm

theorem pending_lookup (table : SymbolTable) (name : String) :
    (table.lookup name).2.pending =
      table.pending ++ (absence? name (table.kind? name)).toList := by
  rw [lookup, kind?]
  cases table.get? name with
  | none => rfl
  | some symbol => exact (List.append_nil _).symm

/-- With either policy registering a target warns as the policy says. -/
theorem pending_register (table : SymbolTable) (policy : Policy) (target : String)
    (kind : ValueKind) :
    (table.register policy target kind).pending =
      table.pending ++ (redeclaration? policy target (table.kind? target)).toList := by
  cases policy with
  | warn => exact pending_declare table target kind
  | allow =>
    show (if table.isDeclared target then table else table.declare target kind).pending =
      _
    by_cases hdeclared : table.isDeclared target
    · rw [if_pos hdeclared]
      exact (List.append_nil _).symm
    · rw [if_neg hdeclared, pending_declare]
      have hnone : table.kind? target = none := by
        rw [isDeclared_eq_isSome_kind?] at hdeclared
        exact Option.not_isSome_iff_eq_none.mp hdeclared
      rw [hnone]
      rfl

/-- A change of a variable that is there warns of nothing. -/
theorem pending_modify_of_isSome {table : SymbolTable} {name : String}
    (h : (table.kind? name).isSome) (change : Symbol → Symbol) :
    (table.modify name change).pending = table.pending := by
  obtain ⟨kind, hkind⟩ := Option.isSome_iff_exists.mp h
  rw [pending_modify, hkind]
  exact List.append_nil _

/-- Recording the value of a target that is there warns of nothing, not even when the
value is that of a variable that is not. -/
theorem pending_recordValue {table : SymbolTable} {target : String}
    (h : (table.kind? target).isSome) (value : Node) :
    (table.recordValue target value).pending = table.pending := by
  cases value with
  | string text => exact pending_modify_of_isSome h _
  | boolean value => exact pending_modify_of_isSome h _
  | number text =>
    rw [recordValue]
    split
    · exact pending_modify_of_isSome h _
    · rfl
  | identifier name =>
    rw [recordValue]
    split
    · rename_i source hsource
      have hint : (table.updateInt target source.int).pending = table.pending :=
        pending_modify_of_isSome h _
      split
      · -- The target is still there when its text is recorded after the integer.
        have hstill : ((table.updateInt target source.int).kind? target).isSome := by
          rw [kind?_updateInt]
          exact h
        exact (pending_modify_of_isSome hstill _).trans hint
      · exact hint
    · rfl
  | _ => rfl

/-- A target that is registered is there. -/
theorem isSome_kind?_register (table : SymbolTable) (policy : Policy) (target : String)
    (kind : ValueKind) : ((table.register policy target kind).kind? target).isSome := by
  rw [kind?_register]
  cases hkind : table.kind? target with
  | none => simp
  | some first => simp

end SymbolTable

namespace Lowering

/-- Reading a variable reports the pending warnings, and the variable if it was never
assigned. -/
theorem warnings_identifier (name : String) (s : Session) :
    (identifier name s).warnings =
      s.symbols.pending ++ (absence? name (s.symbols.kind? name)).toList := by
  rw [← SymbolTable.pending_lookup]
  exact List.append_nil _

/-- Completing an assignment reports the pending warnings, and the target if it was
assigned before and the policy is to warn. -/
theorem warnings_complete (ctx : Context) (target : String) (kind : ValueKind)
    (value : Node) (s : Session) :
    (complete ctx target kind value s).warnings = s.symbols.pending ++
      (redeclaration? ctx.settings.redeclaration target
        (s.symbols.kind? target)).toList := by
  have hregistered :=
    s.symbols.isSome_kind?_register ctx.settings.redeclaration target kind
  rw [← SymbolTable.pending_register _ _ _ kind]
  exact SymbolTable.pending_recordValue hregistered value

end Lowering

end RealMode
