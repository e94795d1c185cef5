import RealMode.Proofs.Outcome
import RealMode.Proofs.TwoRuns

/-!
# The redeclaration policy

The policy decides whether an assignment to a variable that is there already is reported.
It is looked at in the middle of lowering, when an assignment is recorded in the symbol
table, and the table is what later assignments take the kinds of their values from. Still
it makes no other difference: a run with the policy `allow` is the run with the policy
`warn` without the warnings about redeclared variables.

- `SymbolTable.muted` leaves those warnings out of the pending ones. Recording a value
  commutes with it, and registering a target with `allow` is registering it with `warn`
  and leaving them out.
- `Mutes x y` says that `y` yields what `x` does, less those warnings, wherever no
  warnings are pending. Every step of lowering respects this (`respects_mutes`).
- `Compilation.compile_allow` says it of compilations.
-/

namespace RealMode

/-! ## Warnings about redeclared variables -/

/-- Whether a variable is reported that is there already. -/
def Warning.isRedeclaration : Warning → Bool
  | .redeclared _ _ => true
  | _ => false

/-- The other warnings, in order. -/
def withoutRedeclarations (warnings : List Warning) : List Warning :=
  warnings.filter fun w => !w.isRedeclaration

@[simp] theorem withoutRedeclarations_append (warnings₁ warnings₂ : List Warning) :
    withoutRedeclarations (warnings₁ ++ warnings₂) =
      withoutRedeclarations warnings₁ ++ withoutRedeclarations warnings₂ :=
  List.filter_append ..

/-- These warnings are known by their message. -/
theorem Warning.isRedeclaration_iff (w : Warning) :
    w.isRedeclaration ↔
      ∃ name : String, w.diagnostic.message = s!"variable '{name}' already declared" := by
  cases w with
  | redeclared name first => exact ⟨fun _ => ⟨name, rfl⟩, fun _ => rfl⟩
  | undefinedVariable | outOfRange | unexpectedKind =>
    -- The messages differ in their first letters.
    refine iff_of_false Bool.false_ne_true ?_
    rintro ⟨name, h⟩
    have hchars := congrArg String.toList h
    simp [diagnostic, Diagnostic.warning, Diagnostic.withNote, toString] at hchars

/-! ## Symbol tables -/

namespace SymbolTable

/-- The table with fewer pending warnings. -/
def muted (table : SymbolTable) : SymbolTable :=
  { table with pending := withoutRedeclarations table.pending }

theorem muted_of_pending_eq_nil {table : SymbolTable} (h : table.pending = []) :
    table.muted = table := by
  obtain ⟨entries, pending⟩ := table
  obtain rfl : pending = [] := h
  rfl

theorem muted_warn (table : SymbolTable) {warning : Warning}
    (h : warning.isRedeclaration = false) :
    (table.warn warning).muted = table.muted.warn warning := by
  simp [muted, warn, withoutRedeclarations, h]

theorem muted_modify (table : SymbolTable) (name : String) (change : Symbol → Symbol) :
    (table.modify name change).muted = table.muted.modify name change := by
  unfold modify
  cases h : table.get? name with
  | none =>
    have h' : table.muted.get? name = none := h
    rw [h']
    exact muted_warn table rfl
  | some symbol =>
    have h' : table.muted.get? name = some symbol := h
    rw [h']
    rfl

/-- What is recorded of a value does not depend on pending warnings. -/
theorem muted_recordValue (table : SymbolTable) (target : String) (value : Node) :
    (table.recordValue target value).muted = table.muted.recordValue target value := by
  cases value with
  | string text => exact muted_modify table target _
  | boolean value => exact muted_modify table target _
  | number text =>
    rw [recordValue, recordValue]
    split
    · exact muted_modify table target _
    · rfl
  | identifier name =>
    have hget : table.muted.get? name = table.get? name := rfl
    rw [recordValue, recordValue, hget]
    split
    · split
      · exact (muted_modify _ target _).trans
          (congrArg (modify · target _) (muted_modify table target _))
      · exact muted_modify table target _
    · rfl
  | _ => rfl

/-- Registering a target with the policy `allow` leaves out nothing but the warning. -/
theorem muted_register (table : SymbolTable) (target : String) (kind : ValueKind) :
    (table.register .warn target kind).muted =
      table.muted.register .allow target kind := by
  have hdeclared : table.muted.isDeclared target = (table.get? target).isSome := by
    simp [isDeclared, muted, get?]
  rw [register, register, hdeclared, declare, declare]
  cases h : table.get? target with
  | none =>
    have h' : table.muted.get? target = none := h
    rw [h']
    rfl
  | some symbol =>
    rw [Option.isSome_some, if_pos rfl]
    simp [muted, warn, withoutRedeclarations, Warning.isRedeclaration]

end SymbolTable

/-! ## Runs -/

/-- No warnings are pending in the session. -/
def Session.Clear (s : Session) : Prop :=
  s.symbols.pending = []

/-- What came of lowering, less the warnings about redeclared variables. -/
def Step.muted {α : Type} (t : Step α) : Step α :=
  { t with warnings := withoutRedeclarations t.warnings }

/-- From sessions without pending warnings, the second computation yields what the first
does, less the warnings about redeclared variables; and no warnings are pending
afterwards. -/
structure Mutes {α : Type} (x y : Lowering α) : Prop where
  clear : ∀ s : Session, s.Clear → (x s).session.Clear
  eq : ∀ s : Session, s.Clear → y s = (x s).muted

namespace Mutes

open Lowering

variable {α β : Type}

theorem bind {x y : Lowering α} {f g : α → Lowering β} (hx : Mutes x y)
    (hf : ∀ a, Mutes (f a) (g a)) : Mutes (x >>= f) (y >>= g) := by
  refine { clear := fun s hs => ?_, eq := fun s hs => ?_ }
  · rw [bind_apply]
    cases hr : (x s).result with
    | error fault =>
      rw [Step.andThen_of_error hr]
      exact hx.clear s hs
    | ok a =>
      rw [Step.andThen_of_ok hr]
      exact (hf a).clear _ (hx.clear s hs)
  · rw [bind_apply, bind_apply, hx.eq s hs]
    cases hr : (x s).result with
    | error fault =>
      have hr' : (x s).muted.result = .error fault := hr
      rw [Step.andThen_of_error hr, Step.andThen_of_error hr']
      rfl
    | ok a =>
      have hr' : (x s).muted.result = .ok a := hr
      -- The second part starts from the same session in both runs.
      have hrest : g a (x s).muted.session = (f a (x s).session).muted :=
        (hf a).eq _ (hx.clear s hs)
      rw [Step.andThen_of_ok hr, Step.andThen_of_ok hr', hrest]
      simp [Step.muted]

/-- A computation that leaves the symbols alone and warns of no redeclaration is the same
in both runs. -/
theorem same {x : Lowering α} (hsymbols : ∀ s, (x s).session.symbols = s.symbols)
    (hwarnings : ∀ s, withoutRedeclarations (x s).warnings = (x s).warnings) :
    Mutes x x := by
  refine { clear := fun s hs => ?_, eq := fun s hs => ?_ }
  · rw [Session.Clear, hsymbols]
    exact hs
  · rw [Step.muted, hwarnings]

theorem withoutFlags {x y : Lowering (Option Comparison)} (h : Mutes x y) :
    Mutes (withoutFlags x) (withoutFlags y) := by
  refine { clear := h.clear, eq := fun s hs => ?_ }
  rw [Lowering.withoutFlags, h.eq s hs]
  rfl

/-- Symbols may be changed in both runs, if the changes differ in warnings only. -/
theorem modifySymbols {change change' : SymbolTable → SymbolTable}
    (h : ∀ table, change' table.muted = (change table).muted) :
    Mutes (modifySymbols change) (modifySymbols change') := by
  refine { clear := fun s hs => rfl, eq := fun s hs => ?_ }
  have hchange := h s.symbols
  rw [SymbolTable.muted_of_pending_eq_nil hs] at hchange
  simp only [Lowering.modifySymbols, hchange]
  rfl

end Mutes

/-- The steps of lowering with the one policy and with the other. -/
theorem respects_mutes (labels : DataLabels) (maxDepth : Nat) :
    Lowering.Respects ⟨labels, ⟨.warn, maxDepth⟩⟩ ⟨labels, ⟨.allow, maxDepth⟩⟩ 0
      Mutes where
  labels := rfl
  pure _ := .same (fun _ => rfl) (fun _ => rfl)
  bind := .bind
  withoutFlags := .withoutFlags
  emit _ := .same (fun _ => rfl) (fun _ => rfl)
  nextTag _ := .same (fun _ => rfl) (fun _ => rfl)
  require _ o := by cases o <;> exact .same (fun _ => rfl) (fun _ => rfl)
  outOfRange _ _ := .same (fun _ => rfl) (fun _ => rfl)
  unexpectedKind _ := .same (fun _ => rfl) (fun _ => rfl)
  lookup name := by
    refine .modifySymbols fun table => ?_
    have hget : table.muted.get? name = table.get? name := rfl
    rw [SymbolTable.lookup, SymbolTable.lookup, hget]
    split
    · rfl
    · exact (table.muted_warn rfl).symm
  kindOf value hf :=
    { clear := fun s hs => (hf (s.symbols.kindOf value)).clear s hs
      eq := fun s hs => (hf (s.symbols.kindOf value)).eq s hs }
  enter level kind := by
    have hsame : Lowering.enter ⟨labels, ⟨.allow, maxDepth⟩⟩ (level + 0) kind =
        Lowering.enter ⟨labels, ⟨.warn, maxDepth⟩⟩ level kind := rfl
    rw [hsame, Lowering.enter]
    split <;> exact .same (fun _ => rfl) (fun _ => rfl)
  complete target kind value := by
    refine .modifySymbols fun table => ?_
    rw [SymbolTable.muted_recordValue, SymbolTable.muted_register]

example : (Lowering.program
    ⟨⟨"new_line", (∅ : Std.TreeMap String String).insert "x" "msg_x", ∅⟩, ⟨.warn, 3⟩⟩
    (some (.chain (.assignment "x" (.boolean true))
    (.last (.assignment "x" (.boolean false)))))
    .initial).warnings = [.redeclared "x" .boolean] := by
  rfl

/-! ## Compilations -/

namespace Compilation

/-- The outcome of a compilation, less the warnings about redeclared variables. -/
def muted : Except CompileFailure Compiled → Except CompileFailure Compiled
  | .ok compiled =>
    .ok { compiled with warnings := withoutRedeclarations compiled.warnings }
  | .error failure =>
    .error { failure with warnings := withoutRedeclarations failure.warnings }

theorem lowered_allow (maxDepth : Nat) (tree : Node) :
    lowered ⟨.allow, maxDepth⟩ tree = (lowered ⟨.warn, maxDepth⟩ tree).muted :=
  ((respects_mutes (StaticData.collect tree).labels maxDepth).program (some tree)).eq
    .initial rfl

/-- **The policy affects warnings only.** With either policy a program is compiled, or
fails at the same fault. The listing, finished or not, the collected data and the symbols
at the end are the same; and the warnings under `allow` are those under `warn`, in the
same order, without the ones that say that a variable is already declared. -/
theorem compile_allow (maxDepth : Nat) (tree : Node) :
    compile ⟨.allow, maxDepth⟩ tree = muted (compile ⟨.warn, maxDepth⟩ tree) ∧
    (lowered ⟨.allow, maxDepth⟩ tree).session = (lowered ⟨.warn, maxDepth⟩ tree).session ∧
    ∀ w : Warning, w.isRedeclaration ↔
      ∃ name : String, w.diagnostic.message = s!"variable '{name}' already declared" := by
  have hlowered := lowered_allow maxDepth tree
  refine ⟨?_, by rw [hlowered]; rfl, Warning.isRedeclaration_iff⟩
  cases hfault : tree.firstFault? maxDepth with
  | none =>
    have hallow : compile ⟨.allow, maxDepth⟩ tree = _ := compile_of_none hfault
    have hwarn : compile ⟨.warn, maxDepth⟩ tree = _ := compile_of_none hfault
    rw [hallow, hwarn, hlowered]
    rfl
  | some fault =>
    have hallow : compile ⟨.allow, maxDepth⟩ tree = _ := compile_of_some hfault
    have hwarn : compile ⟨.warn, maxDepth⟩ tree = _ := compile_of_some hfault
    rw [hallow, hwarn, hlowered]
    rfl

end Compilation

end RealMode
