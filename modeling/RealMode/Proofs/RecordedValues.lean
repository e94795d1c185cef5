import RealMode.Proofs.SymbolWarnings
import RealMode.Proofs.TwoRuns

/-!
# Recorded values do not drive lowering

A symbol table records the kind of a variable, the integer and the text that were last
assigned to it. Lowering reads the table back, to find the kind of a value and to copy
what is recorded of one variable to another. Nothing that it emits or reports depends on
the integers and the texts: from two sessions that differ in them only, every tree is
lowered to the same code with the same warnings and the same outcome, also when lowering
stops at a fault.

- `SymbolTable.Agree` holds of tables that differ in recorded values only. Each operation
  keeps it, because the kinds and the warnings of the result depend on the kinds alone.
- `respects_agree`: each step of lowering keeps it.
- `Lowering.agree_of_agree` is the statement about trees.
-/

namespace RealMode

/-! ## Symbol tables -/

namespace SymbolTable

/-- The tables have the same variables, each with the same kind, and the same pending
warnings. The integers and the texts that they record may differ. -/
structure Agree (table table' : SymbolTable) : Prop where
  kind? : ∀ name, table'.kind? name = table.kind? name
  pending : table'.pending = table.pending

namespace Agree

variable {table table' : SymbolTable}

/-- Tables that agree give every value the same kind. -/
theorem kindOf (h : table.Agree table') (value : Node) :
    table'.kindOf value = table.kindOf value := by
  have hkinds : table'.kind? = table.kind? := funext h.kind?
  rw [kindOf_eq_kindGiven, kindOf_eq_kindGiven, hkinds]

theorem lookup (h : table.Agree table') (name : String) :
    (table.lookup name).2.Agree (table'.lookup name).2 := by
  constructor
  · intro x
    rw [kind?_lookup, kind?_lookup, h.kind?]
  · rw [pending_lookup, pending_lookup, h.kind?, h.pending]

theorem register (h : table.Agree table') (policy : Policy) (target : String)
    (kind : ValueKind) :
    (table.register policy target kind).Agree (table'.register policy target kind) := by
  constructor
  · intro x
    rw [kind?_register, kind?_register, h.kind?]
  · rw [pending_register, pending_register, h.kind?, h.pending]

/-- What is recorded of a value may differ, since the value may be another variable; that
it is recorded shows neither in the kinds nor in the warnings. -/
theorem recordValue (h : table.Agree table') {target : String}
    (htarget : (table.kind? target).isSome) (value : Node) :
    (table.recordValue target value).Agree (table'.recordValue target value) := by
  have htarget' : (table'.kind? target).isSome := by
    rw [h.kind?]
    exact htarget
  constructor
  · intro x
    rw [kind?_recordValue, kind?_recordValue, h.kind?]
  · rw [pending_recordValue htarget, pending_recordValue htarget', h.pending]

theorem takeWarnings (h : table.Agree table') :
    table'.takeWarnings.1 = table.takeWarnings.1 ∧
      table.takeWarnings.2.Agree table'.takeWarnings.2 :=
  ⟨h.pending, h.kind?, rfl⟩

end Agree

end SymbolTable

/-! ## Runs -/

/-- The sessions differ in recorded values only. -/
structure Session.Agree (s s' : Session) : Prop where
  symbols : s.symbols.Agree s'.symbols
  counters : s'.counters = s.counters

/-- The same came of lowering, up to recorded values. -/
structure Step.Agree {α : Type} (t t' : Step α) : Prop where
  code : t'.code = t.code
  warnings : t'.warnings = t.warnings
  result : t'.result = t.result
  session : t.session.Agree t'.session

/-- From sessions that agree, the same comes of both computations. -/
def Indifferent {α : Type} (x y : Lowering α) : Prop :=
  ∀ s s' : Session, s.Agree s' → (x s).Agree (y s')

namespace Indifferent

open Lowering

variable {α β : Type}

/-- Two steps in turn are indifferent if each of them is. -/
theorem bind {x y : Lowering α} {f g : α → Lowering β} (hx : Indifferent x y)
    (hf : ∀ a, Indifferent (f a) (g a)) : Indifferent (x >>= f) (y >>= g) := by
  intro s s' hs
  have hstep := hx s s' hs
  rw [bind_apply, bind_apply]
  cases hr : (x s).result with
  | error fault =>
    have hr' : (y s').result = .error fault := hstep.result.trans hr
    rw [Step.andThen_of_error hr, Step.andThen_of_error hr']
    exact ⟨hstep.code, hstep.warnings, rfl, hstep.session⟩
  | ok a =>
    have hr' : (y s').result = .ok a := hstep.result.trans hr
    -- The second parts start from sessions that agree again.
    have hrest := hf a _ _ hstep.session
    rw [Step.andThen_of_ok hr, Step.andThen_of_ok hr']
    constructor
    · show (y s').code ++ _ = (x s).code ++ _
      rw [hstep.code, hrest.code]
    · show (y s').warnings ++ _ = (x s).warnings ++ _
      rw [hstep.warnings, hrest.warnings]
    · exact hrest.result
    · exact hrest.session

/-- A computation that neither looks at the session nor changes it. -/
theorem const {code : List Code} {warnings : List Warning} {result : Except Fault α}
    {x : Lowering α} (h : ∀ s, x s = ⟨code, warnings, s, result⟩) : Indifferent x x := by
  intro s s' hs
  rw [h s, h s']
  exact ⟨rfl, rfl, rfl, hs⟩

theorem withoutFlags {x y : Lowering (Option Comparison)} (h : Indifferent x y) :
    Indifferent (withoutFlags x) (withoutFlags y) := by
  intro s s' hs
  have hstep := h s s' hs
  refine ⟨hstep.code, hstep.warnings, ?_, hstep.session⟩
  exact congrArg (Except.map _) hstep.result

theorem nextTag (k : Construct) : Indifferent (nextTag k) (nextTag k) := by
  intro s s' hs
  refine ⟨rfl, rfl, ?_, ⟨hs.symbols, ?_⟩⟩
  · exact congrArg (fun counters => Except.ok (Counters.get counters k)) hs.counters
  · exact congrArg (Counters.advance · k) hs.counters

/-- Symbols may be changed in both runs, if the changed tables agree. -/
theorem modifySymbols {change : SymbolTable → SymbolTable}
    (h : ∀ table table' : SymbolTable, table.Agree table' →
      (change table).Agree (change table')) :
    Indifferent (modifySymbols change) (modifySymbols change) := by
  intro s s' hs
  obtain ⟨hwarnings, htable⟩ := (h _ _ hs.symbols).takeWarnings
  exact ⟨rfl, hwarnings, rfl, htable, hs.counters⟩

end Indifferent

/-- The steps of lowering, from sessions that agree. -/
theorem respects_agree (ctx : Context) : Lowering.Respects ctx ctx 0 Indifferent where
  labels := rfl
  pure _ := .const fun _ => rfl
  bind := .bind
  withoutFlags := .withoutFlags
  emit _ := .const fun _ => rfl
  nextTag := .nextTag
  require _ o := by cases o <;> exact .const fun _ => rfl
  outOfRange _ _ := .const fun _ => rfl
  unexpectedKind _ := .const fun _ => rfl
  lookup name := .modifySymbols fun _ _ h => h.lookup name
  kindOf value hf := by
    intro s s' hs
    have hrest := hf (s.symbols.kindOf value) s s' hs
    rw [Lowering.symbols_bind, Lowering.symbols_bind, hs.symbols.kindOf value]
    exact hrest
  enter level kind := by
    rw [Nat.add_zero, Lowering.enter]
    split <;> exact .const fun _ => rfl
  complete target kind value := by
    refine .modifySymbols fun table table' h => ?_
    have hregister := h.register ctx.settings.redeclaration target kind
    exact hregister.recordValue (table.isSome_kind?_register _ target kind) value

namespace Lowering

/-- **Recorded values never drive emission.** From sessions with the same counters, the
same pending warnings and the same variables of the same kinds, but with any integers and
texts recorded of them, a program is lowered to the same code with the same warnings and
the same outcome, and the sessions afterwards agree again. The same holds of every node,
at whatever level it is lowered. -/
theorem agree_of_agree (ctx : Context) {s s' : Session} (h : s.Agree s') :
    (∀ tree : Option Node, (program ctx tree s).Agree (program ctx tree s')) ∧
    ∀ (tree : Node) (level : Nat) (inChain : Bool),
      (node ctx level inChain tree s).Agree (node ctx level inChain tree s') := by
  constructor
  · intro tree
    exact (respects_agree ctx).program tree s s' h
  · intro tree level inChain
    exact (respects_agree ctx).node tree level inChain s s' h

/-- A text is copied to another variable in the one session, an integer in the other; then
lowering stops at a bad number. -/
theorem agree_of_agree_copy :
    let ctx : Context :=
      ⟨⟨"new_line", (∅ : Std.TreeMap String String).insert "y" "msg_y", ∅⟩, {}⟩
    let tree : Node := .chain (.assignment "y" (.identifier "x")) (.number "1x")
    let s : Session :=
      ⟨⟨(∅ : Std.TreeMap String Symbol).insert "x" ⟨.string, 0, some "a"⟩, []⟩, {}⟩
    let s' : Session :=
      ⟨⟨(∅ : Std.TreeMap String Symbol).insert "x" ⟨.string, 7, none⟩, []⟩, {}⟩
    s.Agree s' ∧ (program ctx (some tree) s).Agree (program ctx (some tree) s') ∧
      (program ctx (some tree) s).result = .error (.malformedNumber "1x") ∧
      (program ctx (some tree) s).session.symbols.get? "y" = some ⟨.string, 0, some "a"⟩ ∧
      (program ctx (some tree) s').session.symbols.get? "y" =
        some ⟨.string, 7, none⟩ := by
  intro ctx tree s s'
  have hagree : s.Agree s' := by
    refine ⟨⟨fun name => ?_, rfl⟩, rfl⟩
    simp only [s, s', SymbolTable.kind?, SymbolTable.get?, Std.TreeMap.getElem?_insert]
    split <;> rfl
  exact ⟨hagree, (agree_of_agree ctx hagree).1 (some tree), rfl, rfl, rfl⟩

end Lowering

end RealMode
