import RealMode.Proofs.Lowering

/-!
# Two runs of lowering

Statements that compare two runs on the same tree (under two policies, two limits, from
two sessions) all need the same induction on the tree. `Respects` lists what such a
comparison has to satisfy, one field for each step that lowering is made of;
`Respects.node` draws the conclusion for trees. The second run may take place in another
context, `shift` levels further down.
-/

namespace RealMode.Lowering

/-- A relation between computations that holds of each step of lowering in the context
`ctx` and the same step in the context `ctx'`, and that is kept by sequences. The contexts
have the same labels. -/
structure Respects (ctx ctx' : Context) (shift : Nat)
    (P : ∀ {α : Type}, Lowering α → Lowering α → Prop) : Prop where
  labels : ctx'.labels = ctx.labels
  pure : ∀ {α : Type} (a : α), P (pure a) (pure a)
  bind : ∀ {α β : Type} {x y : Lowering α} {f g : α → Lowering β}, P x y →
    (∀ a, P (f a) (g a)) → P (x >>= f) (y >>= g)
  withoutFlags : ∀ {x y : Lowering (Option Comparison)}, P x y →
    P (withoutFlags x) (withoutFlags y)
  emit : ∀ code, P (emit code) (emit code)
  nextTag : ∀ k, P (nextTag k) (nextTag k)
  require : ∀ {α : Type} (fault : Fault) (o : Option α),
    P (require fault o) (require fault o)
  outOfRange : ∀ value text,
    P (warn (.outOfRange value text)) (warn (.outOfRange value text))
  unexpectedKind : ∀ kind, P (warn (.unexpectedKind kind)) (warn (.unexpectedKind kind))
  lookup : ∀ name, P (modifySymbols fun table => (table.lookup name).2)
    (modifySymbols fun table => (table.lookup name).2)
  kindOf : ∀ {β : Type} {f g : ValueKind → Lowering β} (value : Node),
    (∀ kind, P (f kind) (g kind)) →
      P (symbols >>= fun table => f (table.kindOf value))
        (symbols >>= fun table => g (table.kindOf value))
  enter : ∀ level kind, P (enter ctx level kind) (enter ctx' (level + shift) kind)
  complete : ∀ target kind value,
    P (complete ctx target kind value) (complete ctx' target kind value)

/-- An assignment of a value that is computed, once the kind of the value is known. -/
def assignWord (ctx : Context) (level : Nat) (target : String) (value : Node)
    (kind : ValueKind) :
    Lowering (Option Comparison) := do
  let message ← require (.undeclaredVariable target) (ctx.labels.message? target)
  materialize (← node ctx (level + 1) false value)
  storeWord ctx target message kind
  complete ctx target kind value
  return none

/-- An assignment looks at the symbols once, for the kind of its value. -/
theorem node_assign_kindOf {ctx : Context} {level : Nat} {inChain : Bool}
    {target : String} {value : Node} (hvalue : ∀ text, value ≠ .string text) :
    node ctx level inChain (.assignment target value) = (do
      enter ctx level .assignment
      symbols >>= fun table => assignWord ctx level target value (table.kindOf value)) :=
  node_assign_word hvalue

namespace Respects

variable {ctx ctx' : Context} {shift : Nat}
  {P : ∀ {α : Type}, Lowering α → Lowering α → Prop}

/-- Emitting several instructions is emitting code. -/
theorem emitInstrs (h : Respects ctx ctx' shift P) (instrs : List Instruction) :
    P (emitInstrs instrs) (emitInstrs instrs) :=
  h.emit _

/-- Turning flags into a word reads nothing of the context. -/
theorem materialize (h : Respects ctx ctx' shift P) (flags : Option Comparison) :
    P (materialize flags) (materialize flags) := by
  cases flags with
  | none => exact h.pure ()
  | some c => exact h.bind (h.nextTag .boolean) fun tag => h.emit _

/-- Branching reads nothing of it either. -/
theorem branchUnless (h : Respects ctx ctx' shift P) (target : CodeLabel)
    (flags : Option Comparison) :
    P (branchUnless target flags) (branchUnless target flags) := by
  cases flags <;> exact h.emitInstrs _

theorem number (h : Respects ctx ctx' shift P) (text : String) :
    P (number text) (number text) := by
  refine h.bind (h.require _ _) fun value => ?_
  split
  · exact h.bind (h.outOfRange _ _) fun _ => h.emitInstrs _
  · exact h.emitInstrs _

/-- A literal reads the labels, which the two contexts share. -/
theorem string (h : Respects ctx ctx' shift P) (text : String) :
    P (string ctx text) (string ctx' text) := by
  unfold Lowering.string
  rw [h.labels]
  exact h.bind (h.require _ _) fun _ => h.emitInstrs _

theorem storeLiteral (h : Respects ctx ctx' shift P) (target message text : String) :
    P (storeLiteral ctx target message text) (storeLiteral ctx' target message text) := by
  unfold Lowering.storeLiteral
  rw [h.labels]
  exact h.bind (h.require _ _) fun _ => h.emitInstrs _

/-- So does storing a word. -/
theorem storeWord (h : Respects ctx ctx' shift P) (target message : String)
    (kind : ValueKind) :
    P (storeWord ctx target message kind) (storeWord ctx' target message kind) := by
  unfold Lowering.storeWord
  rw [h.labels]
  split <;> exact h.emitInstrs _

/-- The level of a cell's statements is passed on with the same shift. -/
theorem cellLevel (h : Respects ctx ctx' shift P) {β : Type} {f g : Nat → Lowering β}
    {level : Nat} {inChain : Bool} (hf : ∀ level, P (f level) (g (level + shift))) :
    P (cellLevel ctx level inChain >>= f)
      (cellLevel ctx' (level + shift) inChain >>= g) := by
  cases inChain with
  | true => exact hf level
  | false =>
    have hassoc (ctx : Context) (level : Nat) (f : Nat → Lowering β) :
        (Lowering.cellLevel ctx level false >>= f) =
          (Lowering.enter ctx level .sequence >>= fun _ => f (level + 1)) := by
      funext s
      by_cases hlevel : ctx.settings.maxDepth ≤ level
      · simp [Lowering.cellLevel, Lowering.enter, hlevel, fail, Step.andThen]
      · simp [Lowering.cellLevel, Lowering.enter, hlevel, Lowering.pure, Step.andThen]
    rw [hassoc, hassoc, Nat.add_right_comm level shift 1]
    exact h.bind (h.enter _ _) fun _ => hf (level + 1)

/-- A relation that is respected by the steps of lowering holds of whole trees. -/
theorem node (h : Respects ctx ctx' shift P) (tree : Node) :
    ∀ (level : Nat) (inChain : Bool),
      P (node ctx level inChain tree) (node ctx' (level + shift) inChain tree) := by
  -- Subtrees are one level further down in both runs.
  have below {tree : Node} (ih : ∀ (level : Nat) (inChain : Bool),
      P (Lowering.node ctx level inChain tree)
      (Lowering.node ctx' (level + shift) inChain tree))
      (level : Nat) : P (Lowering.node ctx (level + 1) false tree)
        (Lowering.node ctx' (level + shift + 1) false tree) := by
    rw [Nat.add_right_comm level shift 1]
    exact ih (level + 1) false
  induction tree with
  | number text =>
    intro level inChain
    rw [Lowering.node, Lowering.node]
    exact h.bind (h.enter _ _) fun _ => h.bind (h.number text) fun _ => h.pure none
  | string text =>
    intro level inChain
    rw [Lowering.node, Lowering.node]
    exact h.bind (h.enter _ _) fun _ => h.bind (h.string text) fun _ => h.pure none
  | boolean value =>
    intro level inChain
    rw [Lowering.node, Lowering.node]
    exact h.bind (h.enter _ _) fun _ => h.bind (h.emitInstrs _) fun _ => h.pure none
  | identifier name =>
    intro level inChain
    rw [Lowering.node, Lowering.node]
    refine h.bind (h.enter _ _) fun _ => h.bind ?_ fun _ => h.pure none
    exact h.bind (h.lookup name) fun _ => h.emitInstrs _
  | operator op lhs rhs ihl ihr =>
    intro level inChain
    rw [Lowering.node, Lowering.node]
    refine h.bind (h.enter _ _) fun _ => h.bind (below ihl level) fun _ => ?_
    refine h.bind (h.materialize _) fun _ => h.bind (h.emitInstrs _) fun _ => ?_
    refine h.bind (below ihr level) fun _ => h.bind (h.materialize _) fun _ => ?_
    exact h.bind (h.emitInstrs _) fun _ => h.pure _
  | assignment target value ih =>
    intro level inChain
    rcases value.eq_string_or_ne with ⟨text, rfl⟩ | hne
    · rw [node_assign_literal, node_assign_literal, h.labels]
      refine h.bind (h.enter _ _) fun _ => h.bind (h.require _ _) fun message => ?_
      refine h.bind (h.storeLiteral _ _ _) fun _ => ?_
      exact h.bind (h.complete _ _ _) fun _ => h.pure none
    · rw [node_assign_kindOf hne, node_assign_kindOf hne]
      refine h.bind (h.enter _ _) fun _ => h.kindOf value fun kind => ?_
      unfold assignWord
      rw [h.labels]
      refine h.bind (h.require _ _) fun message => h.bind (below ih level) fun _ => ?_
      refine h.bind (h.materialize _) fun _ => h.bind (h.storeWord _ _ _) fun _ => ?_
      exact h.bind (h.complete _ _ _) fun _ => h.pure none
  | last first ih =>
    intro level inChain
    rw [Lowering.node, Lowering.node]
    exact h.cellLevel fun level => h.withoutFlags (ih level false)
  | chain first next ih₁ ih₂ =>
    intro level inChain
    rw [Lowering.node, Lowering.node]
    exact h.cellLevel fun level =>
      h.bind (ih₁ level false) fun _ => h.withoutFlags (ih₂ level true)
  | ifThen cond body ihc ihb =>
    intro level inChain
    rw [Lowering.node, Lowering.node]
    refine h.bind (h.enter _ _) fun _ => h.bind (h.nextTag _) fun tag => ?_
    refine h.bind (below ihc level) fun _ => h.bind (h.branchUnless _ _) fun _ => ?_
    exact h.bind (below ihb level) fun _ => h.bind (h.emit _) fun _ => h.pure none
  | ifElse branch cond body alternative ihc ihb iha =>
    intro level inChain
    rw [Lowering.node, Lowering.node]
    refine h.bind (h.enter _ _) fun _ => h.bind (h.nextTag _) fun tag => ?_
    refine h.bind (below ihc level) fun _ => h.bind (h.branchUnless _ _) fun _ => ?_
    refine h.bind (below ihb level) fun _ => h.bind (h.emit _) fun _ => ?_
    exact h.bind (below iha level) fun _ => h.bind (h.emit _) fun _ => h.pure none
  | whileLoop cond body ihc ihb =>
    intro level inChain
    rw [Lowering.node, Lowering.node]
    refine h.bind (h.enter _ _) fun _ => h.bind (h.nextTag _) fun tag => ?_
    refine h.bind (h.emit _) fun _ => h.bind (below ihc level) fun _ => ?_
    refine h.bind (h.branchUnless _ _) fun _ => h.bind (below ihb level) fun _ => ?_
    exact h.bind (h.emit _) fun _ => h.pure none
  | forLoop init cond step body ihi ihc ihs ihb =>
    intro level inChain
    rw [Lowering.node, Lowering.node]
    refine h.bind (h.enter _ _) fun _ => h.bind (h.nextTag _) fun tag => ?_
    refine h.bind (below ihi level) fun _ => h.bind (h.emit _) fun _ => ?_
    refine h.bind (below ihc level) fun _ => h.bind (h.branchUnless _ _) fun _ => ?_
    refine h.bind (below ihb level) fun _ => h.bind (below ihs level) fun _ => ?_
    exact h.bind (h.emit _) fun _ => h.pure none
  | unknown =>
    intro level inChain
    rw [Lowering.node, Lowering.node]
    exact h.bind (h.enter _ _) fun _ => h.bind (h.unexpectedKind _) fun _ => h.pure none

/-- The same for programs, which start at the same level. -/
theorem program (h : Respects ctx ctx' 0 P) (tree : Option Node) :
    P (program ctx tree) (program ctx' tree) := by
  cases tree with
  | none => exact h.pure ()
  | some tree => exact h.bind (h.node tree 0 false) fun _ => h.pure ()

end Respects

end RealMode.Lowering
