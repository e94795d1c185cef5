import RealMode.Proofs.Lowering

/-!
# A counter of the depth

Lowering hands the level of a node down as an argument. A generator that is an object with
state keeps it as a counter instead: the counter goes up when a node is entered and down
again when the node is left, whether its lowering came to an end or stopped at a fault.
Here lowering is written in this way, and shown to do the same.

- `Counted` computations read and change the counter. `Counted.nested` is the bracket
  around a node; the cells of a chain after its first have none.
- `Counted.Refines`: from a given depth, a counted computation does what a computation
  does that is given this level, and leaves the counter as it was. The bracket keeps this
  (`Refines.nested`), and so it holds of every tree (`Counted.refines_node`).
-/

namespace RealMode

variable {α β : Type}

/-- A computation that lowers something and counts the depth. It leaves a counter after a
fault as well. -/
def Counted (α : Type) : Type :=
  Nat → Session → Step α × Nat

namespace Counted

/-- Returns a result and does nothing else. -/
protected def pure (a : α) : Counted α :=
  fun depth session => (⟨[], [], session, .ok a⟩, depth)

/-- Goes on with the result and the counter. -/
protected def bind (x : Counted α) (f : α → Counted β) : Counted β :=
  fun depth session =>
    match x depth session with
    | (⟨code, warnings, session, .error fault⟩, depth) =>
      (⟨code, warnings, session, .error fault⟩, depth)
    | (⟨code, warnings, session, .ok a⟩, depth) =>
      let (rest, depth) := f a depth session
      (⟨code ++ rest.code, warnings ++ rest.warnings, rest.session, rest.result⟩, depth)

instance : Monad Counted where
  pure := Counted.pure
  bind := Counted.bind

/-- What does not count is done as it is. -/
def lift (x : Lowering α) : Counted α :=
  fun depth session => (x session, depth)

instance : MonadLift Lowering Counted where
  monadLift := lift

/-- Goes one level down and comes back, with a result or with a fault, unless the limit is
reached. -/
def nested (ctx : Context) (kind : Kind) (x : Counted α) : Counted α :=
  fun depth session =>
    if ctx.settings.maxDepth ≤ depth then
      (⟨[], [], session, .error (.tooDeep ctx.settings.maxDepth kind)⟩, depth)
    else
      let (step, depth) := x (depth + 1) session
      (step, depth - 1)

/-- A sequence cell. Only the first of a chain is a level. -/
def cell (ctx : Context) (inChain : Bool) (x : Counted α) : Counted α :=
  if inChain then x else nested ctx .sequence x

/-- Runs a computation and leaves no comparison. -/
def withoutFlags (x : Counted (Option Comparison)) : Counted (Option Comparison) :=
  fun depth session =>
    let (step, depth) := x depth session
    ({ step with result := step.result.map fun _ => none }, depth)

open Lowering in
/-- Lowers a node at the depth that the counter has. -/
def node (ctx : Context) (inChain : Bool) : Node → Counted (Option Comparison)
  | .number text => nested ctx .number do
    number text
    return none
  | .string text => nested ctx .string do
    string ctx text
    return none
  | .boolean value => nested ctx .boolean do
    emitInstrs [.mov ax (imm (if value then 1 else 0))]
    return none
  | .identifier name => nested ctx .identifier do
    identifier name
    return none
  | .operator op lhs rhs => nested ctx .operator do
    materialize (← node ctx false lhs)
    emitInstrs [.push .ax]
    materialize (← node ctx false rhs)
    emitInstrs ([.mov bx ax, .pop .ax] ++ operatorInstrs op)
    return op.comparison?
  | .assignment target value => nested ctx .assignment do
    let kind := (← symbols).kindOf value
    let message ← require (.undeclaredVariable target) (ctx.labels.message? target)
    match value with
    | .string text => storeLiteral ctx target message text
    | value => do
      materialize (← node ctx false value)
      storeWord ctx target message kind
    complete ctx target kind value
    return none
  | .last first => cell ctx inChain (withoutFlags (node ctx false first))
  | .chain first next => cell ctx inChain do
    let _ ← node ctx false first
    withoutFlags (node ctx true next)
  | .ifThen cond body => nested ctx .conditional do
    let tag ← nextTag .conditional
    branchUnless (.otherwise tag) (← node ctx false cond)
    let _ ← node ctx false body
    emit [.instr (.jump (.endIf tag)), .label (.otherwise tag), .label (.endIf tag)]
    return none
  | .ifElse _ cond body alternative => nested ctx .conditional do
    let tag ← nextTag .conditional
    branchUnless (.otherwise tag) (← node ctx false cond)
    let _ ← node ctx false body
    emit [.instr (.jump (.endIf tag)), .label (.otherwise tag)]
    let _ ← node ctx false alternative
    emit [.label (.endIf tag)]
    return none
  | .whileLoop cond body => nested ctx .whileLoop do
    let tag ← nextTag .whileLoop
    emit [.label (.whileStart tag)]
    branchUnless (.whileEnd tag) (← node ctx false cond)
    let _ ← node ctx false body
    emit [.instr (.jump (.whileStart tag)), .label (.whileEnd tag)]
    return none
  | .forLoop init cond step body => nested ctx .forLoop do
    let tag ← nextTag .forLoop
    let _ ← node ctx false init
    emit [.label (.forStart tag)]
    branchUnless (.forEnd tag) (← node ctx false cond)
    let _ ← node ctx false body
    let _ ← node ctx false step
    emit [.instr (.jump (.forStart tag)), .label (.forEnd tag)]
    return none
  | .unknown => nested ctx .unknown do
    warn (.unexpectedKind .unknown)
    return none

/-- Lowers a program, if there is one. -/
def program (ctx : Context) : Option Node → Counted Unit
  | some tree => do
    let _ ← node ctx false tree
    return ()
  | none => Counted.pure ()

/-! ## Refinement -/

/-- From this depth the counted computation does what the other one does, and leaves the
counter as it was, also after a fault. -/
def Refines (depth : Nat) (x : Counted α) (y : Lowering α) : Prop :=
  ∀ session, x depth session = (y session, depth)

namespace Refines

variable {depth : Nat}

theorem pure (a : α) : Refines depth (Pure.pure a) (Pure.pure a : Lowering α) :=
  fun _ => rfl

theorem lift (x : Lowering α) : Refines depth (liftM x) x :=
  fun _ => rfl

theorem bind {x : Counted α} {y : Lowering α} {f : α → Counted β} {g : α → Lowering β}
    (hx : Refines depth x y) (hf : ∀ a, Refines depth (f a) (g a)) :
    Refines depth (x >>= f) (y >>= g) := by
  intro session
  show Counted.bind x f depth session = ((y session).andThen g, depth)
  rw [Counted.bind, hx session]
  rcases y session with ⟨code, warnings, session', fault | a⟩
  · rfl
  · simp only [hf a session']
    rfl

/-- What is done before something counted. -/
theorem after {x : Lowering α} {f : α → Counted β} {g : α → Lowering β}
    (hf : ∀ a, Refines depth (f a) (g a)) : Refines depth (liftM x >>= f) (x >>= g) :=
  (lift x).bind hf

theorem withoutFlags {x : Counted (Option Comparison)}
    {y : Lowering (Option Comparison)} (h : Refines depth x y) :
    Refines depth (withoutFlags x) (Lowering.withoutFlags y) := by
  intro session
  rw [Counted.withoutFlags, h session]
  rfl

/-- The bracket around a node: what is in it is one level further down, and on both exits
the counter is back. -/
theorem nested {ctx : Context} {kind : Kind} {x : Counted α} {y : Lowering α}
    (h : Refines (depth + 1) x y) :
    Refines depth (nested ctx kind x) (Lowering.enter ctx depth kind >>= fun _ => y) := by
  intro session
  rw [Counted.nested, Lowering.bind_apply, Lowering.enter]
  by_cases hlimit : ctx.settings.maxDepth ≤ depth
  · rw [if_pos hlimit, if_pos hlimit]
    rfl
  · rw [if_neg hlimit, if_neg hlimit, h session]
    rfl

/-- A cell is a node only at the beginning of a chain. -/
theorem cell {ctx : Context} {x : Counted α} {f : Nat → Lowering α}
    (h : ∀ depth, Refines depth x (f depth)) (inChain : Bool) :
    Refines depth (cell ctx inChain x) (Lowering.cellLevel ctx depth inChain >>= f) := by
  cases inChain with
  | true => exact h depth
  | false =>
    intro session
    have hnested : Refines depth (Counted.nested ctx .sequence x) _ :=
      nested (h (depth + 1))
    rw [Counted.cell, if_neg Bool.false_ne_true, hnested session, Lowering.cellLevel,
      if_neg Bool.false_ne_true, Lowering.bind_apply, Lowering.bind_apply,
      Lowering.bind_apply]
    unfold Lowering.enter
    split
    · rfl
    · rfl

end Refines

section Assignment

variable {ctx : Context} {inChain : Bool} {target text : String} {value : Node}

open Lowering

theorem node_assign_literal :
    node ctx inChain (.assignment target (.string text)) = nested ctx .assignment (do
      let message ← require (.undeclaredVariable target) (ctx.labels.message? target)
      storeLiteral ctx target message text
      complete ctx target .string (.string text)
      return none) := rfl

theorem node_assign_word (hvalue : ∀ text, value ≠ .string text) :
    node ctx inChain (.assignment target value) = nested ctx .assignment (do
      let table ← symbols
      let message ← require (.undeclaredVariable target) (ctx.labels.message? target)
      materialize (← node ctx false value)
      storeWord ctx target message (table.kindOf value)
      complete ctx target (table.kindOf value) value
      return none) := by
  cases value with
  | string text => exact absurd rfl (hvalue text)
  | _ => rfl

end Assignment

/-- **The counter is the level.** At whatever depth a node is met, lowering it with the
counter does what lowering it at this level does, and the counter is back when the node is
left. -/
theorem refines_node (ctx : Context) (tree : Node) :
    ∀ (depth : Nat) (inChain : Bool),
      Refines depth (node ctx inChain tree) (Lowering.node ctx depth inChain tree) := by
  induction tree with
  | number text =>
    intro depth inChain
    rw [node, Lowering.node]
    exact .nested (.after fun _ => .pure none)
  | string text =>
    intro depth inChain
    rw [node, Lowering.node]
    exact .nested (.after fun _ => .pure none)
  | boolean value =>
    intro depth inChain
    rw [node, Lowering.node]
    exact .nested (.after fun _ => .pure none)
  | identifier name =>
    intro depth inChain
    rw [node, Lowering.node]
    exact .nested (.after fun _ => .pure none)
  | operator op lhs rhs ihl ihr =>
    intro depth inChain
    rw [node, Lowering.node]
    refine .nested ((ihl _ _).bind fun _ => .after fun _ => .after fun _ => ?_)
    exact (ihr _ _).bind fun _ => .after fun _ => .after fun _ => .pure _
  | assignment target value ih =>
    intro depth inChain
    rcases value.eq_string_or_ne with ⟨text, rfl⟩ | hne
    · rw [node_assign_literal, Lowering.node_assign_literal]
      exact .nested (.after fun _ => .after fun _ => .after fun _ => .pure none)
    · rw [node_assign_word hne, Lowering.node_assign_word hne]
      refine .nested (.after fun _ => .after fun _ => (ih _ _).bind fun _ =>
        .after fun _ => ?_)
      exact .after fun _ => .after fun _ => .pure none
  | last first ih =>
    intro depth inChain
    rw [node, Lowering.node]
    exact .cell (fun _ => (ih _ _).withoutFlags) inChain
  | chain first next ih₁ ih₂ =>
    intro depth inChain
    rw [node, Lowering.node]
    exact .cell (fun _ => (ih₁ _ _).bind fun _ => (ih₂ _ _).withoutFlags) inChain
  | ifThen cond body ihc ihb =>
    intro depth inChain
    rw [node, Lowering.node]
    refine .nested (.after fun tag => (ihc _ _).bind fun _ => .after fun _ => ?_)
    exact (ihb _ _).bind fun _ => .after fun _ => .pure none
  | ifElse branch cond body alternative ihc ihb iha =>
    intro depth inChain
    rw [node, Lowering.node]
    refine .nested (.after fun tag => (ihc _ _).bind fun _ => .after fun _ => ?_)
    refine (ihb _ _).bind fun _ => .after fun _ => ?_
    exact (iha _ _).bind fun _ => .after fun _ => .pure none
  | whileLoop cond body ihc ihb =>
    intro depth inChain
    rw [node, Lowering.node]
    refine .nested (.after fun tag => .after fun _ => (ihc _ _).bind fun _ =>
      .after fun _ => ?_)
    exact (ihb _ _).bind fun _ => .after fun _ => .pure none
  | forLoop init cond step body ihi ihc ihs ihb =>
    intro depth inChain
    rw [node, Lowering.node]
    refine .nested (.after fun tag => (ihi _ _).bind fun _ => .after fun _ => ?_)
    refine (ihc _ _).bind fun _ => .after fun _ => (ihb _ _).bind fun _ => ?_
    exact (ihs _ _).bind fun _ => .after fun _ => .pure none
  | unknown =>
    intro depth inChain
    rw [node, Lowering.node]
    exact .nested (.after fun _ => .pure none)

/-- A program starts and ends with the counter at zero. -/
theorem refines_program (ctx : Context) (tree : Option Node) :
    Refines 0 (program ctx tree) (Lowering.program ctx tree) := by
  cases tree with
  | none => exact .pure ()
  | some tree => exact (refines_node ctx tree 0 false).bind fun _ => .pure ()

end Counted

end RealMode
