import RealMode.Lowering.Node
import RealMode.Proofs.Tree

/-!
# Lowering without a fault

`Lowering.node` is a computation that may stop at a fault. Most of what is said about
generated code is said about trees that are lowered to the end. `Lowers` says what comes
out for them, with one rule per kind of node: the code and the warnings in terms of those
of the subtrees, and the sessions that the subtrees start from.

- `bind_eq_ok_iff` peels one computation off a sequence that went through.
- `lowers_of_node_eq`: the rules hold of every run of `Lowering.node` without a fault.

The pieces of code that cannot fail (`materialize`, `branchUnless`, `storeWord`,
`complete`) stand in the rules as what they yield from a session.
-/

namespace RealMode

/-- The session after the next number of a construct is taken. -/
def Session.spend (s : Session) (construct : Construct) : Session :=
  { s with counters := s.counters.advance construct }

namespace Lowering

variable {α β : Type}

/-! ## Computations that went through -/

/-- The level of the statements of a sequence cell at the given level. -/
def innerLevel (level : Nat) (inChain : Bool) : Nat :=
  if inChain then level else level + 1

section Peeling

variable {x : Lowering α} {f : α → Lowering β} {ctx : Context} {s s' : Session}
  {code : List Code} {warnings : List Warning} {a : α} {b : β}

/-- A sequence goes through when both of its parts do, the second from where the first
ends. -/
theorem bind_eq_ok_iff :
    (x >>= f) s = ⟨code, warnings, s', .ok b⟩ ↔
      ∃ code₁ warnings₁ s₁ a, x s = ⟨code₁, warnings₁, s₁, .ok a⟩ ∧
        ∃ code₂ warnings₂, f a s₁ = ⟨code₂, warnings₂, s', .ok b⟩ ∧
          code = code₁ ++ code₂ ∧ warnings = warnings₁ ++ warnings₂ := by
  rw [bind_apply]
  constructor
  · intro h
    rcases hx : x s with ⟨code₁, warnings₁, s₁, fault | a⟩
    · rw [hx] at h
      exact absurd (congrArg Step.result h) (by simp [Step.andThen])
    · rw [hx] at h
      obtain ⟨rfl, rfl, rfl, hb⟩ := Step.mk.inj h
      refine ⟨code₁, warnings₁, s₁, a, rfl, _, _, ?_, rfl, rfl⟩
      rw [← hb]
  · rintro ⟨code₁, warnings₁, s₁, a, hx, code₂, warnings₂, hf, rfl, rfl⟩
    rw [hx]
    show Step.mk (code₁ ++ (f a s₁).code) _ _ _ = _
    rw [hf]

/-- A step that only returns emits nothing and changes nothing. -/
theorem pure_eq_ok_iff {a b : α} :
    (pure a : Lowering α) s = ⟨code, warnings, s', .ok b⟩ ↔
      code = [] ∧ warnings = [] ∧ s' = s ∧ b = a := by
  simp [eq_comm]

/-- A node is entered when the limit leaves room for its level. -/
theorem enter_bind_eq_ok_iff {level : Nat} {kind : Kind} {f : Unit → Lowering β} :
    (enter ctx level kind >>= f) s = ⟨code, warnings, s', .ok b⟩ ↔
      level < ctx.settings.maxDepth ∧ f () s = ⟨code, warnings, s', .ok b⟩ := by
  rw [bind_apply]
  by_cases h : ctx.settings.maxDepth ≤ level
  · simp [enter, h, fail, Step.andThen, Nat.not_lt.mpr h]
  · rw [enter, if_neg h]
    exact (and_iff_right (Nat.not_le.mp h)).symm

/-- What is required must be there. -/
theorem require_bind_eq_ok_iff {fault : Fault} {o : Option α} :
    (require fault o >>= f) s = ⟨code, warnings, s', .ok b⟩ ↔
      ∃ a, o = some a ∧ f a s = ⟨code, warnings, s', .ok b⟩ := by
  cases o with
  | none => simp [require, fail, Step.andThen]
  | some a =>
    constructor
    · intro h
      exact ⟨a, rfl, h⟩
    · rintro ⟨_, ha, h⟩
      obtain rfl := Option.some.inj ha
      exact h

theorem symbols_bind {f : SymbolTable → Lowering β} :
    (symbols >>= f) s = f s.symbols s := rfl

theorem nextTag_bind {construct : Construct} {f : Nat → Lowering β} :
    (nextTag construct >>= f) s = f (s.counters.get construct) (s.spend construct) := rfl

/-- Emitted code stands before the code of what follows. -/
theorem emit_bind_eq_ok_iff {emitted : List Code} {f : Unit → Lowering β} :
    (emit emitted >>= f) s = ⟨code, warnings, s', .ok b⟩ ↔
      ∃ rest, f () s = ⟨rest, warnings, s', .ok b⟩ ∧ code = emitted ++ rest := by
  simp only [bind_eq_ok_iff, emit]
  constructor
  · rintro ⟨_, _, _, _, hx, rest, _, hf, rfl, rfl⟩
    obtain ⟨rfl, rfl, rfl, -⟩ := Step.mk.inj hx
    exact ⟨rest, hf, rfl⟩
  · rintro ⟨rest, hf, rfl⟩
    exact ⟨_, _, _, _, rfl, rest, warnings, hf, rfl, rfl⟩

/-- Turning flags into a word cannot fail and warns of nothing. -/
theorem materialize_bind_eq_ok_iff {flags : Option Comparison} {f : Unit → Lowering β} :
    (materialize flags >>= f) s = ⟨code, warnings, s', .ok b⟩ ↔
      ∃ rest, f () (materialize flags s).session = ⟨rest, warnings, s', .ok b⟩ ∧
        code = (materialize flags s).code ++ rest := by
  have hx : materialize flags s =
      ⟨(materialize flags s).code, [], (materialize flags s).session, .ok ()⟩ := by
    cases flags <;> rfl
  rw [bind_eq_ok_iff]
  constructor
  · rintro ⟨_, _, _, _, hx', rest, _, hf, rfl, rfl⟩
    rw [hx] at hx'
    obtain ⟨rfl, rfl, rfl, -⟩ := Step.mk.inj hx'
    exact ⟨rest, hf, rfl⟩
  · rintro ⟨rest, hf, rfl⟩
    exact ⟨_, _, _, _, hx, rest, warnings, hf, rfl, rfl⟩

theorem branchUnless_bind_eq_ok_iff {target : CodeLabel} {flags : Option Comparison}
    {f : Unit → Lowering β} :
    (branchUnless target flags >>= f) s = ⟨code, warnings, s', .ok b⟩ ↔
      ∃ rest, f () s = ⟨rest, warnings, s', .ok b⟩ ∧
        code = (branchUnless target flags s).code ++ rest := by
  cases flags <;> exact emit_bind_eq_ok_iff

theorem storeWord_bind_eq_ok_iff {target message : String} {kind : ValueKind}
    {f : Unit → Lowering β} :
    (storeWord ctx target message kind >>= f) s = ⟨code, warnings, s', .ok b⟩ ↔
      ∃ rest, f () s = ⟨rest, warnings, s', .ok b⟩ ∧
        code = (storeWord ctx target message kind s).code ++ rest := by
  unfold storeWord
  split <;> exact emit_bind_eq_ok_iff

/-- Recording an assignment emits nothing. -/
theorem complete_bind_eq_ok_iff {target : String} {kind : ValueKind} {value : Node}
    {f : Unit → Lowering β} :
    (complete ctx target kind value >>= f) s = ⟨code, warnings, s', .ok b⟩ ↔
      ∃ rest, f () (complete ctx target kind value s).session = ⟨code, rest, s', .ok b⟩ ∧
        warnings = (complete ctx target kind value s).warnings ++ rest := by
  rw [bind_eq_ok_iff]
  constructor
  · rintro ⟨_, _, _, _, hx, _, rest, hf, rfl, rfl⟩
    obtain ⟨rfl, rfl, rfl, -⟩ := Step.mk.inj hx
    exact ⟨rest, hf, rfl⟩
  · rintro ⟨rest, hf, rfl⟩
    exact ⟨_, _, _, _, rfl, code, rest, hf, rfl, rfl⟩

/-- A step without its flags succeeds when the step does. -/
theorem withoutFlags_eq_ok_iff {x : Lowering (Option Comparison)}
    {flags : Option Comparison} :
    withoutFlags x s = ⟨code, warnings, s', .ok flags⟩ ↔
      flags = none ∧ ∃ inner, x s = ⟨code, warnings, s', .ok inner⟩ := by
  unfold withoutFlags
  rcases x s with ⟨code₁, warnings₁, s₁, fault | a⟩
  · simp [Except.map]
  · simp [Except.map, eq_comm, and_comm, and_left_comm, and_assoc]

/-- A sequence cell takes a level unless it goes on with a chain. -/
theorem cellLevel_bind_eq_ok_iff {level : Nat} {inChain : Bool} {f : Nat → Lowering β} :
    (cellLevel ctx level inChain >>= f) s = ⟨code, warnings, s', .ok b⟩ ↔
      (inChain = false → level < ctx.settings.maxDepth) ∧
        f (innerLevel level inChain) s = ⟨code, warnings, s', .ok b⟩ := by
  cases inChain with
  | true =>
    constructor
    · intro h
      exact ⟨nofun, h⟩
    · rintro ⟨-, h⟩
      exact h
  | false =>
    by_cases h : ctx.settings.maxDepth ≤ level
    · simp [cellLevel, enter, h, fail, Step.andThen, Nat.not_lt.mpr h]
    · have hlevel := Nat.not_le.mp h
      have hcell : cellLevel ctx level false s = ⟨[], [], s, .ok (level + 1)⟩ := by
        simp [cellLevel, enter, h, Lowering.pure, Step.andThen]
      rw [bind_apply, hcell]
      exact ⟨fun h => ⟨fun _ => hlevel, h⟩, fun h => h.2⟩

end Peeling

/-! ## Assignments

The value decides how an assignment is lowered: the address of a literal is stored without
lowering the literal as a node. -/

/-- The assignment of a string literal is lowered without lowering the literal. -/
theorem node_assign_literal {ctx : Context} {level : Nat} {inChain : Bool}
    {target text : String} :
    node ctx level inChain (.assignment target (.string text)) = (do
      enter ctx level .assignment
      let message ← require (.undeclaredVariable target) (ctx.labels.message? target)
      storeLiteral ctx target message text
      complete ctx target .string (.string text)
      return none) := rfl

/-- The assignment of anything else lowers the value first. -/
theorem node_assign_word {ctx : Context} {level : Nat} {inChain : Bool} {target : String}
    {value : Node} (hvalue : ∀ text, value ≠ .string text) :
    node ctx level inChain (.assignment target value) = (do
      enter ctx level .assignment
      let table ← symbols
      let message ← require (.undeclaredVariable target) (ctx.labels.message? target)
      materialize (← node ctx (level + 1) false value)
      storeWord ctx target message (table.kindOf value)
      complete ctx target (table.kindOf value) value
      return none) := by
  cases value with
  | string text => exact absurd rfl (hvalue text)
  | _ => rfl

/-! ## The rules -/

/-- `Lowers ctx level inChain tree s code warnings s' flags`: lowering the tree from the
session `s` goes through. It yields the code, the warnings and the session `s'`, and
leaves the flags of a comparison if the tree is one. -/
inductive Lowers (ctx : Context) :
    Nat → Bool → Node → Session → List Code → List Warning → Session →
      Option Comparison → Prop
  | number {level inChain s text value} :
      level < ctx.settings.maxDepth → Literal.value? text = some value →
      Lowers ctx level inChain (.number text) s [.instr (.mov ax (imm value))]
        (if Literal.fitsWord value then [] else [.outOfRange value text]) s none
  | string {level inChain s text label} :
      level < ctx.settings.maxDepth → ctx.labels.string? text = some label →
      Lowers ctx level inChain (.string text) s
        (List.map .instr (printItem label ++ printItem ctx.labels.newLine)) [] s none
  | boolean {level inChain s value} :
      level < ctx.settings.maxDepth →
      Lowers ctx level inChain (.boolean value) s
        [.instr (.mov ax (imm (if value then 1 else 0)))] [] s none
  | identifier {level inChain s name} :
      level < ctx.settings.maxDepth →
      Lowers ctx level inChain (.identifier name) s [.instr (.mov ax (.cell name))]
        (identifier name s).warnings (identifier name s).session none
  | operator
      {level inChain s op lhs rhs code₁ warnings₁ s₁ flags₁ code₂ warnings₂ s₂ flags₂} :
      level < ctx.settings.maxDepth →
      Lowers ctx (level + 1) false lhs s code₁ warnings₁ s₁ flags₁ →
      Lowers ctx (level + 1) false rhs (materialize flags₁ s₁).session code₂ warnings₂
        s₂ flags₂ →
      Lowers ctx level inChain (.operator op lhs rhs) s
        (code₁ ++ (materialize flags₁ s₁).code ++ .instr (.push .ax) ::
          (code₂ ++ (materialize flags₂ s₂).code ++
            List.map .instr ([.mov bx ax, .pop .ax] ++ operatorInstrs op)))
        (warnings₁ ++ warnings₂) (materialize flags₂ s₂).session op.comparison?
  | assignLiteral {level inChain s target text message label} :
      level < ctx.settings.maxDepth →
      ctx.labels.message? target = some message → ctx.labels.string? text = some label →
      Lowers ctx level inChain (.assignment target (.string text)) s
        (List.map .instr ([.lea .ax label, .mov (.cell target) ax] ++ printItem message ++
          printItem label ++ printItem ctx.labels.newLine))
        (complete ctx target .string (.string text) s).warnings
        (complete ctx target .string (.string text) s).session none
  | assignWord {level inChain s target value message code₁ warnings₁ s₁ flags} :
      level < ctx.settings.maxDepth →
      ctx.labels.message? target = some message → (∀ text, value ≠ .string text) →
      Lowers ctx (level + 1) false value s code₁ warnings₁ s₁ flags →
      Lowers ctx level inChain (.assignment target value) s
        (code₁ ++ (materialize flags s₁).code ++
          (storeWord ctx target message (s.symbols.kindOf value)
            (materialize flags s₁).session).code)
        (warnings₁ ++
          (complete ctx target (s.symbols.kindOf value) value
            (materialize flags s₁).session).warnings)
        (complete ctx target (s.symbols.kindOf value) value
          (materialize flags s₁).session).session none
  | last {level inChain first s code warnings s' flags} :
      (inChain = false → level < ctx.settings.maxDepth) →
      Lowers ctx (innerLevel level inChain) false first s code warnings s' flags →
      Lowers ctx level inChain (.last first) s code warnings s' none
  | chain {level inChain first next s code₁ warnings₁ s₁ flags₁ code₂ warnings₂ s₂
      flags₂} :
      (inChain = false → level < ctx.settings.maxDepth) →
      Lowers ctx (innerLevel level inChain) false first s code₁ warnings₁ s₁ flags₁ →
      Lowers ctx (innerLevel level inChain) true next s₁ code₂ warnings₂ s₂ flags₂ →
      Lowers ctx level inChain (.chain first next) s (code₁ ++ code₂)
        (warnings₁ ++ warnings₂) s₂ none
  | ifThen {level inChain cond body s tag code₁ warnings₁ s₁ flags₁ code₂ warnings₂ s₂
      flags₂} :
      level < ctx.settings.maxDepth →
      s.counters.get .conditional = tag →
      Lowers ctx (level + 1) false cond (s.spend .conditional) code₁ warnings₁ s₁ flags₁ →
      Lowers ctx (level + 1) false body s₁ code₂ warnings₂ s₂ flags₂ →
      Lowers ctx level inChain (.ifThen cond body) s
        (code₁ ++ (branchUnless (.otherwise tag) flags₁ s₁).code ++ code₂ ++
          [.instr (.jump (.endIf tag)), .label (.otherwise tag), .label (.endIf tag)])
        (warnings₁ ++ warnings₂) s₂ none
  | ifElse {level inChain branch cond body alternative s tag code₁ warnings₁ s₁ flags₁
        code₂ warnings₂ s₂ flags₂ code₃ warnings₃ s₃ flags₃} :
      level < ctx.settings.maxDepth →
      s.counters.get .conditional = tag →
      Lowers ctx (level + 1) false cond (s.spend .conditional) code₁ warnings₁ s₁ flags₁ →
      Lowers ctx (level + 1) false body s₁ code₂ warnings₂ s₂ flags₂ →
      Lowers ctx (level + 1) false alternative s₂ code₃ warnings₃ s₃ flags₃ →
      Lowers ctx level inChain (.ifElse branch cond body alternative) s
        (code₁ ++ (branchUnless (.otherwise tag) flags₁ s₁).code ++ code₂ ++
          .instr (.jump (.endIf tag)) :: .label (.otherwise tag) ::
            (code₃ ++ [.label (.endIf tag)]))
        (warnings₁ ++ (warnings₂ ++ warnings₃)) s₃ none
  | whileLoop {level inChain cond body s tag code₁ warnings₁ s₁ flags₁
        code₂ warnings₂ s₂ flags₂} :
      level < ctx.settings.maxDepth →
      s.counters.get .whileLoop = tag →
      Lowers ctx (level + 1) false cond (s.spend .whileLoop) code₁ warnings₁ s₁ flags₁ →
      Lowers ctx (level + 1) false body s₁ code₂ warnings₂ s₂ flags₂ →
      Lowers ctx level inChain (.whileLoop cond body) s
        (.label (.whileStart tag) ::
          (code₁ ++ (branchUnless (.whileEnd tag) flags₁ s₁).code ++ code₂ ++
            [.instr (.jump (.whileStart tag)), .label (.whileEnd tag)]))
        (warnings₁ ++ warnings₂) s₂ none
  | forLoop {level inChain init cond step body s tag code₁ warnings₁ s₁ flags₁
        code₂ warnings₂ s₂ flags₂ code₃ warnings₃ s₃ flags₃ code₄ warnings₄ s₄ flags₄} :
      level < ctx.settings.maxDepth →
      s.counters.get .forLoop = tag →
      Lowers ctx (level + 1) false init (s.spend .forLoop) code₁ warnings₁ s₁ flags₁ →
      Lowers ctx (level + 1) false cond s₁ code₂ warnings₂ s₂ flags₂ →
      Lowers ctx (level + 1) false body s₂ code₃ warnings₃ s₃ flags₃ →
      Lowers ctx (level + 1) false step s₃ code₄ warnings₄ s₄ flags₄ →
      Lowers ctx level inChain (.forLoop init cond step body) s
        (code₁ ++ .label (.forStart tag) ::
          (code₂ ++ (branchUnless (.forEnd tag) flags₂ s₂).code ++ (code₃ ++ code₄) ++
            [.instr (.jump (.forStart tag)), .label (.forEnd tag)]))
        (warnings₁ ++ (warnings₂ ++ (warnings₃ ++ warnings₄))) s₄ none
  | unknown {level inChain s} :
      level < ctx.settings.maxDepth →
      Lowers ctx level inChain .unknown s [] [.unexpectedKind .unknown] s none

variable {ctx : Context}

theorem lowers_of_node_eq {tree : Node} :
    ∀ {level : Nat} {inChain : Bool} {s s' : Session} {code : List Code}
      {warnings : List Warning} {flags : Option Comparison},
      node ctx level inChain tree s = ⟨code, warnings, s', .ok flags⟩ →
      Lowers ctx level inChain tree s code warnings s' flags := by
  induction tree with
  | number text =>
    intro level inChain s s' code warnings flags h
    rw [node, enter_bind_eq_ok_iff] at h
    obtain ⟨hlevel, h⟩ := h
    obtain ⟨_, _, _, _, h₁, _, _, h₂, rfl, rfl⟩ := bind_eq_ok_iff.mp h
    obtain ⟨rfl, rfl, rfl, rfl⟩ := pure_eq_ok_iff.mp h₂
    obtain ⟨value, hvalue, h₃⟩ := require_bind_eq_ok_iff.mp h₁
    by_cases hfits : Literal.fitsWord value
    · rw [if_neg (by simp [hfits])] at h₃
      obtain ⟨rfl, rfl, rfl, -⟩ := Step.mk.inj h₃
      simpa [hfits] using Lowers.number hlevel hvalue
    · rw [if_pos (by simp [hfits])] at h₃
      obtain ⟨rfl, rfl, rfl, -⟩ := Step.mk.inj h₃
      simpa [hfits, emitInstrs, emit] using Lowers.number hlevel hvalue
  | string text =>
    intro level inChain s s' code warnings flags h
    rw [node, enter_bind_eq_ok_iff] at h
    obtain ⟨hlevel, h⟩ := h
    obtain ⟨_, _, _, _, h₁, _, _, h₂, rfl, rfl⟩ := bind_eq_ok_iff.mp h
    obtain ⟨rfl, rfl, rfl, rfl⟩ := pure_eq_ok_iff.mp h₂
    obtain ⟨label, hlabel, h₃⟩ := require_bind_eq_ok_iff.mp h₁
    obtain ⟨rfl, rfl, rfl, -⟩ := Step.mk.inj h₃
    simpa using Lowers.string hlevel hlabel
  | boolean value =>
    intro level inChain s s' code warnings flags h
    rw [node, enter_bind_eq_ok_iff] at h
    obtain ⟨hlevel, h⟩ := h
    obtain ⟨_, h₁, rfl⟩ := emit_bind_eq_ok_iff.mp h
    obtain ⟨rfl, rfl, rfl, rfl⟩ := pure_eq_ok_iff.mp h₁
    exact .boolean hlevel
  | identifier name =>
    intro level inChain s s' code warnings flags h
    rw [node, enter_bind_eq_ok_iff] at h
    obtain ⟨hlevel, h⟩ := h
    obtain ⟨_, _, _, _, h₁, _, _, h₂, rfl, rfl⟩ := bind_eq_ok_iff.mp h
    obtain ⟨rfl, rfl, rfl, rfl⟩ := pure_eq_ok_iff.mp h₂
    have hcode : (identifier name s).code = [.instr (.mov ax (.cell name))] := rfl
    rw [h₁] at hcode
    obtain rfl := hcode
    have h₄ : Lowers ctx level inChain (.identifier name) s _ (identifier name s).warnings
        (identifier name s).session none := .identifier hlevel
    rw [h₁] at h₄
    simpa using h₄
  | operator op lhs rhs ihl ihr =>
    intro level inChain s s' code warnings flags h
    rw [node, enter_bind_eq_ok_iff] at h
    obtain ⟨hlevel, h⟩ := h
    obtain ⟨code₁, warnings₁, s₁, flags₁, hl, _, _, h₁, rfl, rfl⟩ := bind_eq_ok_iff.mp h
    obtain ⟨_, h₂, rfl⟩ := materialize_bind_eq_ok_iff.mp h₁
    obtain ⟨_, h₃, rfl⟩ := emit_bind_eq_ok_iff.mp h₂
    obtain ⟨code₂, warnings₂, s₂, flags₂, hr, _, _, h₄, rfl, rfl⟩ := bind_eq_ok_iff.mp h₃
    obtain ⟨_, h₅, rfl⟩ := materialize_bind_eq_ok_iff.mp h₄
    obtain ⟨_, h₆, rfl⟩ := emit_bind_eq_ok_iff.mp h₅
    obtain ⟨rfl, rfl, rfl, rfl⟩ := pure_eq_ok_iff.mp h₆
    simpa using Lowers.operator hlevel (ihl hl) (ihr hr)
  | assignment target value ih =>
    intro level inChain s s' code warnings flags h
    rcases value.eq_string_or_ne with ⟨text, rfl⟩ | hne
    · rw [node_assign_literal, enter_bind_eq_ok_iff] at h
      obtain ⟨hlevel, h⟩ := h
      obtain ⟨message, hmessage, h₁⟩ := require_bind_eq_ok_iff.mp h
      obtain ⟨_, _, _, _, h₂, _, _, h₃, rfl, rfl⟩ := bind_eq_ok_iff.mp h₁
      obtain ⟨label, hlabel, h₄⟩ := require_bind_eq_ok_iff.mp h₂
      obtain ⟨rfl, rfl, rfl, -⟩ := Step.mk.inj h₄
      obtain ⟨_, h₅, rfl⟩ := complete_bind_eq_ok_iff.mp h₃
      obtain ⟨rfl, rfl, rfl, rfl⟩ := pure_eq_ok_iff.mp h₅
      simpa using Lowers.assignLiteral hlevel hmessage hlabel
    · rw [node_assign_word hne, enter_bind_eq_ok_iff, symbols_bind] at h
      obtain ⟨hlevel, h⟩ := h
      obtain ⟨message, hmessage, h₁⟩ := require_bind_eq_ok_iff.mp h
      obtain ⟨code₁, warnings₁, s₁, flags₁, hnode, _, _, h₂, rfl, rfl⟩ :=
        bind_eq_ok_iff.mp h₁
      obtain ⟨_, h₃, rfl⟩ := materialize_bind_eq_ok_iff.mp h₂
      obtain ⟨_, h₄, rfl⟩ := storeWord_bind_eq_ok_iff.mp h₃
      obtain ⟨_, h₅, rfl⟩ := complete_bind_eq_ok_iff.mp h₄
      obtain ⟨rfl, rfl, rfl, rfl⟩ := pure_eq_ok_iff.mp h₅
      simpa using Lowers.assignWord hlevel hmessage hne (ih hnode)
  | last first ih =>
    intro level inChain s s' code warnings flags h
    rw [node, cellLevel_bind_eq_ok_iff, withoutFlags_eq_ok_iff] at h
    obtain ⟨hlevel, rfl, inner, h₁⟩ := h
    exact .last hlevel (ih h₁)
  | chain first next ih₁ ih₂ =>
    intro level inChain s s' code warnings flags h
    rw [node, cellLevel_bind_eq_ok_iff] at h
    obtain ⟨hlevel, h⟩ := h
    obtain ⟨code₁, warnings₁, s₁, flags₁, hfirst, _, _, h₁, rfl, rfl⟩ :=
      bind_eq_ok_iff.mp h
    obtain ⟨rfl, inner, hnext⟩ := withoutFlags_eq_ok_iff.mp h₁
    exact .chain hlevel (ih₁ hfirst) (ih₂ hnext)
  | ifThen cond body ihc ihb =>
    intro level inChain s s' code warnings flags h
    rw [node, enter_bind_eq_ok_iff, nextTag_bind] at h
    obtain ⟨hlevel, h⟩ := h
    obtain ⟨code₁, warnings₁, s₁, flags₁, hcond, _, _, h₁, rfl, rfl⟩ :=
      bind_eq_ok_iff.mp h
    obtain ⟨_, h₂, rfl⟩ := branchUnless_bind_eq_ok_iff.mp h₁
    obtain ⟨code₂, warnings₂, s₂, flags₂, hbody, _, _, h₃, rfl, rfl⟩ :=
      bind_eq_ok_iff.mp h₂
    obtain ⟨_, h₄, rfl⟩ := emit_bind_eq_ok_iff.mp h₃
    obtain ⟨rfl, rfl, rfl, rfl⟩ := pure_eq_ok_iff.mp h₄
    simpa using Lowers.ifThen hlevel rfl (ihc hcond) (ihb hbody)
  | ifElse branch cond body alternative ihc ihb iha =>
    intro level inChain s s' code warnings flags h
    rw [node, enter_bind_eq_ok_iff, nextTag_bind] at h
    obtain ⟨hlevel, h⟩ := h
    obtain ⟨code₁, warnings₁, s₁, flags₁, hcond, _, _, h₁, rfl, rfl⟩ :=
      bind_eq_ok_iff.mp h
    obtain ⟨_, h₂, rfl⟩ := branchUnless_bind_eq_ok_iff.mp h₁
    obtain ⟨code₂, warnings₂, s₂, flags₂, hbody, _, _, h₃, rfl, rfl⟩ :=
      bind_eq_ok_iff.mp h₂
    obtain ⟨_, h₄, rfl⟩ := emit_bind_eq_ok_iff.mp h₃
    obtain ⟨code₃, warnings₃, s₃, flags₃, halt, _, _, h₅, rfl, rfl⟩ :=
      bind_eq_ok_iff.mp h₄
    obtain ⟨_, h₆, rfl⟩ := emit_bind_eq_ok_iff.mp h₅
    obtain ⟨rfl, rfl, rfl, rfl⟩ := pure_eq_ok_iff.mp h₆
    simpa using Lowers.ifElse hlevel rfl (ihc hcond) (ihb hbody) (iha halt)
  | whileLoop cond body ihc ihb =>
    intro level inChain s s' code warnings flags h
    rw [node, enter_bind_eq_ok_iff, nextTag_bind] at h
    obtain ⟨hlevel, h⟩ := h
    obtain ⟨_, h₁, rfl⟩ := emit_bind_eq_ok_iff.mp h
    obtain ⟨code₁, warnings₁, s₁, flags₁, hcond, _, _, h₂, rfl, rfl⟩ :=
      bind_eq_ok_iff.mp h₁
    obtain ⟨_, h₃, rfl⟩ := branchUnless_bind_eq_ok_iff.mp h₂
    obtain ⟨code₂, warnings₂, s₂, flags₂, hbody, _, _, h₄, rfl, rfl⟩ :=
      bind_eq_ok_iff.mp h₃
    obtain ⟨_, h₅, rfl⟩ := emit_bind_eq_ok_iff.mp h₄
    obtain ⟨rfl, rfl, rfl, rfl⟩ := pure_eq_ok_iff.mp h₅
    simpa using Lowers.whileLoop hlevel rfl (ihc hcond) (ihb hbody)
  | forLoop init cond step body ihi ihc ihs ihb =>
    intro level inChain s s' code warnings flags h
    rw [node, enter_bind_eq_ok_iff, nextTag_bind] at h
    obtain ⟨hlevel, h⟩ := h
    obtain ⟨code₁, warnings₁, s₁, flags₁, hinit, _, _, h₁, rfl, rfl⟩ :=
      bind_eq_ok_iff.mp h
    obtain ⟨_, h₂, rfl⟩ := emit_bind_eq_ok_iff.mp h₁
    obtain ⟨code₂, warnings₂, s₂, flags₂, hcond, _, _, h₃, rfl, rfl⟩ :=
      bind_eq_ok_iff.mp h₂
    obtain ⟨_, h₄, rfl⟩ := branchUnless_bind_eq_ok_iff.mp h₃
    obtain ⟨code₃, warnings₃, s₃, flags₃, hbody, _, _, h₅, rfl, rfl⟩ :=
      bind_eq_ok_iff.mp h₄
    obtain ⟨code₄, warnings₄, s₄, flags₄, hstep, _, _, h₆, rfl, rfl⟩ :=
      bind_eq_ok_iff.mp h₅
    obtain ⟨_, h₇, rfl⟩ := emit_bind_eq_ok_iff.mp h₆
    obtain ⟨rfl, rfl, rfl, rfl⟩ := pure_eq_ok_iff.mp h₇
    simpa using Lowers.forLoop hlevel rfl (ihi hinit) (ihc hcond) (ihb hbody) (ihs hstep)
  | unknown =>
    intro level inChain s s' code warnings flags h
    rw [node, enter_bind_eq_ok_iff] at h
    obtain ⟨hlevel, h⟩ := h
    obtain ⟨rfl, rfl, rfl, hflags⟩ := Step.mk.inj h
    obtain rfl := Except.ok.inj hflags
    exact .unknown hlevel

/-- A program that goes through yields what its tree does. -/
theorem node_eq_of_program_ok {tree : Node} {s : Session}
    (h : (program ctx (some tree) s).result = .ok ()) :
    ∃ flags, node ctx 0 false tree s = ⟨(program ctx (some tree) s).code,
      (program ctx (some tree) s).warnings, (program ctx (some tree) s).session,
      .ok flags⟩ := by
  rcases hp : program ctx (some tree) s with ⟨code, warnings, s', result⟩
  rw [hp] at h
  obtain rfl : result = .ok () := h
  obtain ⟨code₁, warnings₁, s₁, flags, hnode, _, _, hpure, rfl, rfl⟩ :=
    bind_eq_ok_iff.mp hp
  obtain ⟨rfl, rfl, rfl, -⟩ := pure_eq_ok_iff.mp hpure
  exact ⟨flags, by rw [hnode, List.append_nil, List.append_nil]⟩

end Lowering

end RealMode
