import RealMode.Proofs.Lowering
import Std.Data.String.ToNat

/-!
# Code labels

The labels of generated code are numbered by four counters that a session carries from one
tree to the next. A number is taken before the subtrees are lowered, and its labels are
defined after some of them; a fault in between leaves the number taken and the labels
undefined.

The argument is an account. `spent c c'` is the number of times a label may have been
defined while the counters went from `c` to `c'`: once if its number was taken on the way.
`Accounted own x` says that the computation `x` defines no label more often than it has
spent for it, apart from the labels `own`, whose numbers were taken before; and exactly as
often when it goes through. Accounts add up along a sequence (`Accounted.bind`), a
construct that takes a number owes its labels to itself (`Accounted.nextTag`), and so
every tree is accounted for with nothing of its own (`Accounted.node`).
-/

namespace RealMode

/-! ## Labels and jumps of code -/

/-- The label that a piece of code defines. -/
def Code.label? : Code → Option CodeLabel
  | .label l => some l
  | .instr _ => none

/-- The label that an instruction may jump to. -/
def Instruction.target? : Instruction → Option CodeLabel
  | .jump target => some target
  | .jumpIf _ target => some target
  | .loop target => some target
  | _ => none

/-- The label that a piece of code may jump to. -/
def Code.target? : Code → Option CodeLabel
  | .label _ => none
  | .instr i => i.target?

/-- The labels that code defines, in order. -/
def definedLabels (code : List Code) : List CodeLabel :=
  code.filterMap Code.label?

/-- The labels that code jumps to, in order. -/
def jumpTargets (code : List Code) : List CodeLabel :=
  code.filterMap Code.target?

@[simp] theorem definedLabels_nil : definedLabels [] = [] := rfl

/-- Code defines what its two parts define, in order. -/
@[simp] theorem definedLabels_append (code₁ code₂ : List Code) :
    definedLabels (code₁ ++ code₂) = definedLabels code₁ ++ definedLabels code₂ :=
  List.filterMap_append

@[simp] theorem definedLabels_label (l : CodeLabel) (code : List Code) :
    definedLabels (.label l :: code) = l :: definedLabels code := rfl

@[simp] theorem definedLabels_instr (i : Instruction) (code : List Code) :
    definedLabels (.instr i :: code) = definedLabels code := rfl

@[simp] theorem definedLabels_map_instr (instrs : List Instruction) :
    definedLabels (instrs.map .instr) = [] := by
  induction instrs with
  | nil => rfl
  | cons i rest ih => exact ih

@[simp] theorem jumpTargets_nil : jumpTargets [] = [] := rfl

/-- Code jumps to where its two parts jump. -/
@[simp] theorem jumpTargets_append (code₁ code₂ : List Code) :
    jumpTargets (code₁ ++ code₂) = jumpTargets code₁ ++ jumpTargets code₂ :=
  List.filterMap_append

@[simp] theorem jumpTargets_label (l : CodeLabel) (code : List Code) :
    jumpTargets (.label l :: code) = jumpTargets code := rfl

@[simp] theorem jumpTargets_instr (i : Instruction) (code : List Code) :
    jumpTargets (.instr i :: code) = i.target?.toList ++ jumpTargets code := by
  cases h : i.target? <;> simp [jumpTargets, Code.target?, h]

/-! ## Labels of a construct -/

/-- The labels of the construct with the given number. -/
def Construct.labels : Construct → Nat → List CodeLabel
  | .conditional, tag => [.otherwise tag, .endIf tag]
  | .whileLoop, tag => [.whileStart tag, .whileEnd tag]
  | .forLoop, tag => [.forStart tag, .forEnd tag]
  | .boolean, tag => [.boolEnd tag]

/-- The construct that a label belongs to, with its number. -/
def CodeLabel.owner? : CodeLabel → Option (Construct × Nat)
  | .otherwise tag => some (.conditional, tag)
  | .endIf tag => some (.conditional, tag)
  | .whileStart tag => some (.whileLoop, tag)
  | .whileEnd tag => some (.whileLoop, tag)
  | .forStart tag => some (.forLoop, tag)
  | .forEnd tag => some (.forLoop, tag)
  | .boolEnd tag => some (.boolean, tag)
  | _ => none

/-- A construct has each of its labels once, and no other. -/
theorem Construct.count_labels (k : Construct) (tag : Nat) (l : CodeLabel) :
    (k.labels tag).count l = if l.owner? = some (k, tag) then 1 else 0 := by
  cases k <;> cases l <;> simp [labels, CodeLabel.owner?, List.count_cons,
    eq_comm (a := tag)]

/-- Labels are told apart by their text: the seven stems of numbered labels differ, and so
do the numbers as they are written. -/
theorem CodeLabel.text_injective {l l' : CodeLabel} (h : l.text = l'.text) : l = l' := by
  have hchars := congrArg String.toList h
  have hdigits : ∀ {m n : Nat}, Nat.toDigits 10 m = Nat.toDigits 10 n → m = n := by
    intro m n hmn
    exact Nat.repr_injective (congrArg String.ofList hmn)
  cases l <;> cases l' <;> simp [CodeLabel.text] at hchars ⊢
  case printNumber.printNumber place place' =>
    cases place <;> cases place' <;> simp [PrintPlace.name] at hchars ⊢
  all_goals exact hdigits hchars

/-! ## Accounts -/

/-- Advancing one construct's counter leaves the others where they are. -/
theorem Counters.get_advance (c : Counters) (k k' : Construct) :
    (c.advance k).get k' = c.get k' + if k' = k then 1 else 0 := by
  cases k <;> cases k' <;> rfl

/-- How often a label may have been defined while the counters went from `c` to `c'`: once
if its number was taken on the way. -/
def spent (c c' : Counters) (l : CodeLabel) : Nat :=
  match l.owner? with
  | some (k, tag) => if c.get k ≤ tag ∧ tag < c'.get k then 1 else 0
  | none => 0

/-- Nothing is spent without a step. -/
theorem spent_self (c : Counters) (l : CodeLabel) : spent c c l = 0 := by
  unfold spent
  split
  · rename_i k tag _
    exact if_neg fun h => absurd h.1 (Nat.not_le.mpr h.2)
  · rfl

/-- Each label is spent at most once, since its tag is passed at most once. -/
theorem spent_le_one (c c' : Counters) (l : CodeLabel) : spent c c' l ≤ 1 := by
  unfold spent
  split
  · split <;> simp
  · simp

/-- What is spent on the way adds up. -/
theorem spent_trans {c₁ c₂ c₃ : Counters} (h₁ : ∀ k, c₁.get k ≤ c₂.get k)
    (h₂ : ∀ k, c₂.get k ≤ c₃.get k) (l : CodeLabel) :
    spent c₁ c₃ l = spent c₁ c₂ l + spent c₂ c₃ l := by
  unfold spent
  split
  · rename_i k tag _
    have h₁ := h₁ k
    have h₂ := h₂ k
    split <;> split <;> split <;> omega
  · rfl

/-- Taking a number pays for the labels of its construct. -/
theorem spent_advance (c : Counters) (k : Construct) (l : CodeLabel) :
    spent c (c.advance k) l = (k.labels (c.get k)).count l := by
  rw [Construct.count_labels, spent]
  split
  · rename_i k' tag howner
    rw [howner, Counters.get_advance]
    by_cases hk : k' = k
    · subst hk
      rw [if_pos rfl]
      simp only [Option.some.injEq, Prod.mk.injEq, true_and]
      split <;> split <;> omega
    · rw [if_neg hk, if_neg (by omega),
        if_neg (fun h => hk (Prod.mk.inj (Option.some.inj h)).1)]
  · rename_i howner
    simp [howner]

/-- What a step did from a session, apart from the labels `own`: the counters only grow,
no label is defined more often than it was paid for, and exactly as often if there was no
fault. -/
structure Accounts {α : Type} (own : List CodeLabel) (s : Session) (t : Step α) :
    Prop where
  grows : ∀ k, s.counters.get k ≤ t.session.counters.get k
  le : ∀ l, (definedLabels t.code).count l ≤
    spent s.counters t.session.counters l + own.count l
  eq : ∀ a, t.result = .ok a → ∀ l, (definedLabels t.code).count l =
    spent s.counters t.session.counters l + own.count l

/-- The account of a computation, from whatever session it starts. -/
def Accounted {α : Type} (own : List CodeLabel) (x : Lowering α) : Prop :=
  ∀ s, Accounts own s (x s)

namespace Accounted

open Lowering

variable {α β : Type} {own own₁ own₂ : List CodeLabel}

/-- Accounts add up along a sequence. -/
theorem bind {x : Lowering α} {f : α → Lowering β} (hx : Accounted own₁ x)
    (hf : ∀ a, Accounted own₂ (f a)) : Accounted (own₁ ++ own₂) (x >>= f) := by
  intro s
  have hx := hx s
  rw [bind_apply]
  cases hr : (x s).result with
  | error fault =>
    -- The labels `own₂` are paid for but never defined: the bound is all that is left.
    rw [Step.andThen_of_error hr]
    refine { grows := hx.grows, le := fun l => ?_, eq := fun _ h => nomatch h }
    rw [List.count_append]
    exact Nat.le_trans (hx.le l) (by dsimp only; omega)
  | ok a =>
    rw [Step.andThen_of_ok hr]
    have hf := hf a (x s).session
    have hspent := fun l => spent_trans hx.grows hf.grows l
    refine { grows := fun k => Nat.le_trans (hx.grows k) (hf.grows k), le := fun l => ?_,
             eq := fun b hb l => ?_ }
    · have := hx.le l
      have := hf.le l
      have := hspent l
      simp only [definedLabels_append, List.count_append]
      omega
    · have := hx.eq a hr l
      have := hf.eq b hb l
      have := hspent l
      simp only [definedLabels_append, List.count_append]
      omega

/-- A computation that defines nothing of its own leaves the account to what follows. -/
theorem skip {x : Lowering α} {f : α → Lowering β} (hx : Accounted [] x)
    (hf : ∀ a, Accounted own (f a)) : Accounted own (x >>= f) :=
  bind hx hf

/-- A construct that takes a number owes the labels of that number to itself. -/
theorem nextTag {k : Construct} {f : Nat → Lowering β}
    (hf : ∀ tag, Accounted (k.labels tag) (f tag)) : Accounted [] (nextTag k >>= f) := by
  intro s
  have hf := hf (s.counters.get k) (s.spend k)
  have hgrows : ∀ k', s.counters.get k' ≤ (s.counters.advance k).get k' := by
    intro k'
    rw [Counters.get_advance]
    omega
  have hspent : ∀ l,
    spent s.counters (f (s.counters.get k) (s.spend k)).session.counters l =
      (k.labels (s.counters.get k)).count l +
        spent (s.spend k).counters
          (f (s.counters.get k) (s.spend k)).session.counters l := by
    intro l
    rw [← spent_advance]
    exact spent_trans hgrows hf.grows l
  rw [nextTag_bind]
  refine { grows := fun k' => Nat.le_trans (hgrows k') (hf.grows k'), le := fun l => ?_,
           eq := fun b hb l => ?_ }
  · have := hf.le l
    rw [hspent l, List.count_nil]
    omega
  · have := hf.eq b hb l
    rw [hspent l, List.count_nil]
    omega

/-- A computation that takes no number is accounted for by the labels it defines. -/
theorem of_counters {x : Lowering α}
    (hcounters : ∀ s, (x s).session.counters = s.counters)
    (hlabels : ∀ s, definedLabels (x s).code = own) : Accounted own x := by
  intro s
  refine { grows := fun k => ?_, le := fun l => ?_, eq := fun _ _ l => ?_ }
  · exact Nat.le_of_eq (by rw [hcounters])
  · exact Nat.le_of_eq (by rw [hcounters, hlabels, spent_self, Nat.zero_add])
  · rw [hcounters, hlabels, spent_self, Nat.zero_add]

/-- Returning defines nothing and spends nothing. -/
theorem pure (a : α) : Accounted [] (Pure.pure a : Lowering α) :=
  of_counters (fun _ => rfl) (fun _ => rfl)

/-- Emitting code accounts for the labels it defines. -/
theorem emit {code : List Code} (hcode : definedLabels code = own) :
    Accounted own (emit code) :=
  of_counters (fun _ => rfl) (fun _ => hcode)

/-- The account of a construct that ends with the code that defines its labels. -/
theorem emitLast {code : List Code} (hcode : definedLabels code = own) (a : α) :
    Accounted own (do Lowering.emit code; Pure.pure a) := by
  rw [← List.append_nil own]
  exact (emit hcode).bind fun _ => pure a

theorem emitInstrs (instrs : List Instruction) : Accounted [] (emitInstrs instrs) :=
  of_counters (fun _ => rfl) (fun _ => definedLabels_map_instr instrs)

theorem enter (ctx : Context) (level : Nat) (kind : Kind) :
    Accounted [] (enter ctx level kind) := by
  unfold Lowering.enter
  split <;> exact of_counters (fun _ => rfl) (fun _ => rfl)

theorem require (fault : Fault) (o : Option α) : Accounted [] (require fault o) := by
  cases o <;> exact of_counters (fun _ => rfl) (fun _ => rfl)

theorem symbols : Accounted [] symbols :=
  of_counters (fun _ => rfl) (fun _ => rfl)

theorem modifySymbols (change : SymbolTable → SymbolTable) :
    Accounted [] (modifySymbols change) :=
  of_counters (fun _ => rfl) (fun _ => rfl)

theorem warn (warning : Warning) : Accounted [] (warn warning) :=
  of_counters (fun _ => rfl) (fun _ => rfl)

/-- Forgetting the flags changes neither the code nor the counters. -/
theorem withoutFlags {x : Lowering (Option Comparison)} (hx : Accounted own x) :
    Accounted own (withoutFlags x) := by
  intro s
  have hx := hx s
  refine { grows := hx.grows, le := hx.le, eq := fun b hb l => ?_ }
  cases hr : (x s).result with
  | error fault => simp [Lowering.withoutFlags, hr, Except.map] at hb
  | ok a => exact hx.eq a hr l

theorem cellLevel (ctx : Context) (level : Nat) (inChain : Bool) :
    Accounted [] (cellLevel ctx level inChain) := by
  cases inChain with
  | true => exact pure level
  | false => exact (enter ctx level .sequence).skip fun _ => pure (level + 1)

/-- Turning flags into a word defines the labels of one `boolean`, whose tag it takes. -/
theorem materialize (flags : Option Comparison) : Accounted [] (materialize flags) := by
  cases flags with
  | none => exact pure ()
  | some c => exact nextTag fun tag => emit (by rfl)

theorem branchUnless (target : CodeLabel) (flags : Option Comparison) :
    Accounted [] (branchUnless target flags) := by
  cases flags <;> exact emitInstrs _

theorem number (text : String) : Accounted [] (number text) := by
  refine (require _ _).skip fun value => ?_
  split
  · exact (warn _).skip fun _ => emitInstrs _
  · exact emitInstrs _

theorem identifier (name : String) : Accounted [] (identifier name) :=
  (modifySymbols _).skip fun _ => emitInstrs _

theorem string (ctx : Context) (text : String) : Accounted [] (string ctx text) :=
  (require _ _).skip fun _ => emitInstrs _

theorem storeLiteral (ctx : Context) (target message text : String) :
    Accounted [] (storeLiteral ctx target message text) :=
  (require _ _).skip fun _ => emitInstrs _

theorem storeWord (ctx : Context) (target message : String) (kind : ValueKind) :
    Accounted [] (storeWord ctx target message kind) := by
  unfold Lowering.storeWord
  split <;> exact emitInstrs _

/-- Every tree is accounted for: what it defines, it has taken the numbers for. -/
theorem node (ctx : Context) (tree : Node) :
    ∀ (level : Nat) (inChain : Bool),
      Accounted [] (Lowering.node ctx level inChain tree) := by
  induction tree with
  | number text =>
    intro level inChain
    rw [Lowering.node]
    exact (enter _ _ _).skip fun _ => (number text).skip fun _ => pure none
  | string text =>
    intro level inChain
    rw [Lowering.node]
    exact (enter _ _ _).skip fun _ => (string ctx text).skip fun _ => pure none
  | boolean value =>
    intro level inChain
    rw [Lowering.node]
    exact (enter _ _ _).skip fun _ => (emitInstrs _).skip fun _ => pure none
  | identifier name =>
    intro level inChain
    rw [Lowering.node]
    exact (enter _ _ _).skip fun _ => (identifier name).skip fun _ => pure none
  | operator op lhs rhs ihl ihr =>
    intro level inChain
    rw [Lowering.node]
    refine (enter _ _ _).skip fun _ => (ihl _ _).skip fun _ => ?_
    refine (materialize _).skip fun _ => (emitInstrs _).skip fun _ => ?_
    refine (ihr _ _).skip fun _ => (materialize _).skip fun _ => ?_
    exact (emitInstrs _).skip fun _ => pure _
  | assignment target value ih =>
    intro level inChain
    rcases value.eq_string_or_ne with ⟨text, rfl⟩ | hne
    · rw [Lowering.node_assign_literal]
      refine (enter _ _ _).skip fun _ => (require _ _).skip fun _ => ?_
      exact (storeLiteral _ _ _ _).skip fun _ =>
        (modifySymbols _).skip fun _ => pure none
    · rw [Lowering.node_assign_word hne]
      refine (enter _ _ _).skip fun _ => symbols.skip fun _ => ?_
      refine (require _ _).skip fun _ => (ih _ _).skip fun _ => ?_
      refine (materialize _).skip fun _ => (storeWord _ _ _ _).skip fun _ => ?_
      exact (modifySymbols _).skip fun _ => pure none
  | last first ih =>
    intro level inChain
    rw [Lowering.node]
    exact (cellLevel _ _ _).skip fun _ => (ih _ _).withoutFlags
  | chain first next ih₁ ih₂ =>
    intro level inChain
    rw [Lowering.node]
    exact (cellLevel _ _ _).skip fun _ => (ih₁ _ _).skip fun _ => (ih₂ _ _).withoutFlags
  | ifThen cond body ihc ihb =>
    intro level inChain
    rw [Lowering.node]
    refine (enter _ _ _).skip fun _ => nextTag fun tag => ?_
    refine (ihc _ _).skip fun _ => (branchUnless _ _).skip fun _ => ?_
    refine (ihb _ _).skip fun _ => ?_
    exact emitLast (by rfl) none
  | ifElse branch cond body alternative ihc ihb iha =>
    intro level inChain
    rw [Lowering.node]
    refine (enter _ _ _).skip fun _ => nextTag fun tag => ?_
    refine (ihc _ _).skip fun _ => (branchUnless _ _).skip fun _ => ?_
    refine (ihb _ _).skip fun _ => ?_
    -- One label is defined before the alternative is lowered, the other after it.
    show Accounted ([.otherwise tag] ++ [.endIf tag]) _
    refine (emit (by rfl)).bind fun _ => (iha _ _).skip fun _ => ?_
    exact emitLast (by rfl) none
  | whileLoop cond body ihc ihb =>
    intro level inChain
    rw [Lowering.node]
    refine (enter _ _ _).skip fun _ => nextTag fun tag => ?_
    show Accounted ([.whileStart tag] ++ [.whileEnd tag]) _
    refine (emit (by rfl)).bind fun _ => (ihc _ _).skip fun _ => ?_
    refine (branchUnless _ _).skip fun _ => (ihb _ _).skip fun _ => ?_
    exact emitLast (by rfl) none
  | forLoop init cond step body ihi ihc ihs ihb =>
    intro level inChain
    rw [Lowering.node]
    refine (enter _ _ _).skip fun _ => nextTag fun tag => ?_
    refine (ihi _ _).skip fun _ => ?_
    show Accounted ([.forStart tag] ++ [.forEnd tag]) _
    refine (emit (by rfl)).bind fun _ => (ihc _ _).skip fun _ => ?_
    refine (branchUnless _ _).skip fun _ => (ihb _ _).skip fun _ => ?_
    refine (ihs _ _).skip fun _ => ?_
    exact emitLast (by rfl) none
  | unknown =>
    intro level inChain
    rw [Lowering.node]
    exact (enter _ _ _).skip fun _ => (warn _).skip fun _ => pure none

end Accounted

/-! ## Trees that are lowered to the end -/

/-- How many constructs of a kind a node itself makes. A comparison makes one where its
value is used. -/
def Construct.countAt : Construct → Node → Nat
  | .conditional, n => if n.kind = .conditional then 1 else 0
  | .whileLoop, n => if n.kind = .whileLoop then 1 else 0
  | .forLoop, n => if n.kind = .forLoop then 1 else 0
  | .boolean, n => n.operands.countP fun operand => operand.comparison?.isSome

/-- How many constructs of a kind a tree makes. -/
def Node.tally (tree : Node) (k : Construct) : Nat :=
  Node.total k.countAt tree.subtrees

/-- A tree makes the constructs of its direct subtrees, and what it makes itself. -/
theorem Node.tally_eq (tree : Node) (k : Construct) :
    tree.tally k = k.countAt tree + total (·.tally k) tree.children := by
  rw [tally, subtrees_eq_cons, total]
  congr 1
  induction tree.children with
  | nil => rfl
  | cons child rest ih =>
    rw [List.flatMap_cons, total_append, ih]
    rfl

namespace Lowering

variable {ctx : Context}

/-- The flags that are left are those of the tree, if it is a comparison. -/
theorem Lowers.flags_eq {level : Nat} {inChain : Bool} {tree : Node} {s s' : Session}
    {code : List Code} {warnings : List Warning} {flags : Option Comparison}
    (h : Lowers ctx level inChain tree s code warnings s' flags) :
    flags = tree.comparison? := by
  cases h <;> rfl

/-- Turning flags into a word moves the counter of `boolean` alone. -/
theorem materialize_counters (flags : Option Comparison) (s : Session) (k : Construct) :
    (materialize flags s).session.counters.get k =
      s.counters.get k + if k = .boolean ∧ flags.isSome then 1 else 0 := by
  cases flags with
  | none => simp [materialize, Lowering.pure]
  | some c =>
    show (s.counters.advance .boolean).get k = _
    simp [Counters.get_advance]

/-- A tree that is lowered to the end takes one number for each of its constructs. -/
theorem Lowers.counters {level : Nat} {inChain : Bool} {tree : Node} {s s' : Session}
    {code : List Code} {warnings : List Warning} {flags : Option Comparison}
    (h : Lowers ctx level inChain tree s code warnings s' flags) (k : Construct) :
    s'.counters.get k = s.counters.get k + tree.tally k := by
  induction h with
  | number | string | boolean | identifier | unknown | assignLiteral => cases k <;> rfl
  | operator hlevel hl hr ihl ihr =>
    rw [materialize_counters, ihr, materialize_counters, ihl, hl.flags_eq, hr.flags_eq,
      Node.tally_eq (.operator ..)]
    cases k <;> simp [Construct.countAt, Node.kind, Node.operands, Node.children,
      Node.total, List.countP_cons] <;> omega
  | assignWord hlevel hmessage hvalue hnode ih =>
    show (materialize _ _).session.counters.get k = _
    rw [materialize_counters, ih, hnode.flags_eq, Node.tally_eq (.assignment ..)]
    cases k <;> simp [Construct.countAt, Node.kind, Node.operands, Node.children,
      Node.total, List.countP_cons]
    omega
  | last hlevel hfirst ih =>
    rw [ih, Node.tally_eq (.last _)]
    cases k <;> simp [Construct.countAt, Node.kind, Node.operands, Node.children,
      Node.total]
  | chain hlevel hfirst hnext ih₁ ih₂ =>
    rw [ih₂, ih₁, Node.tally_eq (.chain ..)]
    cases k <;> simp [Construct.countAt, Node.kind, Node.operands, Node.children,
      Node.total] <;>
      omega
  | ifThen hlevel htag hcond hbody ihc ihb =>
    rw [ihb, ihc, Session.spend, Counters.get_advance, Node.tally_eq (.ifThen ..)]
    cases k <;> simp [Construct.countAt, Node.kind, Node.operands, Node.children,
      Node.total] <;>
      omega
  | ifElse hlevel htag hcond hbody halt ihc ihb iha =>
    rw [iha, ihb, ihc, Session.spend, Counters.get_advance, Node.tally_eq (.ifElse ..)]
    cases k <;> simp [Construct.countAt, Node.kind, Node.operands, Node.children,
      Node.total] <;>
      omega
  | whileLoop hlevel htag hcond hbody ihc ihb =>
    rw [ihb, ihc, Session.spend, Counters.get_advance, Node.tally_eq (.whileLoop ..)]
    cases k <;> simp [Construct.countAt, Node.kind, Node.operands, Node.children,
      Node.total] <;>
      omega
  | forLoop hlevel htag hinit hcond hbody hstep ihi ihc ihb ihs =>
    rw [ihs, ihb, ihc, ihi, Session.spend, Counters.get_advance,
      Node.tally_eq (.forLoop ..)]
    cases k <;> simp [Construct.countAt, Node.kind, Node.operands, Node.children,
      Node.total] <;>
      omega

/-- Turning flags into a word jumps within its own code. -/
theorem jumpTargets_materialize (flags : Option Comparison) (s : Session) :
    jumpTargets (materialize flags s).code =
      definedLabels (materialize flags s).code := by
  cases flags <;> rfl

/-- A branch jumps to its target only. -/
theorem jumpTargets_branchUnless (target : CodeLabel) (flags : Option Comparison)
    (s : Session) :
    jumpTargets (branchUnless target flags s).code = [target] := by
  cases flags <;> rfl

theorem jumpTargets_operatorInstrs (op : BinaryOp) :
    jumpTargets ((operatorInstrs op).map .instr) = [] := by
  rcases op with a | c
  · cases a <;> rfl
  · rfl

theorem jumpTargets_storeWord (ctx : Context) (target message : String) (kind : ValueKind)
    (s : Session) : jumpTargets (storeWord ctx target message kind s).code = [] := by
  unfold storeWord
  split <;> rfl

/-- Code that is complete jumps to its own labels only. -/
theorem Lowers.jumpTargets_subset {level : Nat} {inChain : Bool} {tree : Node}
    {s s' : Session} {code : List Code} {warnings : List Warning}
    {flags : Option Comparison}
    (h : Lowers ctx level inChain tree s code warnings s' flags) :
    ∀ l ∈ jumpTargets code, l ∈ definedLabels code := by
  induction h with
  | number | string | boolean | identifier | unknown | assignLiteral =>
    exact fun l hl => nomatch hl
  | operator hlevel hl hr ihl ihr =>
    intro l hl
    simp only [List.map_append, jumpTargets_append, jumpTargets_materialize,
      jumpTargets_instr, jumpTargets_operatorInstrs, definedLabels_append,
      definedLabels_instr, List.mem_append] at hl ⊢
    grind [Instruction.target?, jumpTargets, Code.target?]
  | assignWord hlevel hmessage hvalue hnode ih =>
    intro l hl
    simp only [jumpTargets_append, jumpTargets_materialize, jumpTargets_storeWord,
      definedLabels_append, List.append_nil, List.mem_append] at hl ⊢
    exact .inl (hl.imp_left (ih l))
  | last hlevel hfirst ih => exact ih
  | chain hlevel hfirst hnext ih₁ ih₂ =>
    intro l hl
    simp only [jumpTargets_append, definedLabels_append, List.mem_append] at hl ⊢
    exact hl.imp (ih₁ l) (ih₂ l)
  | ifThen | ifElse | whileLoop | forLoop =>
    -- Each jump goes to a label of a subtree or to one of the construct's own.
    intro l hl
    simp only [jumpTargets_append, jumpTargets_branchUnless, jumpTargets_instr,
      jumpTargets_label, jumpTargets_nil, Instruction.target?, Option.toList_some,
      definedLabels_append, definedLabels_instr, definedLabels_label, definedLabels_nil,
      List.mem_append, List.mem_cons, List.not_mem_nil, or_false] at hl ⊢
    grind

end Lowering

/-! ## Sessions -/

/-- One tree after the other in a session, whatever comes of each. -/
def Session.lowerAll (s : Session) : List (Context × Option Node) → List (Step Unit)
  | [] => []
  | (ctx, tree) :: rest =>
    Lowering.program ctx tree s :: (Lowering.program ctx tree s).session.lowerAll rest

/-- All constructs. -/
def Construct.all : List Construct :=
  [.conditional, .whileLoop, .forLoop, .boolean]

/-- The labels of a tree whose numbers are taken from the given counters on. -/
def Node.labelsFrom (tree : Node) (c : Counters) : List CodeLabel :=
  Construct.all.flatMap fun k => (List.range' (c.get k) (tree.tally k)).flatMap k.labels

/-- A run of tags gives each label of its construct once. -/
theorem count_labels_range' (k : Construct) (l : CodeLabel) (start n : Nat) :
    ((List.range' start n).flatMap k.labels).count l =
      match l.owner? with
      | some (k', tag) => if k' = k ∧ start ≤ tag ∧ tag < start + n then 1 else 0
      | none => 0 := by
  induction n generalizing start with
  | zero =>
    split
    · exact (if_neg (by omega)).symm
    · rfl
  | succ n ih =>
    rw [List.range'_succ, List.flatMap_cons, List.count_append, ih,
      Construct.count_labels]
    cases l.owner? with
    | none => simp
    | some owner =>
      obtain ⟨k', tag⟩ := owner
      simp only [Option.some.injEq, Prod.mk.injEq]
      by_cases hk : k' = k
      · simp only [hk, true_and]
        split <;> split <;> split <;> omega
      · simp [hk]

/-- A tree's labels are those that its numbers pay for. -/
theorem Node.count_labelsFrom (tree : Node) {c c' : Counters}
    (h : ∀ k, c'.get k = c.get k + tree.tally k) (l : CodeLabel) :
    (tree.labelsFrom c).count l = spent c c' l := by
  simp only [labelsFrom, Construct.all, List.flatMap_cons, List.flatMap_nil,
    List.count_append, List.count_nil, count_labels_range', spent, h]
  cases l.owner? with
  | none => rfl
  | some owner =>
    obtain ⟨k, tag⟩ := owner
    cases k <;> simp

/-- The whole program defines exactly the labels whose tags it takes. -/
theorem Accounted.program (ctx : Context) (tree : Option Node) :
    Accounted [] (Lowering.program ctx tree) := by
  cases tree with
  | none => exact pure ()
  | some tree => exact (node ctx tree 0 false).skip fun _ => pure ()

/-- The account of a whole session: some counters pay for all the labels that are
defined. -/
theorem Session.exists_spent_lowerAll (calls : List (Context × Option Node)) :
    ∀ s : Session, ∃ c : Counters, (∀ k, s.counters.get k ≤ c.get k) ∧
      ∀ l, (definedLabels ((s.lowerAll calls).flatMap Step.code)).count l ≤
        spent s.counters c l := by
  induction calls with
  | nil =>
    intro s
    exact ⟨s.counters, fun _ => Nat.le_refl _, fun l => Nat.zero_le _⟩
  | cons call rest ih =>
    intro s
    obtain ⟨ctx, tree⟩ := call
    have hstep := Accounted.program ctx tree s
    obtain ⟨c, hgrows, hcount⟩ := ih (Lowering.program ctx tree s).session
    refine ⟨c, fun k => Nat.le_trans (hstep.grows k) (hgrows k), fun l => ?_⟩
    have hle := hstep.le l
    have hrest := hcount l
    rw [List.count_nil, Nat.add_zero] at hle
    rw [lowerAll, List.flatMap_cons, definedLabels_append, List.count_append,
      spent_trans hstep.grows hgrows l]
    exact Nat.add_le_add hle hrest

/-- No label is defined twice in a session. -/
theorem Session.nodup_lowerAll (calls : List (Context × Option Node)) (s : Session) :
    (definedLabels ((s.lowerAll calls).flatMap Step.code)).Nodup := by
  obtain ⟨c, -, hcount⟩ := exists_spent_lowerAll calls s
  exact List.nodup_iff_count.mpr fun l => Nat.le_trans (hcount l) (spent_le_one _ _ l)

/-- So no label is defined twice. -/
theorem Lowering.nodup_definedLabels_program (ctx : Context) (tree : Option Node)
    (s : Session) :
    (definedLabels (program ctx tree s).code).Nodup := by
  have hnodup := Session.nodup_lowerAll [(ctx, tree)] s
  rwa [Session.lowerAll, Session.lowerAll, List.flatMap_singleton] at hnodup

/-- A tree that is lowered to the end defines the labels of its constructs, each once. -/
theorem Lowering.perm_labelsFrom_of_node_eq {ctx : Context} {level : Nat} {inChain : Bool}
    {tree : Node} {s s' : Session} {code : List Code} {warnings : List Warning}
    {flags : Option Comparison}
    (h : node ctx level inChain tree s = ⟨code, warnings, s', .ok flags⟩) :
    (definedLabels code).Perm (tree.labelsFrom s.counters) := by
  have hcounters := (lowers_of_node_eq h).counters
  have haccount := Accounted.node ctx tree level inChain s
  rw [h] at haccount
  refine List.perm_iff_count.mpr fun l => ?_
  rw [tree.count_labelsFrom hcounters, haccount.eq flags rfl l, List.count_nil,
    Nat.add_zero]

/-- **Code labels of a session.** However many trees are lowered one after the other, and
whatever faults stop some of them, no label is written twice. A tree that is lowered to
the end from counters `c` defines exactly the labels of the next numbers from `c`, one
number for each conditional, each `while`, each `for` and each comparison whose value is
used; and the code of every subtree that is lowered to the end jumps to labels of that
subtree only. -/
theorem session_labels :
    (∀ calls : List (Context × Option Node),
      ((definedLabels ((Session.initial.lowerAll calls).flatMap Step.code)).map
        CodeLabel.text).Nodup) ∧
    (∀ (ctx : Context) (tree : Node) (s : Session),
      (Lowering.program ctx (some tree) s).result = .ok () →
        (definedLabels (Lowering.program ctx (some tree) s).code).Perm
            (tree.labelsFrom s.counters) ∧
          ∀ k, (Lowering.program ctx (some tree) s).session.counters.get k =
            s.counters.get k + tree.tally k) ∧
    (∀ (ctx : Context) (level : Nat) (inChain : Bool) (subtree : Node) (s : Session)
      (flags : Option Comparison),
      (Lowering.node ctx level inChain subtree s).result = .ok flags →
        ∀ l ∈ jumpTargets (Lowering.node ctx level inChain subtree s).code,
          l ∈ definedLabels (Lowering.node ctx level inChain subtree s).code) := by
  refine ⟨?_, ?_, ?_⟩
  · intro calls
    exact List.Pairwise.map CodeLabel.text
      (fun l l' hne htext => hne (CodeLabel.text_injective htext))
      (Session.nodup_lowerAll calls .initial)
  · intro ctx tree s hok
    obtain ⟨flags, hnode⟩ := Lowering.node_eq_of_program_ok hok
    exact ⟨Lowering.perm_labelsFrom_of_node_eq hnode,
      (Lowering.lowers_of_node_eq hnode).counters⟩
  · intro ctx level inChain subtree s flags hok
    rcases h : Lowering.node ctx level inChain subtree s with ⟨code, warnings, s', result⟩
    rw [h] at hok
    obtain rfl : result = .ok flags := hok
    exact (Lowering.lowers_of_node_eq h).jumpTargets_subset

/-- A loop on a comparison, with a comparison that is stored: only the second takes a
label. -/
theorem session_labels_whileLoop :
    (Lowering.program
      ⟨⟨"new_line", (∅ : Std.TreeMap String String).insert "x" "msg_x", ∅⟩, {}⟩
      (some (.whileLoop (.operator (.compare .lt) (.identifier "a") (.identifier "b"))
        (.assignment "x" (.operator (.compare .eq) (.identifier "a") (.boolean true)))))
      ⟨.empty, ⟨2, 3, 4, 5⟩⟩).result = .ok () ∧
    (definedLabels (Lowering.program
      ⟨⟨"new_line", (∅ : Std.TreeMap String String).insert "x" "msg_x", ∅⟩, {}⟩
      (some (.whileLoop (.operator (.compare .lt) (.identifier "a") (.identifier "b"))
        (.assignment "x" (.operator (.compare .eq) (.identifier "a") (.boolean true)))))
      ⟨.empty, ⟨2, 3, 4, 5⟩⟩).code).Perm [.whileStart 3, .whileEnd 3, .boolEnd 5] :=
  ⟨rfl, (session_labels.2.1 _ _ _ rfl).1⟩

end RealMode
