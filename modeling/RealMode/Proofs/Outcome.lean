import Mathlib.Data.List.Basic
import RealMode.Compilation
import RealMode.Proofs.Lowering
import RealMode.Proofs.StaticData

/-!
# When compilation fails

Lowering visits the nodes of a tree at levels. Whether it goes through, and at which fault
it stops, does not depend on the session: it stops at the first visited node that is at
fault by itself.

- `Node.visits` lists the visited nodes with their levels, in the order in which they are
  visited.
- `Context.fault?` is the fault of one visit.
- `Settles fault? a x` says that the computation `x` stops at the given fault or else
  yields `a`, from whatever session it starts. Faults of a sequence are tried in order
  (`Settles.bind`), so that `settles_node` reads the outcome off the list of visits.
-/

namespace RealMode

/-! ## Visits -/

/-- A node that lowering visits, with its level. -/
structure Visit where
  level : Nat
  node : Node
deriving DecidableEq

/-- The visited nodes of a tree at a level, in order: a node before its subtrees, the body
of a `for` before its step. All statements of a chain are one level below its first cell;
the other cells (`inChain`) are not visited, nor is a literal that is assigned. -/
def Node.visits (level : Nat) (inChain : Bool) : Node → List Visit
  | .number text => [⟨level, .number text⟩]
  | .string text => [⟨level, .string text⟩]
  | .boolean value => [⟨level, .boolean value⟩]
  | .identifier name => [⟨level, .identifier name⟩]
  | .operator op lhs rhs =>
    ⟨level, .operator op lhs rhs⟩ ::
      (lhs.visits (level + 1) false ++ rhs.visits (level + 1) false)
  | .assignment target value =>
    ⟨level, .assignment target value⟩ ::
      match value with
      | .string _ => []
      | value => value.visits (level + 1) false
  | .last first =>
    if inChain then first.visits level false
    else ⟨level, .last first⟩ :: first.visits (level + 1) false
  | .chain first next =>
    if inChain then first.visits level false ++ next.visits level true
    else ⟨level, .chain first next⟩ ::
      (first.visits (level + 1) false ++ next.visits (level + 1) true)
  | .ifThen cond body =>
    ⟨level, .ifThen cond body⟩ ::
      (cond.visits (level + 1) false ++ body.visits (level + 1) false)
  | .ifElse branch cond body alternative =>
    ⟨level, .ifElse branch cond body alternative⟩ ::
      (cond.visits (level + 1) false ++ body.visits (level + 1) false ++
        alternative.visits (level + 1) false)
  | .whileLoop cond body =>
    ⟨level, .whileLoop cond body⟩ ::
      (cond.visits (level + 1) false ++ body.visits (level + 1) false)
  | .forLoop init cond step body =>
    ⟨level, .forLoop init cond step body⟩ ::
      (init.visits (level + 1) false ++ cond.visits (level + 1) false ++
        body.visits (level + 1) false ++ step.visits (level + 1) false)
  | .unknown => [⟨level, .unknown⟩]

theorem Node.visits_assign_word {target : String} {value : Node}
    (hvalue : ∀ text, value ≠ .string text) (level : Nat) (inChain : Bool) :
    (Node.assignment target value).visits level inChain =
      ⟨level, .assignment target value⟩ :: value.visits (level + 1) false := by
  cases value with
  | string text => exact absurd rfl (hvalue text)
  | _ => rfl

/-- The fault of a number that has no value. -/
def Node.literalFault? : Node → Option Fault
  | .number text =>
    if (Literal.value? text).isSome then none else some (.malformedNumber text)
  | _ => none

/-- The fault of a visit in a program whose data is all declared: the level is looked at
first, then the literal. -/
def Visit.fault? (maxDepth : Nat) (v : Visit) : Option Fault :=
  if maxDepth ≤ v.level then some (.tooDeep maxDepth v.node.kind)
  else v.node.literalFault?

/-- The fault of an item that has no label. -/
def Context.labelFault? (ctx : Context) (item : DataItem) (fault : Fault) :
    Option Fault :=
  if (ctx.labels.label? item).isSome then none else some fault

/-- The fault of a node for which data is not declared. -/
def Context.dataFault? (ctx : Context) : Node → Option Fault
  | .string text => ctx.labelFault? (.literal text) (.undeclaredString text)
  | .assignment target (.string text) =>
    (ctx.labelFault? (.message target) (.undeclaredVariable target)).or
      (ctx.labelFault? (.literal text) (.undeclaredString text))
  | .assignment target _ => ctx.labelFault? (.message target) (.undeclaredVariable target)
  | _ => none

/-- The fault of a visit. -/
def Context.fault? (ctx : Context) (v : Visit) : Option Fault :=
  (v.fault? ctx.settings.maxDepth).or (ctx.dataFault? v.node)

/-! ## Computations whose outcome is settled -/

/-- The outcome of a computation that stops at a fault, if there is one. -/
def outcome {α : Type} (fault : Option Fault) (a : α) : Except Fault α :=
  match fault with
  | some f => .error f
  | none => .ok a

/-- The computation stops at the given fault or yields the given result, in every
session. -/
def Settles {α : Type} (fault : Option Fault) (a : α) (x : Lowering α) : Prop :=
  ∀ s, (x s).result = outcome fault a

namespace Settles

open Lowering

variable {α β : Type} {fault fault₁ fault₂ : Option Fault} {a : α} {b : β}

/-- The faults of a sequence are tried in order. -/
theorem bind {x : Lowering α} {f : α → Lowering β} (hx : Settles fault₁ a x)
    (hf : Settles fault₂ b (f a)) : Settles (fault₁.or fault₂) b (x >>= f) := by
  intro s
  have hx := hx s
  rw [bind_apply]
  cases fault₁ with
  | some fault =>
    rw [Step.andThen_of_error hx]
    rfl
  | none =>
    rw [Step.andThen_of_ok hx]
    exact hf (x s).session

/-- A computation without a fault leaves the outcome to what follows. -/
theorem skip {x : Lowering α} {f : α → Lowering β} (hx : Settles none a x)
    (hf : Settles fault b (f a)) : Settles fault b (x >>= f) :=
  bind hx hf

/-- What follows without a fault leaves the outcome to what came before. -/
theorem last {x : Lowering α} {f : α → Lowering β} (hx : Settles fault a x)
    (hf : Settles none b (f a)) : Settles fault b (x >>= f) := by
  rw [← fault.or_none]
  exact hx.bind hf

/-- The number that is taken does not matter for the outcome. -/
theorem nextTag {k : Construct} {f : Nat → Lowering β}
    (hf : ∀ tag, Settles fault b (f tag)) :
    Settles fault b (nextTag k >>= f) :=
  fun s => hf (s.counters.get k) (s.spend k)

theorem symbols {f : SymbolTable → Lowering β} (hf : ∀ table, Settles fault b (f table)) :
    Settles fault b (symbols >>= f) :=
  fun s => hf s.symbols s

theorem pure (a : α) : Settles none a (Pure.pure a : Lowering α) :=
  fun _ => rfl

theorem emit (code : List Code) : Settles none () (emit code) :=
  fun _ => rfl

theorem emitInstrs (instrs : List Instruction) : Settles none () (emitInstrs instrs) :=
  fun _ => rfl

theorem warn (warning : Warning) : Settles none () (warn warning) :=
  fun _ => rfl

theorem modifySymbols (change : SymbolTable → SymbolTable) :
    Settles none () (modifySymbols change) :=
  fun _ => rfl

theorem materialize (flags : Option Comparison) :
    Settles none () (materialize flags) := by
  cases flags <;> exact fun _ => rfl

theorem branchUnless (target : CodeLabel) (flags : Option Comparison) :
    Settles none () (branchUnless target flags) := by
  cases flags <;> exact fun _ => rfl

theorem storeWord (ctx : Context) (target message : String) (kind : ValueKind) :
    Settles none () (storeWord ctx target message kind) := by
  unfold Lowering.storeWord
  split <;> exact fun _ => rfl

theorem withoutFlags {x : Lowering (Option Comparison)} {flags : Option Comparison}
    (hx : Settles fault flags x) : Settles fault none (withoutFlags x) := by
  intro s
  show ((x s).result.map fun _ => none) = _
  rw [hx s]
  cases fault <;> rfl

/-- What is required is there, or its absence is the fault. -/
theorem require {f : α → Lowering β} {missing : Fault} {o : Option α}
    (hf : ∀ a, o = some a → Settles fault b (f a)) :
    Settles ((if o.isSome then none else some missing).or fault) b
      (require missing o >>= f) := by
  cases o with
  | none => exact fun _ => rfl
  | some a => exact hf a rfl

theorem number (text : String) :
    Settles (Node.number text).literalFault? () (number text) := by
  rw [← Option.or_none (o := (Node.number text).literalFault?)]
  refine require fun value _ => ?_
  split
  · exact (warn _).skip (emitInstrs _)
  · exact emitInstrs _

theorem string (ctx : Context) (text : String) :
    Settles (ctx.labelFault? (.literal text) (.undeclaredString text)) ()
      (string ctx text) := by
  rw [← Option.or_none (o := ctx.labelFault? _ _)]
  exact require fun label _ => emitInstrs _

theorem storeLiteral (ctx : Context) (target message text : String) :
    Settles (ctx.labelFault? (.literal text) (.undeclaredString text)) ()
      (storeLiteral ctx target message text) := by
  rw [← Option.or_none (o := ctx.labelFault? _ _)]
  exact require fun label _ => emitInstrs _

theorem cellLevel_true (ctx : Context) (level : Nat) :
    Settles none level (cellLevel ctx level true) :=
  fun _ => rfl

/-- A node is entered and then stands on its own, or its level is the fault. -/
theorem enter {ctx : Context} {level : Nat} (tree : Node) {f : Unit → Lowering β}
    (hf : Settles ((tree.literalFault?.or (ctx.dataFault? tree)).or fault) b (f ())) :
    Settles ((ctx.fault? ⟨level, tree⟩).or fault) b
      (enter ctx level tree.kind >>= f) := by
  intro s
  rw [bind_apply]
  by_cases h : ctx.settings.maxDepth ≤ level
  · simp [Lowering.enter, h, fail, Step.andThen, Context.fault?, Visit.fault?, outcome]
  · have hfault : ctx.fault? ⟨level, tree⟩ =
        tree.literalFault?.or (ctx.dataFault? tree) := by
      simp [Context.fault?, Visit.fault?, h]
    rw [Lowering.enter, if_neg h, hfault]
    exact hf s

/-- The first cell of a chain is entered like a node. -/
theorem cellLevel_false {ctx : Context} {level : Nat} (tree : Node) {f : Nat → Lowering β}
    (htree : tree.kind = .sequence) (hf : Settles fault b (f (level + 1))) :
    Settles ((ctx.fault? ⟨level, tree⟩).or fault) b
      (cellLevel ctx level false >>= f) := by
  have hfault : tree.literalFault?.or (ctx.dataFault? tree) = none := by
    cases tree <;> first | rfl | cases htree
  have henter : Settles ((ctx.fault? ⟨level, tree⟩).or none) (level + 1)
      (Lowering.enter ctx level tree.kind >>= fun _ => Pure.pure (level + 1)) := by
    refine enter tree ?_
    rw [hfault]
    exact pure _
  rw [htree, Option.or_none] at henter
  exact henter.bind hf

end Settles

theorem findSome?_cons_eq_or {α β : Type} (f : α → Option β) (a : α) (l : List α) :
    (a :: l).findSome? f = (f a).or (l.findSome? f) := by
  rw [List.findSome?_cons]
  cases f a <;> rfl

/-- Lowering a tree stops at the first fault among its visits. -/
theorem settles_node (ctx : Context) (tree : Node) :
    ∀ (level : Nat) (inChain : Bool),
      Settles ((tree.visits level inChain).findSome? ctx.fault?) tree.comparison?
        (Lowering.node ctx level inChain tree) := by
  induction tree with
  | number text =>
    intro level inChain
    rw [Lowering.node, Node.visits, findSome?_cons_eq_or]
    refine Settles.enter (.number text) ?_
    show Settles (((Node.number text).literalFault?.or none).or none) none _
    rw [Option.or_none, Option.or_none]
    exact (Settles.number text).last (Settles.pure none)
  | string text =>
    intro level inChain
    rw [Lowering.node, Node.visits, findSome?_cons_eq_or]
    refine Settles.enter (.string text) ?_
    show Settles
      ((ctx.labelFault? (.literal text) (.undeclaredString text)).or none) none _
    rw [Option.or_none]
    exact (Settles.string ctx text).last (Settles.pure none)
  | boolean value =>
    intro level inChain
    rw [Lowering.node, Node.visits, findSome?_cons_eq_or]
    refine Settles.enter (.boolean value) ?_
    exact (Settles.emitInstrs _).skip (Settles.pure none)
  | identifier name =>
    intro level inChain
    rw [Lowering.node, Node.visits, findSome?_cons_eq_or]
    refine Settles.enter (.identifier name) ?_
    exact ((Settles.modifySymbols _).skip (Settles.emitInstrs _)).skip (Settles.pure none)
  | operator op lhs rhs ihl ihr =>
    intro level inChain
    rw [Lowering.node, Node.visits, findSome?_cons_eq_or, List.findSome?_append]
    refine Settles.enter (.operator op lhs rhs) ?_
    refine (ihl _ _).bind ((Settles.materialize _).skip ((Settles.emitInstrs _).skip ?_))
    exact (ihr _ _).last ((Settles.materialize _).skip
      ((Settles.emitInstrs _).skip (Settles.pure _)))
  | assignment target value ih =>
    intro level inChain
    rcases value.eq_string_or_ne with ⟨text, rfl⟩ | hne
    · rw [Lowering.node_assign_literal, Node.visits, findSome?_cons_eq_or]
      -- The literal is not visited: its label is asked for on behalf of the assignment.
      refine Settles.enter (.assignment target (.string text)) ?_
      show Settles (((ctx.labelFault? (.message target) (.undeclaredVariable target)).or
        (ctx.labelFault? (.literal text) (.undeclaredString text))).or none) none _
      rw [Option.or_none]
      refine Settles.require fun message _ => ?_
      exact (Settles.storeLiteral ctx _ _ _).last
        ((Settles.modifySymbols _).skip (Settles.pure none))
    · have hdata : ctx.dataFault? (.assignment target value) =
          ctx.labelFault? (.message target) (.undeclaredVariable target) := by
        cases value with
        | string text => exact absurd rfl (hne text)
        | _ => rfl
      rw [Lowering.node_assign_word hne, Node.visits_assign_word hne,
        findSome?_cons_eq_or]
      refine Settles.enter (.assignment target value) ?_
      rw [hdata]
      refine Settles.symbols fun table => Settles.require fun message _ => ?_
      refine (ih _ _).last ((Settles.materialize _).skip ?_)
      exact (Settles.storeWord ctx _ _ _).skip
        ((Settles.modifySymbols _).skip (Settles.pure none))
  | last first ih =>
    intro level inChain
    rw [Lowering.node, Node.visits]
    cases inChain with
    | true => exact (Settles.cellLevel_true ctx level).skip (ih _ _).withoutFlags
    | false =>
      rw [if_neg Bool.false_ne_true, findSome?_cons_eq_or]
      exact Settles.cellLevel_false (.last first) rfl (ih _ _).withoutFlags
  | chain first next ih₁ ih₂ =>
    intro level inChain
    rw [Lowering.node, Node.visits]
    cases inChain with
    | true =>
      rw [if_pos rfl, List.findSome?_append]
      exact (Settles.cellLevel_true ctx level).skip
        ((ih₁ _ _).bind (ih₂ _ _).withoutFlags)
    | false =>
      rw [if_neg Bool.false_ne_true, findSome?_cons_eq_or, List.findSome?_append]
      exact Settles.cellLevel_false (.chain first next) rfl
        ((ih₁ _ _).bind (ih₂ _ _).withoutFlags)
  | ifThen cond body ihc ihb =>
    intro level inChain
    rw [Lowering.node, Node.visits, findSome?_cons_eq_or, List.findSome?_append]
    refine Settles.enter (.ifThen cond body) (Settles.nextTag fun tag => ?_)
    refine (ihc _ _).bind ((Settles.branchUnless _ _).skip ?_)
    exact (ihb _ _).last ((Settles.emit _).skip (Settles.pure none))
  | ifElse branch cond body alternative ihc ihb iha =>
    intro level inChain
    rw [Lowering.node, Node.visits, findSome?_cons_eq_or, List.append_assoc,
      List.findSome?_append, List.findSome?_append]
    refine Settles.enter (.ifElse branch cond body alternative)
      (Settles.nextTag fun tag => ?_)
    refine (ihc _ _).bind ((Settles.branchUnless _ _).skip ?_)
    refine (ihb _ _).bind ((Settles.emit _).skip ?_)
    exact (iha _ _).last ((Settles.emit _).skip (Settles.pure none))
  | whileLoop cond body ihc ihb =>
    intro level inChain
    rw [Lowering.node, Node.visits, findSome?_cons_eq_or, List.findSome?_append]
    refine Settles.enter (.whileLoop cond body) (Settles.nextTag fun tag => ?_)
    refine (Settles.emit _).skip ((ihc _ _).bind ((Settles.branchUnless _ _).skip ?_))
    exact (ihb _ _).last ((Settles.emit _).skip (Settles.pure none))
  | forLoop init cond step body ihi ihc ihs ihb =>
    intro level inChain
    rw [Lowering.node, Node.visits, findSome?_cons_eq_or, List.append_assoc,
      List.append_assoc, List.findSome?_append, List.findSome?_append,
      List.findSome?_append]
    refine Settles.enter (.forLoop init cond step body) (Settles.nextTag fun tag => ?_)
    refine (ihi _ _).bind ((Settles.emit _).skip ?_)
    refine (ihc _ _).bind ((Settles.branchUnless _ _).skip ?_)
    refine (ihb _ _).bind ?_
    exact (ihs _ _).last ((Settles.emit _).skip (Settles.pure none))
  | unknown =>
    intro level inChain
    rw [Lowering.node, Node.visits, findSome?_cons_eq_or]
    refine Settles.enter .unknown ?_
    exact (Settles.warn _).skip (Settles.pure none)

/-! ## Programs -/

/-- Visited nodes are nodes of the tree. -/
theorem Node.mem_subtrees_of_mem_visits {tree node : Node} :
    ∀ (level : Nat) (inChain : Bool),
      node ∈ (tree.visits level inChain).map Visit.node → node ∈ tree.subtrees := by
  induction tree with
  | assignment target value ih =>
    intro level inChain hnode
    rcases value.eq_string_or_ne with ⟨text, rfl⟩ | hne
    · rw [List.mem_singleton.mp hnode]
      exact mem_subtrees_self _
    · rw [visits_assign_word hne, List.map_cons, List.mem_cons] at hnode
      exact List.mem_cons.mpr (hnode.imp_right (ih _ _))
  | _ =>
    intro level inChain hnode
    simp only [visits, subtrees] at hnode ⊢
    grind

/-- Every number of a tree is visited. -/
theorem Node.number_mem_visits {tree : Node} {text : String} :
    ∀ (level : Nat) (inChain : Bool), .number text ∈ tree.subtrees →
      .number text ∈ (tree.visits level inChain).map Visit.node := by
  induction tree with
  | assignment target value ih =>
    intro level inChain h
    rcases value.eq_string_or_ne with ⟨text, rfl⟩ | hne
    · simp [subtrees] at h
    · rw [visits_assign_word hne, List.map_cons]
      rcases List.mem_cons.mp h with heq | hbelow
      · cases heq
      · exact List.mem_cons_of_mem _ (ih _ _ hbelow)
  | _ =>
    intro level inChain h
    simp only [visits, subtrees] at h ⊢
    grind

/-- The data of a program is declared, so that none of its nodes is at fault for want of
it. -/
theorem dataFault?_eq_none {ctx : Context} {tree node : Node}
    (hlabels : ctx.labels = (StaticData.collect tree).labels)
    (hnode : node ∈ tree.subtrees) :
    ctx.dataFault? node = none := by
  have hname : ∀ {x}, node.name? = some x →
      ctx.labelFault? (.message x) (.undeclaredVariable x) = none := by
    intro x hx
    have hmem : x ∈ tree.names := List.mem_filterMap.mpr ⟨node, hnode, hx⟩
    rw [Context.labelFault?, hlabels, if_pos]
    rw [StaticData.isSome_label?_labels]
    exact (StaticData.mem_identifiers_collect tree x).mpr hmem
  have hliteral : ∀ {text}, Node.string text ∈ tree.subtrees →
      ctx.labelFault? (.literal text) (.undeclaredString text) = none := by
    intro text htext
    have hmem : text ∈ tree.literals := List.mem_filterMap.mpr ⟨_, htext, rfl⟩
    rw [Context.labelFault?, hlabels, if_pos]
    rw [StaticData.isSome_label?_labels]
    exact (StaticData.mem_literals_collect tree text).mpr hmem
  cases node with
  | string text => exact hliteral hnode
  | assignment target value =>
    cases value with
    | string text =>
      have htext : .string text ∈ tree.subtrees :=
        Node.mem_subtrees_of_mem_children hnode List.mem_cons_self
      rw [Context.dataFault?, hname rfl, hliteral htext]
      rfl
    | _ => exact hname rfl
  | _ => rfl

/-- The fault at which a program stops. -/
def Node.firstFault? (tree : Node) (maxDepth : Nat) : Option Fault :=
  (tree.visits 0 false).findSome? (Visit.fault? maxDepth)

theorem Visit.fault?_eq_none_iff {maxDepth : Nat} {v : Visit} :
    v.fault? maxDepth = none ↔ v.level < maxDepth ∧ v.node.literalFault? = none := by
  rw [fault?]
  split
  · rename_i h
    simp [Nat.not_lt.mpr h]
  · rename_i h
    simp [Nat.not_le.mp h]

/-- A visit is too deep, or a number without a value. -/
theorem Visit.fault?_eq_some {maxDepth : Nat} (v : Visit) {fault : Fault}
    (h : v.fault? maxDepth = some fault) :
    fault = .tooDeep maxDepth v.node.kind ∨ ∃ text, fault = .malformedNumber text := by
  rw [fault?] at h
  split at h
  · exact .inl (Option.some.inj h).symm
  · refine .inr ?_
    cases hnode : v.node with
    | number text =>
      rw [hnode, Node.literalFault?] at h
      split at h
      · cases h
      · exact ⟨text, (Option.some.inj h).symm⟩
    | _ =>
      rw [hnode] at h
      cases h

theorem Node.literalFault?_eq_none_iff {node : Node} :
    node.literalFault? = none ↔
      ∀ text, node = .number text → (Literal.value? text).isSome := by
  cases node with
  | number text =>
    rw [literalFault?]
    constructor
    · intro h text' htext
      obtain rfl := Node.number.inj htext
      by_contra hnone
      rw [if_neg hnone] at h
      exact nomatch h
    · intro h
      exact if_pos (h text rfl)
  | _ => simp [literalFault?]

/-- A program has no fault when its visited nodes are within the limit and its numbers
have values. -/
theorem Node.firstFault?_eq_none_iff {tree : Node} {maxDepth : Nat} :
    tree.firstFault? maxDepth = none ↔ (∀ v ∈ tree.visits 0 false, v.level < maxDepth) ∧
      ∀ text, .number text ∈ tree.subtrees → (Literal.value? text).isSome := by
  rw [firstFault?, List.findSome?_eq_none_iff]
  constructor
  · intro h
    refine ⟨fun v hv => (Visit.fault?_eq_none_iff.mp (h v hv)).1, fun text htext => ?_⟩
    obtain ⟨v, hv, hnode⟩ := List.mem_map.mp (number_mem_visits 0 false htext)
    exact literalFault?_eq_none_iff.mp (Visit.fault?_eq_none_iff.mp (h v hv)).2 text hnode
  · rintro ⟨hlevel, hvalue⟩ v hv
    refine Visit.fault?_eq_none_iff.mpr ⟨hlevel v hv, ?_⟩
    refine literalFault?_eq_none_iff.mpr fun text htext => hvalue text ?_
    rw [← htext]
    exact mem_subtrees_of_mem_visits 0 false (List.mem_map_of_mem hv)

namespace Compilation

/-- The context in which a program is lowered. -/
def context (settings : Settings) (tree : Node) : Context :=
  ⟨(StaticData.collect tree).labels, settings⟩

/-- What lowering a program yields. -/
def lowered (settings : Settings) (tree : Node) : Step Unit :=
  Lowering.program (context settings tree) (some tree) .initial

theorem result_lowered (settings : Settings) (tree : Node) :
    (lowered settings tree).result = outcome (tree.firstFault? settings.maxDepth) () := by
  have hsame : (tree.visits 0 false).findSome? (context settings tree).fault? =
      tree.firstFault? settings.maxDepth := by
    rw [Node.firstFault?, ← List.head?_filterMap, ← List.head?_filterMap]
    refine congrArg List.head? (List.filterMap_congr fun v hv => ?_)
    have hnode :=
      Node.mem_subtrees_of_mem_visits 0 false (List.mem_map_of_mem (f := Visit.node) hv)
    rw [Context.fault?, dataFault?_eq_none rfl hnode, Option.or_none]
    rfl
  have hprogram : Settles (tree.firstFault? settings.maxDepth) ()
      (Lowering.program (context settings tree) (some tree)) := by
    rw [← hsame]
    exact (settles_node (context settings tree) tree 0 false).last (.pure ())
  exact hprogram .initial

/-- A program without a fault is compiled. -/
theorem compile_of_none {settings : Settings} {tree : Node}
    (h : tree.firstFault? settings.maxDepth = none) :
    compile settings tree =
      .ok ⟨opening (StaticData.collect tree) (context settings tree).labels ++
      (lowered settings tree).code.map .code ++ epilogue, StaticData.collect tree,
      (lowered settings tree).session.symbols, (lowered settings tree).warnings⟩ := by
  have hresult := result_lowered settings tree
  rw [h] at hresult
  unfold lowered context at hresult
  simp only [compile, hresult]
  rfl

/-- A program with a fault fails with the first one. -/
theorem compile_of_some {settings : Settings} {tree : Node} {fault : Fault}
    (h : tree.firstFault? settings.maxDepth = some fault) :
    compile settings tree = .error ⟨opening (StaticData.collect tree)
      (context settings tree).labels ++ (lowered settings tree).code.map .code,
      (lowered settings tree).warnings, fault⟩ := by
  have hresult := result_lowered settings tree
  rw [h] at hresult
  unfold lowered context at hresult
  simp only [compile, hresult]
  rfl

theorem exists_compile_ok_iff {settings : Settings} {tree : Node} :
    (∃ compiled, compile settings tree = .ok compiled) ↔
      tree.firstFault? settings.maxDepth = none := by
  cases h : tree.firstFault? settings.maxDepth with
  | none => exact ⟨fun _ => rfl, fun _ => ⟨_, compile_of_none h⟩⟩
  | some fault =>
    rw [compile_of_some h]
    simp

/-- A program that is compiled is lowered to the end, and its code stands between the
opening and the epilogue. -/
theorem exists_lowers_of_compile {settings : Settings} {tree : Node} {compiled : Compiled}
    (h : compile settings tree = .ok compiled) :
    ∃ code s' flags, Lowering.Lowers (context settings tree) 0 false tree .initial code
        compiled.warnings s' flags ∧
      compiled.lines = opening compiled.data compiled.data.labels ++ code.map .code ++
        epilogue ∧
      compiled.data = StaticData.collect tree ∧ compiled.symbols = s'.symbols := by
  have hfirst : tree.firstFault? settings.maxDepth = none :=
    exists_compile_ok_iff.mp ⟨compiled, h⟩
  have hresult : (lowered settings tree).result = .ok () := by
    rw [result_lowered, hfirst]
    rfl
  obtain ⟨flags, hnode⟩ := Lowering.node_eq_of_program_ok hresult
  rw [compile_of_none hfirst] at h
  obtain rfl := Except.ok.inj h
  exact ⟨_, _, flags, Lowering.lowers_of_node_eq hnode, rfl, rfl, rfl⟩

/-- A failure tells the warnings first, and then its one error. -/
theorem errors_diagnostics (failure : CompileFailure) :
    failure.diagnostics.filter Diagnostic.isError = [failure.fault.diagnostic] := by
  have hwarnings : (failure.warnings.map Warning.diagnostic).filter Diagnostic.isError =
      [] := by
    rw [List.filter_eq_nil_iff]
    intro d hd
    obtain ⟨w, -, rfl⟩ := List.mem_map.mp hd
    simp [Diagnostic.isError, w.severity_diagnostic]
  rw [CompileFailure.diagnostics, List.filter_append, hwarnings, List.nil_append]
  simp [Diagnostic.isError, failure.fault.severity_diagnostic]

/-- **The outcome of a compilation.** A program is compiled exactly when every visited
node is within the limit and every number has a value. Then there are only warnings.
Otherwise there is one error, it comes last, and it is the fault of the first visited node
that is at fault. -/
theorem compile_outcome (settings : Settings) (tree : Node) :
    ((∃ compiled, compile settings tree = .ok compiled) ↔
      (∀ v ∈ tree.visits 0 false, v.level < settings.maxDepth) ∧
        ∀ text, .number text ∈ tree.subtrees → (Literal.value? text).isSome) ∧
    (∀ compiled, compile settings tree = .ok compiled →
      ∀ w ∈ compiled.warnings, w.diagnostic.severity = .warning) ∧
    (∀ failure, compile settings tree = .error failure →
      failure.diagnostics.filter Diagnostic.isError = [failure.fault.diagnostic] ∧
      failure.diagnostics.getLast? = some failure.fault.diagnostic ∧
      ∃ before v after, tree.visits 0 false = before ++ v :: after ∧
        (∀ u ∈ before, u.fault? settings.maxDepth = none) ∧
        v.fault? settings.maxDepth = some failure.fault) := by
  refine ⟨?_, fun _ _ w _ => w.severity_diagnostic, ?_⟩
  · rw [exists_compile_ok_iff, Node.firstFault?_eq_none_iff]
  · intro failure hfailure
    refine ⟨errors_diagnostics failure, List.getLast?_concat, ?_⟩
    cases h : tree.firstFault? settings.maxDepth with
    | none =>
      rw [compile_of_none h] at hfailure
      exact nomatch hfailure
    | some fault =>
      rw [compile_of_some h] at hfailure
      obtain rfl := Except.error.inj hfailure
      obtain ⟨before, v, after, hvisits, hv, hbefore⟩ := List.findSome?_eq_some_iff.mp h
      exact ⟨before, v, after, hvisits, hbefore, hv⟩

/-- A loop whose step and body both hold a bad number: the body comes first, although the
step stands before it in the tree. -/
theorem compile_outcome_forLoop :
    ∃ failure, compile {} (.forLoop (.assignment "x" (.number "1")) (.boolean true)
        (.number "2x") (.last (.number "1x"))) = .error failure ∧
      failure.fault = .malformedNumber "1x" ∧
      failure.diagnostics.filter Diagnostic.isError = [failure.fault.diagnostic] ∧
      failure.diagnostics.getLast? = some failure.fault.diagnostic := by
  have hfirst : Node.firstFault? (.forLoop (.assignment "x" (.number "1")) (.boolean true)
      (.number "2x") (.last (.number "1x"))) ({} : Settings).maxDepth =
        some (.malformedNumber "1x") := rfl
  have hcompile := compile_of_some hfirst
  obtain ⟨herrors, hlast, -⟩ := (compile_outcome _ _).2.2 _ hcompile
  exact ⟨_, hcompile, rfl, herrors, hlast⟩

end Compilation

end RealMode
