import RealMode.Proofs.DepthCounter
import RealMode.Proofs.TwoRuns

/-!
# Blocks

A block is a chain of sequence cells. Of these only the first one is a level of nesting:
all statements of the chain stand one level below it, however many there are. So a block
is lowered as its statements are when they are programs by themselves, one after the other
in one session, and the limit is lower by one.

- `Step.SameUpToLimit` relates what comes of a tree under a limit and of the same tree one
  level further down under the next limit. Every step of lowering keeps it
  (`respects_sameUpToLimit`).
- `node_firstCell` and `node_inChain` say what the first cell of a chain and the end of a
  chain do to the level.
- `inTurn` lowers statements one after the other, and `sameUpToLimit_block` compares it
  with the block. With a counter of the depth, both leave it as it was
  (`Counted.refines_inTurn`).
-/

namespace RealMode

variable {α β : Type}

/-! ## One level further down -/

/-- `t.SameUpToLimit limit t'`: the two steps are the same, except that the second names
the next limit where the first was stopped by this one. -/
structure Step.SameUpToLimit (limit : Nat) (t t' : Step α) : Prop where
  code : t'.code = t.code
  warnings : t'.warnings = t.warnings
  session : t'.session = t.session
  result : t'.result = t.result ∨
    ∃ kind, t.result = .error (.tooDeep limit kind) ∧
      t'.result = .error (.tooDeep (limit + 1) kind)

theorem Step.SameUpToLimit.refl (limit : Nat) (t : Step α) : t.SameUpToLimit limit t :=
  ⟨rfl, rfl, rfl, .inl rfl⟩

/-- From every session the same comes of both computations, up to the limit. -/
def AlikeUpToLimit (limit : Nat) (x y : Lowering α) : Prop :=
  ∀ s, (x s).SameUpToLimit limit (y s)

namespace AlikeUpToLimit

open Lowering

variable {limit : Nat}

theorem refl (x : Lowering α) : AlikeUpToLimit limit x x :=
  fun s => .refl limit (x s)

theorem bind {x y : Lowering α} {f g : α → Lowering β} (hx : AlikeUpToLimit limit x y)
    (hf : ∀ a, AlikeUpToLimit limit (f a) (g a)) :
    AlikeUpToLimit limit (x >>= f) (y >>= g) := by
  intro s
  rw [bind_apply, bind_apply]
  obtain ⟨hcode, hwarnings, hsession, hsame | ⟨kind, hstopped, hstopped'⟩⟩ := hx s
  · cases hr : (x s).result with
    | error fault =>
      rw [Step.andThen_of_error hr, Step.andThen_of_error (hsame.trans hr)]
      exact ⟨hcode, hwarnings, hsession, .inl rfl⟩
    | ok a =>
      rw [Step.andThen_of_ok hr, Step.andThen_of_ok (hsame.trans hr), hcode, hwarnings,
        hsession]
      -- The second parts start from the same session.
      obtain ⟨hcode₂, hwarnings₂, hsession₂, hresult₂⟩ := hf a (x s).session
      exact ⟨congrArg (_ ++ ·) hcode₂, congrArg (_ ++ ·) hwarnings₂, hsession₂, hresult₂⟩
  · rw [Step.andThen_of_error hstopped, Step.andThen_of_error hstopped']
    exact ⟨hcode, hwarnings, hsession, .inr ⟨kind, rfl, rfl⟩⟩

theorem withoutFlags {x y : Lowering (Option Comparison)} (h : AlikeUpToLimit limit x y) :
    AlikeUpToLimit limit (withoutFlags x) (withoutFlags y) := by
  intro s
  obtain ⟨hcode, hwarnings, hsession, hresult⟩ := h s
  refine ⟨hcode, hwarnings, hsession, ?_⟩
  rcases hresult with hsame | ⟨kind, hstopped, hstopped'⟩
  · exact .inl (congrArg (Except.map _) hsame)
  · exact .inr ⟨kind, congrArg (Except.map _) hstopped, congrArg (Except.map _) hstopped'⟩

/-- A level is within a limit exactly when the next level is within the next limit. -/
theorem enter (labels : DataLabels) (policy : Policy) (level : Nat) (kind : Kind) :
    AlikeUpToLimit limit (enter ⟨labels, ⟨policy, limit⟩⟩ level kind)
      (enter ⟨labels, ⟨policy, limit + 1⟩⟩ (level + 1) kind) := by
  intro s
  unfold Lowering.enter
  by_cases hlevel : limit ≤ level
  · rw [if_pos hlevel, if_pos (Nat.succ_le_succ hlevel)]
    exact ⟨rfl, rfl, rfl, .inr ⟨kind, rfl, rfl⟩⟩
  · have hnext : ¬ limit + 1 ≤ level + 1 := by omega
    rw [if_neg hlevel, if_neg hnext]
    exact .refl limit _

end AlikeUpToLimit

/-- The steps of lowering under a limit, and one level further down under the next
limit. -/
theorem respects_sameUpToLimit (labels : DataLabels) (policy : Policy) (limit : Nat) :
    Lowering.Respects ⟨labels, ⟨policy, limit⟩⟩ ⟨labels, ⟨policy, limit + 1⟩⟩ 1
      (AlikeUpToLimit limit) where
  labels := rfl
  pure _ := .refl _
  bind := .bind
  withoutFlags := .withoutFlags
  emit _ := .refl _
  nextTag _ := .refl _
  require _ _ := .refl _
  outOfRange _ _ := .refl _
  unexpectedKind _ := .refl _
  lookup _ := .refl _
  kindOf value hf := fun s => hf (s.symbols.kindOf value) s
  enter := .enter labels policy
  complete _ _ _ := .refl _

/-! ## Chains -/

/-- A block ends in a `last` cell. -/
theorem Node.block_concat (stmts : List Node) (final : Node) :
    block (stmts ++ [final]) = some (stmts.foldr .chain (.last final)) := by
  induction stmts with
  | nil => rfl
  | cons stmt rest ih =>
    rw [List.cons_append, block, ih]
    rfl

namespace Lowering

variable {γ : Type}

theorem bind_bind (x : Lowering α) (f : α → Lowering β) (g : β → Lowering γ) :
    x >>= f >>= g = x >>= fun a => f a >>= g := by
  funext s
  rw [bind_apply, bind_apply, bind_apply]
  cases hr : (x s).result with
  | error fault =>
    rw [Step.andThen_of_error hr, Step.andThen_of_error hr]
    rfl
  | ok a =>
    rw [Step.andThen_of_ok hr, Step.andThen_of_ok hr, bind_apply]
    cases hf : (f a (x s).session).result with
    | error fault =>
      rw [Step.andThen_of_error hf, Step.andThen_of_error rfl]
    | ok b =>
      rw [Step.andThen_of_ok hf, Step.andThen_of_ok rfl]
      simp only [List.append_assoc]

/-- Where the result is not looked at, it makes no difference that flags are dropped. -/
theorem withoutFlags_bind (x : Lowering (Option Comparison)) (y : Lowering β) :
    (withoutFlags x >>= fun _ => y) = x >>= fun _ => y := by
  funext s
  rw [bind_apply, bind_apply]
  cases hr : (x s).result with
  | error fault =>
    have hr' : (withoutFlags x s).result = .error fault := congrArg (Except.map _) hr
    rw [Step.andThen_of_error hr, Step.andThen_of_error hr']
    rfl
  | ok flags =>
    have hr' : (withoutFlags x s).result = .ok none := congrArg (Except.map _) hr
    rw [Step.andThen_of_ok hr, Step.andThen_of_ok hr']
    rfl

section Cells

variable {ctx : Context} {level : Nat} {tree : Node}

/-- The first cell of a chain is a level of its own; what is in it is treated as in the
cells that follow. -/
theorem node_firstCell (htree : tree.kind = .sequence)
    (hlevel : level < ctx.settings.maxDepth) :
    node ctx level false tree = node ctx (level + 1) true tree := by
  have hcell : cellLevel ctx level false = cellLevel ctx (level + 1) true := by
    rw [cellLevel, enter, if_neg (Nat.not_le.mpr hlevel)]
    rfl
  cases tree with
  | last first => rw [node, node, hcell]
  | chain first next => rw [node, node, hcell]
  | _ => simp [Node.kind] at htree

/-- What is not a cell is lowered at the end of a chain as anywhere else. -/
theorem node_inChain (htree : tree.kind ≠ .sequence) :
    node ctx level true tree = node ctx level false tree := by
  cases tree with
  | last first => exact absurd rfl htree
  | chain first next => exact absurd rfl htree
  | assignment target value =>
    rcases value.eq_string_or_ne with ⟨text, rfl⟩ | hne
    · rw [node_assign_literal, node_assign_literal]
    · rw [node_assign_word hne, node_assign_word hne]
  | _ => rw [node, node]

theorem node_last_bind (first : Node) (y : Lowering β) :
    (node ctx level true (.last first) >>= fun _ => y) =
      node ctx level false first >>= fun _ => y := by
  rw [node]
  show (withoutFlags (node ctx level false first) >>= fun _ => y) = _
  rw [withoutFlags_bind]

theorem node_chain_bind (first next : Node) (y : Lowering β) :
    (node ctx level true (.chain first next) >>= fun _ => y) =
      node ctx level false first >>= fun _ =>
        node ctx level true next >>= fun _ => y := by
  rw [node]
  show (node ctx level false first >>= fun _ =>
    withoutFlags (node ctx level true next)) >>= (fun _ => y) = _
  rw [bind_bind]
  simp only [withoutFlags_bind]

end Cells

/-! ## Statements in turn -/

/-- Lowers statements one after the other, each as a program by itself, until one is at
fault. -/
def inTurn (ctx : Context) : List Node → Lowering Unit
  | [] => Lowering.pure ()
  | stmt :: rest => do
    program ctx (some stmt)
    inTurn ctx rest

end Lowering

/-- The same with a counter of the depth, which each program finds as the one before left
it. -/
def Counted.inTurn (ctx : Context) : List Node → Counted Unit
  | [] => Counted.pure ()
  | stmt :: rest => do
    Counted.program ctx (some stmt)
    Counted.inTurn ctx rest

/-- Programs that are lowered in turn all start with the counter at zero. -/
theorem Counted.refines_inTurn (ctx : Context) (stmts : List Node) :
    Refines 0 (inTurn ctx stmts) (Lowering.inTurn ctx stmts) := by
  induction stmts with
  | nil => exact .pure ()
  | cons stmt rest ih => exact (refines_program ctx (some stmt)).bind fun _ => ih

namespace Lowering

/-- The statements of a chain, one level below its first cell, and the same statements in
turn. The chain may end in whatever is lowered like its final statement. -/
theorem alike_foldr_chain (labels : DataLabels) (policy : Policy) (limit : Nat)
    (stmts : List Node) {final ending : Node}
    (hending : ∀ y : Lowering Unit,
      (node ⟨labels, ⟨policy, limit + 1⟩⟩ 1 true ending >>= fun _ => y) =
        node ⟨labels, ⟨policy, limit + 1⟩⟩ 1 false final >>= fun _ => y) :
    AlikeUpToLimit limit (inTurn ⟨labels, ⟨policy, limit⟩⟩ (stmts ++ [final]))
      (node ⟨labels, ⟨policy, limit + 1⟩⟩ 1 true (stmts.foldr .chain ending) >>= fun _ =>
        Lowering.pure ()) := by
  have hrespects := respects_sameUpToLimit labels policy limit
  induction stmts with
  | nil =>
    show AlikeUpToLimit limit (program _ (some final) >>= fun _ => Lowering.pure ())
      (node _ 1 true ending >>= fun _ => Lowering.pure ())
    rw [hending, program, bind_bind]
    exact hrespects.bind (hrespects.node final 0 false) fun _ => .refl _
  | cons stmt rest ih =>
    show AlikeUpToLimit limit
      (program _ (some stmt) >>= fun _ => inTurn _ (rest ++ [final]))
      (node _ 1 true (.chain stmt (rest.foldr .chain ending)) >>= fun _ =>
        Lowering.pure ())
    rw [node_chain_bind, program, bind_bind]
    exact hrespects.bind (hrespects.node stmt 0 false) fun _ => ih

/-- A chain that is a program enters its first cell, which the limit allows. -/
theorem program_of_sequence {ctx : Context} {tree : Node} (htree : tree.kind = .sequence)
    (hlimit : 0 < ctx.settings.maxDepth) :
    program ctx (some tree) = node ctx 1 true tree >>= fun _ => Lowering.pure () := by
  rw [program, node_firstCell htree hlimit]
  rfl

/-- **A block is its statements in turn.** From any session, a block is lowered under a
limit to the same code, with the same warnings and to the same session as its statements
one after the other under a limit that is lower by one; both come to an end or both stop,
and then at the same fault, if it is not the limit itself. The same holds of the chain
whose last cell is replaced by the last statement, if there is a cell before it and the
statement is not a sequence itself. With a counter of the depth that is at zero before,
all of them do the same and leave it at zero, however they end. -/
theorem sameUpToLimit_block (labels : DataLabels) (policy : Policy) (limit : Nat)
    (s : Session) :
    (∀ stmts : List Node,
      (inTurn ⟨labels, ⟨policy, limit⟩⟩ stmts s).SameUpToLimit limit
        (program ⟨labels, ⟨policy, limit + 1⟩⟩ (Node.block stmts) s) ∧
      Counted.inTurn ⟨labels, ⟨policy, limit⟩⟩ stmts 0 s =
        (inTurn ⟨labels, ⟨policy, limit⟩⟩ stmts s, 0) ∧
      Counted.program ⟨labels, ⟨policy, limit + 1⟩⟩ (Node.block stmts) 0 s =
        (program ⟨labels, ⟨policy, limit + 1⟩⟩ (Node.block stmts) s, 0)) ∧
    ∀ (stmts : List Node) (final : Node), stmts ≠ [] → final.kind ≠ .sequence →
      (inTurn ⟨labels, ⟨policy, limit⟩⟩ (stmts ++ [final]) s).SameUpToLimit limit
        (program ⟨labels, ⟨policy, limit + 1⟩⟩ (some (stmts.foldr .chain final)) s) ∧
      Counted.program ⟨labels, ⟨policy, limit + 1⟩⟩
          (some (stmts.foldr .chain final)) 0 s =
        (program ⟨labels, ⟨policy, limit + 1⟩⟩ (some (stmts.foldr .chain final)) s,
          0) := by
  constructor
  · intro stmts
    refine ⟨?_, Counted.refines_inTurn _ stmts s, Counted.refines_program _ _ s⟩
    rcases List.eq_nil_or_concat stmts with rfl | ⟨stmts, final, rfl⟩
    · exact .refl limit _
    · rw [List.concat_eq_append, Node.block_concat,
        program_of_sequence (by cases stmts <;> rfl) limit.succ_pos]
      exact alike_foldr_chain labels policy limit stmts (node_last_bind final) s
  · intro stmts final hstmts hfinal
    refine ⟨?_, Counted.refines_program _ _ s⟩
    obtain ⟨first, rest, rfl⟩ := List.exists_cons_of_ne_nil hstmts
    rw [program_of_sequence (by rfl) limit.succ_pos]
    exact alike_foldr_chain labels policy limit (first :: rest)
      (fun y => by rw [node_inChain hfinal]) s

/-- The second statement stores a number that is too deep for it under the limit 2, and
the third one is not reached. In the block, with or without a last cell, the fault names
the limit 3. -/
theorem sameUpToLimit_block_nested :
    let labels : DataLabels :=
      ⟨"new_line", (∅ : Std.TreeMap String String).insert "x" "msg_x", ∅⟩
    let stmts : List Node := [.assignment "x" (.boolean true),
      .ifThen (.identifier "x") (.assignment "x" (.number "1"))]
    let ctx : Context := ⟨labels, ⟨.warn, 2⟩⟩
    let ctx' : Context := ⟨labels, ⟨.warn, 3⟩⟩
    Node.kind (.identifier "y") ≠ .sequence ∧
    (inTurn ctx (stmts ++ [.identifier "y"]) .initial).result =
      .error (.tooDeep 2 .number) ∧
    (program ctx' (Node.block (stmts ++ [.identifier "y"])) .initial).result =
      .error (.tooDeep 3 .number) ∧
    (inTurn ctx (stmts ++ [.identifier "y"]) .initial).SameUpToLimit 2
      (program ctx' (Node.block (stmts ++ [.identifier "y"])) .initial) ∧
    (inTurn ctx (stmts ++ [.identifier "y"]) .initial).SameUpToLimit 2
      (program ctx' (some (stmts.foldr .chain (.identifier "y"))) .initial) ∧
    (Counted.inTurn ctx (stmts ++ [.identifier "y"]) 0 .initial).2 = 0 ∧
    (Counted.program ctx' (Node.block (stmts ++ [.identifier "y"])) 0 .initial).2 =
      0 := by
  intro labels stmts ctx ctx'
  obtain ⟨hblock, hbare⟩ := sameUpToLimit_block labels .warn 2 .initial
  have hkind : Node.kind (.identifier "y") ≠ .sequence := by decide
  obtain ⟨hsame, hturn, hprogram⟩ := hblock (stmts ++ [.identifier "y"])
  obtain ⟨hsame', -⟩ := hbare stmts _ (List.cons_ne_nil _ _) hkind
  exact ⟨hkind, rfl, rfl, hsame, hsame', congrArg Prod.snd hturn,
    congrArg Prod.snd hprogram⟩

end Lowering

end RealMode
