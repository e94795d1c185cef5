import RealMode.Proofs.Evaluation
import RealMode.Proofs.Outcome

/-!
# Expressions by themselves

An expression can be lowered on its own, from any session and at any level, and its code
can be run on its own or inside a larger program. Here is what is known of it without a
program around it.

- `Node.DividesSafely` is all that the variables must satisfy: no division of the
  expression has the divisor zero. Then the expression has a value (`Node.exists_eval?`).
- `exists_node_eq_ok_iff`: an expression is lowered to the end unless it is nested too
  deeply.
- `nodup_definedLabels_node`: its code defines no label twice, so that jumps in it find
  their place.
- `runs_of_isNumeric`: its code runs to its end and computes it.
-/

namespace RealMode

namespace Node

/-- No division in the tree has the divisor zero when the variables hold the given
words. -/
def DividesSafely (tree : Node) (σ : Store) : Prop :=
  ∀ lhs rhs, .operator (.arith .div) lhs rhs ∈ tree.subtrees → rhs.eval? σ ≠ some 0

theorem DividesSafely.lhs {op : BinaryOp} {lhs rhs : Node} {σ : Store}
    (h : (Node.operator op lhs rhs).DividesSafely σ) : lhs.DividesSafely σ := by
  intro lhs' rhs' hmem
  exact h lhs' rhs' (List.mem_cons_of_mem _ (List.mem_append_left _ hmem))

theorem DividesSafely.rhs {op : BinaryOp} {lhs rhs : Node} {σ : Store}
    (h : (Node.operator op lhs rhs).DividesSafely σ) : rhs.DividesSafely σ := by
  intro lhs' rhs' hmem
  exact h lhs' rhs' (List.mem_cons_of_mem _ (List.mem_append_right _ hmem))

/-- The numbers of an expression have values. -/
theorem exists_value_of_isNumeric {text : String} (h : (Node.number text).isNumeric) :
    ∃ value, Literal.value? text = some value := by
  rw [isNumeric] at h
  cases hvalue : Literal.value? text with
  | none =>
    simp [hvalue] at h
  | some value => exact ⟨value, rfl⟩

/-- An expression has a value unless it divides by zero. -/
theorem exists_eval? {tree : Node} {σ : Store} (hnumeric : tree.isNumeric)
    (hsafe : tree.DividesSafely σ) : ∃ w, tree.eval? σ = some w := by
  induction tree with
  | number text =>
    obtain ⟨value, hvalue⟩ := exists_value_of_isNumeric hnumeric
    rw [eval?, hvalue]
    exact ⟨_, rfl⟩
  | boolean value => exact ⟨_, rfl⟩
  | identifier name => exact ⟨_, rfl⟩
  | operator op lhs rhs ihl ihr =>
    obtain ⟨hlhs, hrhs⟩ := Bool.and_eq_true_iff.mp hnumeric
    obtain ⟨a, ha⟩ := ihl hlhs hsafe.lhs
    obtain ⟨b, hb⟩ := ihr hrhs hsafe.rhs
    have hvalue : (Node.operator op lhs rhs).eval? σ = op.result? a b := by
      rw [eval?, ha, hb]
      rfl
    rw [hvalue]
    cases op with
    | compare c => exact ⟨_, rfl⟩
    | arith op =>
      cases op with
      | div =>
        have hdivisor : b ≠ 0 := by
          rintro rfl
          exact hsafe lhs rhs (mem_subtrees_self _) hb
        exact ⟨a / b, if_neg hdivisor⟩
      | add | sub | mul => exact ⟨_, rfl⟩
  | _ => simp [isNumeric] at hnumeric

theorem isNumeric_of_mem_subtrees {tree node : Node} (hnumeric : tree.isNumeric)
    (hnode : node ∈ tree.subtrees) : node.isNumeric := by
  induction tree with
  | number | boolean | identifier =>
    obtain rfl := List.mem_singleton.mp hnode
    exact hnumeric
  | operator op lhs rhs ihl ihr =>
    obtain ⟨hlhs, hrhs⟩ := Bool.and_eq_true_iff.mp hnumeric
    rcases List.mem_cons.mp hnode with rfl | hnode
    · exact hnumeric
    · rcases List.mem_append.mp hnode with hleft | hright
      · exact ihl hlhs hleft
      · exact ihr hrhs hright
  | _ => simp [isNumeric] at hnumeric

end Node

/-- An expression uses no data, and its numbers have values: it can only be at fault for
its level. -/
theorem Context.fault?_eq_none_iff {ctx : Context} {v : Visit}
    (hnumeric : v.node.isNumeric) :
    ctx.fault? v = none ↔ v.level < ctx.settings.maxDepth := by
  have hdata : ctx.dataFault? v.node = none := by
    cases hnode : v.node with
    | number | boolean | identifier | operator => rfl
    | _ => simp [hnode, Node.isNumeric] at hnumeric
  have hliteral : v.node.literalFault? = none := by
    refine Node.literalFault?_eq_none_iff.mpr fun text htext => ?_
    rw [htext] at hnumeric
    exact Option.isSome_iff_exists.mpr (Node.exists_value_of_isNumeric hnumeric)
  rw [fault?, hdata, Option.or_none, Visit.fault?_eq_none_iff]
  exact and_iff_left hliteral

namespace Lowering

variable {ctx : Context} {level : Nat} {inChain : Bool} {tree : Node} {s s' : Session}
  {code : List Code} {warnings : List Warning} {flags : Option Comparison}

/-- An expression is lowered to the end exactly when all of its nodes are within the
limit. -/
theorem exists_node_eq_ok_iff (hnumeric : tree.isNumeric) (s : Session) :
    (∃ code warnings s' flags,
        node ctx level inChain tree s = ⟨code, warnings, s', .ok flags⟩) ↔
      ∀ v ∈ tree.visits level inChain, v.level < ctx.settings.maxDepth := by
  have hresult := settles_node ctx tree level inChain s
  have hfault : (tree.visits level inChain).findSome? ctx.fault? = none ↔
      ∀ v ∈ tree.visits level inChain, v.level < ctx.settings.maxDepth := by
    rw [List.findSome?_eq_none_iff]
    refine forall₂_congr fun v hv => Context.fault?_eq_none_iff ?_
    exact Node.isNumeric_of_mem_subtrees hnumeric
      (Node.mem_subtrees_of_mem_visits level inChain (List.mem_map_of_mem hv))
  rw [← hfault]
  constructor
  · rintro ⟨code, warnings, s', flags, hnode⟩
    rw [hnode] at hresult
    cases hfirst : (tree.visits level inChain).findSome? ctx.fault? with
    | none => rfl
    | some fault =>
      simp [hfirst, outcome] at hresult
  · intro hnone
    rw [hnone] at hresult
    rcases hnode : node ctx level inChain tree s with ⟨code, warnings, s', result⟩
    rw [hnode] at hresult
    exact ⟨code, warnings, s', tree.comparison?,
      congrArg (Step.mk code warnings s') hresult⟩

/-- The code of a tree defines no label twice. -/
theorem nodup_definedLabels_node (ctx : Context) (level : Nat) (inChain : Bool)
    (tree : Node) (s : Session) :
    (definedLabels (node ctx level inChain tree s).code).Nodup := by
  refine List.nodup_iff_count.mpr fun l => ?_
  have hle := (Accounted.node ctx tree level inChain s).le l
  have hspent :=
    spent_le_one s.counters (node ctx level inChain tree s).session.counters l
  rw [List.count_nil, Nat.add_zero] at hle
  exact Nat.le_trans hle hspent

/-- When the outcome of a comparison is told by the flags, the jump that skips the true
branch is taken exactly if the comparison is false. -/
theorem holds_falseCondition_of_leaves {m : Machine} {c : Comparison} {a b : Word}
    (h : m.Leaves (if c.test a b then 1 else 0) (some c)) :
    c.falseCondition.holds m.flags ↔ c.test a b = false := by
  rw [Machine.Leaves] at h
  cases hholds : c.falseCondition.holds m.flags <;> cases htest : c.test a b <;>
    simp [hholds, htest] at h ⊢

/-- **The code of an expression computes it.** An expression is lowered to the end exactly
when all of its nodes are within the limit. Its code defines no label twice; and wherever
it stands in a program that does not either, if no division of the expression has the
divisor zero, it runs to its end and leaves the variables, the output and the stack as
they were. Then the value of the expression is in `AX`, or, if the expression is a
comparison, the jump that skips the true branch is taken exactly if the comparison of the
two operands is false. -/
theorem runs_of_isNumeric (ctx : Context) (level : Nat) (inChain : Bool) (s : Session)
    (hnumeric : tree.isNumeric) :
    ((∃ code warnings s' flags,
        node ctx level inChain tree s = ⟨code, warnings, s', .ok flags⟩) ↔
      ∀ v ∈ tree.visits level inChain, v.level < ctx.settings.maxDepth) ∧
    ∀ {code warnings s' flags},
      node ctx level inChain tree s = ⟨code, warnings, s', .ok flags⟩ →
      (definedLabels code).Nodup ∧
      ∀ (p : Platform) (program rest : List Code), (definedLabels program).Nodup →
        code ++ rest <:+ program → ∀ m : Machine, tree.DividesSafely m.cells →
        ∃ m', Runs p program ⟨code ++ rest, m⟩ ⟨rest, m'⟩ ∧
          m'.cells = m.cells ∧ m'.output = m.output ∧ m'.stack = m.stack ∧
          (tree.comparison? = none →
            flags = none ∧ tree.eval? m.cells = some (m'.registers .ax)) ∧
          ∀ c lhs rhs, tree = .operator (.compare c) lhs rhs →
            flags = some c ∧
            ∃ a b, lhs.eval? m.cells = some a ∧ rhs.eval? m.cells = some b ∧
              (c.falseCondition.holds m'.flags ↔ c.test a b = false) := by
  refine ⟨exists_node_eq_ok_iff hnumeric s, fun {code warnings s' flags} hnode =>
    ⟨?_, ?_⟩⟩
  · have hnodup := nodup_definedLabels_node ctx level inChain tree s
    rwa [hnode] at hnodup
  intro p program rest hnodup hsuffix m hsafe
  have hlowers := lowers_of_node_eq hnode
  obtain ⟨w, hw⟩ := Node.exists_eval? hnumeric hsafe
  obtain ⟨m', hrun, hsame, hleaves⟩ :=
    computes_of_lowers (p := p) hnodup hlowers hnumeric rest hsuffix m w hw
  rw [hlowers.flags_eq] at hleaves ⊢
  refine ⟨m', hrun, hsame.cells, hsame.output, hsame.stack, fun hnone => ⟨hnone, ?_⟩, ?_⟩
  · rw [hnone] at hleaves
    rw [hw, show m'.registers .ax = w from hleaves]
  · rintro c lhs rhs rfl
    obtain ⟨a, ha, hw⟩ := Option.bind_eq_some_iff.mp hw
    obtain ⟨b, hb, hresult⟩ := Option.bind_eq_some_iff.mp hw
    obtain rfl := Option.some.inj hresult
    exact ⟨rfl, a, b, ha, hb, holds_falseCondition_of_leaves hleaves⟩

/-- A comparison whose left operand is the least word, with a comparison among its
operands: the difference that is computed for it does not fit a word. -/
def leastWord : Node :=
  .operator (.compare .lt)
    (.operator (.arith .sub) (.number "-32767")
      (.operator (.compare .lt) (.number "-32768") (.number "1")))
    (.operator (.arith .div) (.number "7") (.identifier "x"))

theorem runs_of_isNumeric_leastWord :
    ∃ (code : List Code) (warnings : List Warning) (s' : Session) (p : Platform)
      (m m' : Machine),
      node ⟨⟨"new_line", ∅, ∅⟩, {}⟩ 0 false leastWord .initial =
        ⟨code, warnings, s', .ok (some .lt)⟩ ∧
      m.cells "x" = 2 ∧ m.stack = [7] ∧ Runs p code ⟨code, m⟩ ⟨[], m'⟩ ∧ m'.stack = [7] ∧
      m'.cells = m.cells ∧ ¬ Comparison.lt.falseCondition.holds m'.flags := by
  have hnumeric : leastWord.isNumeric := rfl
  have hsafe : leastWord.DividesSafely fun _ => 2 := by
    intro lhs rhs hmem
    obtain ⟨rfl, rfl⟩ : lhs = .number "7" ∧ rhs = .identifier "x" := by
      simpa [leastWord, Node.subtrees] using hmem
    decide
  have hcomputes := runs_of_isNumeric ⟨⟨"new_line", ∅, ∅⟩, {}⟩ 0 false .initial hnumeric
  obtain ⟨code, warnings, s', flags, hnode⟩ :=
    hcomputes.1.mpr (by simp [leastWord, Node.visits])
  obtain ⟨hnodup, hruns⟩ := hcomputes.2 hnode
  obtain ⟨m', hrun, hcells, -, hstack, -, hcompare⟩ := hruns
    ⟨0, fun _ => 0, fun _ => [], fun _ => 9, fun _ => ⟨true, true, true⟩⟩ code [] hnodup
    ⟨[], List.append_nil code⟩
    ⟨fun _ => 0, ⟨false, false, false⟩, [7], fun _ => 2, []⟩ hsafe
  obtain ⟨rfl, a, b, ha, hb, hjump⟩ := hcompare _ _ _ rfl
  rw [List.append_nil] at hrun
  refine ⟨code, warnings, s', _, _, m', hnode, rfl, rfl, hrun, hstack, hcells, ?_⟩
  obtain rfl : a = 0x8000 := (Option.some.inj ha).symm
  obtain rfl : b = 3 := (Option.some.inj hb).symm
  rw [hjump]
  decide

end Lowering

end RealMode
