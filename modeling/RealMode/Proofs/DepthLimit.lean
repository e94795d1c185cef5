import RealMode.Proofs.DataReferences
import RealMode.Proofs.TwoRuns

/-!
# Raising the nesting limit

The limit on nesting is looked at whenever a node is entered. A run with a higher limit
takes the same steps as a run with a lower one until the lower limit is met. So it either
comes to the same end, or goes on where the other run was stopped: what that run had
emitted and reported is the beginning of what this one emits and reports.

- `Step.ExtendedBy` relates what came of the two runs, `Extends` the computations.
- `respects_extends`: every step of lowering keeps the relation.
- `Compilation.compile_of_le` says what it means for listings and diagnostics.
-/

namespace RealMode

/-! ## Runs -/

variable {α β : Type}

/-- `t.ExtendedBy limit t'`: the second step is the first, unless the first was stopped by
the limit; then its code and its warnings are the first ones of the second. -/
inductive Step.ExtendedBy (limit : Nat) (t t' : Step α) : Prop
  | same (h : t' = t)
  | further (kind : Kind) (hstopped : t.result = .error (.tooDeep limit kind))
      (hcode : t.code <+: t'.code) (hwarnings : t.warnings <+: t'.warnings)

/-- Going on only adds to the code and to the warnings. -/
theorem Step.prefix_andThen (t : Step α) (f : α → Lowering β) :
    t.code <+: (t.andThen f).code ∧ t.warnings <+: (t.andThen f).warnings := by
  cases hr : t.result with
  | error fault =>
    rw [andThen_of_error hr]
    exact ⟨List.prefix_rfl, List.prefix_rfl⟩
  | ok a =>
    rw [andThen_of_ok hr]
    exact ⟨List.prefix_append _ _, List.prefix_append _ _⟩

/-- From every session the second computation does what the first does, or goes on where
the limit stopped it. -/
def Extends (limit : Nat) (x y : Lowering α) : Prop :=
  ∀ s, (x s).ExtendedBy limit (y s)

namespace Extends

open Lowering

variable {limit : Nat}

theorem refl (x : Lowering α) : Extends limit x x :=
  fun _ => .same rfl

theorem bind {x y : Lowering α} {f g : α → Lowering β} (hx : Extends limit x y)
    (hf : ∀ a, Extends limit (f a) (g a)) : Extends limit (x >>= f) (y >>= g) := by
  intro s
  rw [bind_apply, bind_apply]
  cases hx s with
  | same h =>
    rw [h]
    cases hr : (x s).result with
    | error fault =>
      rw [Step.andThen_of_error hr, Step.andThen_of_error hr]
      exact .same rfl
    | ok a =>
      rw [Step.andThen_of_ok hr, Step.andThen_of_ok hr]
      -- Both go on from the same session, so the second parts decide.
      cases hf a (x s).session with
      | same hrest =>
        rw [hrest]
        exact .same rfl
      | further kind hstopped hcode hwarnings =>
        exact .further kind hstopped ((List.prefix_append_right_inj _).mpr hcode)
          ((List.prefix_append_right_inj _).mpr hwarnings)
  | further kind hstopped hcode hwarnings =>
    obtain ⟨hcodeMore, hwarningsMore⟩ := (y s).prefix_andThen g
    rw [Step.andThen_of_error hstopped]
    exact .further kind rfl (hcode.trans hcodeMore) (hwarnings.trans hwarningsMore)

theorem withoutFlags {x y : Lowering (Option Comparison)} (h : Extends limit x y) :
    Extends limit (withoutFlags x) (withoutFlags y) := by
  intro s
  cases h s with
  | same h =>
    refine .same ?_
    rw [Lowering.withoutFlags, Lowering.withoutFlags, h]
  | further kind hstopped hcode hwarnings =>
    refine .further kind ?_ hcode hwarnings
    exact congrArg (Except.map _) hstopped

/-- A node that is within the lower limit is within the higher one. -/
theorem enter (labels : DataLabels) (policy : Policy) {limit' : Nat} (h : limit ≤ limit')
    (level : Nat) (kind : Kind) :
    Extends limit (enter ⟨labels, ⟨policy, limit⟩⟩ level kind)
      (enter ⟨labels, ⟨policy, limit'⟩⟩ level kind) := by
  intro s
  unfold Lowering.enter
  by_cases hlevel : limit ≤ level
  · rw [if_pos hlevel]
    exact .further kind rfl List.nil_prefix List.nil_prefix
  · have hlevel' : ¬ limit' ≤ level := by omega
    rw [if_neg hlevel, if_neg hlevel']
    exact .same rfl

end Extends

/-- The steps of lowering with the one limit and with the other. -/
theorem respects_extends (labels : DataLabels) (policy : Policy) {limit limit' : Nat}
    (h : limit ≤ limit') :
    Lowering.Respects ⟨labels, ⟨policy, limit⟩⟩ ⟨labels, ⟨policy, limit'⟩⟩ 0
      (Extends limit) where
  labels := rfl
  pure _ := .refl _
  bind := .bind
  withoutFlags := .withoutFlags
  emit _ := .refl _
  nextTag _ := .refl _
  require _ _ := .refl _
  outOfRange _ _ := .refl _
  unexpectedKind _ := .refl _
  lookup _ := .refl _
  kindOf value hf := fun s => hf (s.symbols.kindOf value) s
  enter := .enter labels policy h
  complete _ _ _ := .refl _

/-! ## Listings -/

theorem Line.render_append (lines lines' : List Line) :
    render (lines ++ lines') = render lines ++ render lines' := by
  simp [render]

/-- Since every line is ended by a newline, the first lines of a listing are a text that
it begins with. -/
theorem Line.exists_render_eq_append {lines lines' : List Line} (h : lines <+: lines') :
    ∃ rest, render lines' = render lines ++ rest := by
  obtain ⟨more, rfl⟩ := h
  exact ⟨render more, render_append lines more⟩

namespace Compilation

/-- The text of a listing, finished or not. -/
def written (outcome : Except CompileFailure Compiled) : String :=
  Line.render (linesOf outcome)

/-- The diagnostics of a compilation, less the fault if there is one. -/
def recoverable : Except CompileFailure Compiled → List Diagnostic
  | .ok compiled => compiled.warnings.map Warning.diagnostic
  | .error failure => failure.diagnostics.dropLast

theorem recoverable_compile (settings : Settings) (tree : Node) :
    recoverable (compile settings tree) =
      (lowered settings tree).warnings.map Warning.diagnostic := by
  cases h : tree.firstFault? settings.maxDepth with
  | none =>
    rw [compile_of_none h]
    rfl
  | some fault =>
    rw [compile_of_some h]
    exact List.dropLast_concat

/-- Of the settings, compilation depends on what they mean for lowering. -/
theorem compile_congr {settings settings' : Settings} {tree : Node}
    (h : lowered settings' tree = lowered settings tree) :
    compile settings' tree = compile settings tree := by
  unfold lowered context at h
  simp only [compile, h]

/-- When lowering stops at a fault, compilation fails with it. -/
theorem compile_of_stopped {settings : Settings} {tree : Node} {fault : Fault}
    (h : (lowered settings tree).result = .error fault) :
    compile settings tree = .error ⟨opening (StaticData.collect tree)
      (StaticData.collect tree).labels ++ (lowered settings tree).code.map .code,
      (lowered settings tree).warnings, fault⟩ := by
  have hresult := result_lowered settings tree
  rw [h] at hresult
  cases hfirst : tree.firstFault? settings.maxDepth with
  | none =>
    rw [hfirst] at hresult
    cases hresult
  | some first =>
    rw [hfirst] at hresult
    obtain rfl := Except.error.inj hresult
    exact compile_of_some hfirst

/-- Before the fault, a listing has been written up to the code of the program. -/
theorem exists_partialListing_eq {settings : Settings} {tree : Node}
    {failure : CompileFailure} (h : compile settings tree = .error failure) :
    ∃ code, failure.partialListing =
      dataSegmentText tree ++ "\n" ++ Line.render prologue ++ code := by
  cases hfault : tree.firstFault? settings.maxDepth with
  | none =>
    rw [compile_of_none hfault] at h
    cases h
  | some fault =>
    rw [compile_of_some hfault] at h
    obtain rfl := Except.error.inj h
    refine ⟨Line.render ((lowered settings tree).code.map .code), ?_⟩
    show Line.render (_ ++ .blank :: prologue ++ _) = _
    rw [List.append_cons, Line.render_append, Line.render_append, Line.render_append]
    rfl

/-- **Raising the limit only extends the result.** A program that is compiled with a limit
is compiled with a higher one to the same listing, with the same symbols and warnings. If
it fails with the lower limit, the partial listing, which begins with the data segment, a
blank line and the prologue, is the beginning of what is written with the higher limit,
and the diagnostics before the fault are the first ones there. If the fault is a bad
number, the higher limit makes no difference. -/
theorem compile_of_le (policy : Policy) (tree : Node) {limit limit' : Nat}
    (h : limit ≤ limit') :
    (∀ compiled, compile ⟨policy, limit⟩ tree = .ok compiled →
      compile ⟨policy, limit'⟩ tree = .ok compiled) ∧
    ∀ failure, compile ⟨policy, limit⟩ tree = .error failure →
      (∃ code, failure.partialListing =
        dataSegmentText tree ++ "\n" ++ Line.render prologue ++ code) ∧
      (∃ rest, written (compile ⟨policy, limit'⟩ tree) = failure.partialListing ++ rest) ∧
      failure.diagnostics.dropLast <+: recoverable (compile ⟨policy, limit'⟩ tree) ∧
      ∀ text, failure.fault = .malformedNumber text →
        compile ⟨policy, limit'⟩ tree = .error failure := by
  have hlowered : (lowered ⟨policy, limit⟩ tree).ExtendedBy limit
      (lowered ⟨policy, limit'⟩ tree) :=
    (respects_extends (StaticData.collect tree).labels policy h).program
      (some tree) .initial
  cases hlowered with
  | same heq =>
    have hcompile : compile ⟨policy, limit'⟩ tree = compile ⟨policy, limit⟩ tree :=
      compile_congr heq
    rw [hcompile]
    refine ⟨fun _ hcompiled => hcompiled, fun failure hfailure => ?_⟩
    rw [hfailure]
    refine ⟨exists_partialListing_eq hfailure, ⟨"", ?_⟩, List.prefix_rfl, fun _ _ => rfl⟩
    exact String.append_empty.symm
  | further kind hstopped hcode hwarnings =>
    have hcompile := compile_of_stopped hstopped
    constructor
    · intro compiled hcompiled
      rw [hcompile] at hcompiled
      cases hcompiled
    · intro failure hfailure
      have hbegins := exists_partialListing_eq hfailure
      rw [hcompile] at hfailure
      obtain rfl := Except.error.inj hfailure
      refine ⟨hbegins, ?_, ?_, ?_⟩
      · -- The higher limit only adds code, and possibly the epilogue.
        obtain ⟨closing, -, hlines⟩ := linesOf_compile ⟨policy, limit'⟩ tree
        refine Line.exists_render_eq_append ?_
        rw [hlines, List.prefix_append_right_inj]
        exact (hcode.map _).trans (List.prefix_append _ _)
      · rw [recoverable_compile]
        show List.dropLast (_ ++ [_]) <+: _
        rw [List.dropLast_concat]
        exact hwarnings.map _
      · -- The run was stopped by its limit, not by a number.
        intro text htext
        cases htext

/-- With the limit 3 the value of the assignment is too deep; with the limit 4 it is not,
and the bad number after it is met, as with the limit 5. -/
theorem compile_of_le_nested :
    let tree : Node :=
      .chain (.ifThen (.identifier "x") (.assignment "x" (.boolean true)))
      (.number "1x")
    ∃ failure failure', compile ⟨.warn, 3⟩ tree = .error failure ∧
      failure.fault = .tooDeep 3 .boolean ∧
      compile ⟨.warn, 4⟩ tree = .error failure' ∧ failure'.fault = .malformedNumber "1x" ∧
      (∃ rest, failure'.partialListing = failure.partialListing ++ rest) ∧
      failure.diagnostics.dropLast <+: failure'.diagnostics.dropLast ∧
      compile ⟨.warn, 5⟩ tree = .error failure' := by
  intro tree
  have hfirst : tree.firstFault? 3 = some (.tooDeep 3 .boolean) := rfl
  have hfirst' : tree.firstFault? 4 = some (.malformedNumber "1x") := rfl
  have hcompile : compile ⟨.warn, 3⟩ tree = _ := compile_of_some hfirst
  have hcompile' : compile ⟨.warn, 4⟩ tree = _ := compile_of_some hfirst'
  obtain ⟨-, hrest, hprefix, -⟩ :=
    (compile_of_le .warn tree (by decide : 3 ≤ 4)).2 _ hcompile
  obtain ⟨-, -, -, hsame⟩ := (compile_of_le .warn tree (by decide : 4 ≤ 5)).2 _ hcompile'
  rw [hcompile'] at hrest hprefix
  exact ⟨_, _, hcompile, rfl, hcompile', rfl, hrest, hprefix, hsame _ rfl⟩

end Compilation

end RealMode
