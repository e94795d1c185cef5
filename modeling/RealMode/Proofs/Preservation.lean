import RealMode.Proofs.Evaluation
import RealMode.Proofs.Outcome
import RealMode.Proofs.SymbolKinds

/-!
# Lowering preserves the meaning of programs

A statement that ends has an effect, and its code has the same effect on the machine: it
runs from its beginning to its end, leaves the variables as the statement does, prints the
same text, and leaves the stack alone.

- `Performs p program code effect` says so of a piece of code, wherever it stands in a
  program.
- There is one lemma for each way of putting code together: `Performs.andThen`,
  `Performs.conditional` and `Performs.loop`. The last is an induction on the rounds of a
  loop; the jump back finds the beginning because no label is defined twice.
- `performs_of_lowers` is the induction on the rules of lowering.
- `Compilation.runs_of_effect` is the statement about whole programs.
-/

namespace RealMode

open Lowering

/-- The code, wherever it stands in the program, runs to its end and does what the effect
says. -/
def Performs (p : Platform) (program code : List Code) (effect : Effect) : Prop :=
  ∀ rest, code ++ rest <:+ program → ∀ m out σ', effect m.cells out σ' →
    ∃ m', Runs p program ⟨code ++ rest, m⟩ ⟨rest, m'⟩ ∧ m'.cells = σ' ∧
    m'.stack = m.stack ∧
      m'.output = m.output ++ out

/-! ## Branches -/

/-- After a condition, the jump goes to its target if the value is zero. -/
theorem Computes.branchUnless {p : Platform} {program code rest place : List Code}
    {value : Store → Option Word} {flags : Option Comparison} {target : CodeLabel}
    {m : Machine} {w : Word} (h : Computes p program code value flags)
    (hplace : goto? program target = some place) (s : Session)
    (hsuffix : code ++ ((branchUnless target flags s).code ++ rest) <:+ program)
    (hw : value m.cells = some w) :
    ∃ m', Runs p program ⟨code ++ ((branchUnless target flags s).code ++ rest), m⟩
      ⟨if w = 0 then place else rest, m'⟩ ∧ m.SameMemory m' := by
  obtain ⟨m₁, hrun, hsame, hw₁⟩ := h _ hsuffix m w hw
  cases flags with
  | none =>
    have hw₁ : m₁.registers .ax = w := hw₁
    have hcmp : m₁.exec? p (.cmp ax (imm 0)) = some (m₁.setFlags (.ofSub w 0)) := by
      rw [← hw₁]
      rfl
    have hequal : Condition.equal.holds (.ofSub w 0) = (w == 0) := Flags.zero_ofSub w 0
    have hjump := hrun.trans ((Runs.instr hcmp).trans (Runs.jumpIf hplace))
    simp only [Machine.flags_setFlags, hequal, beq_iff_eq] at hjump
    exact ⟨_, hjump, hsame.trans ⟨rfl, rfl, rfl⟩⟩
  | some c =>
    have hjump := hrun.trans (Runs.jumpIf hplace)
    refine ⟨m₁, ?_, hsame⟩
    rw [Machine.Leaves] at hw₁
    subst hw₁
    cases hfalse : c.falseCondition.holds m₁.flags with
    | true => simpa [hfalse] using hjump
    | false => simpa [hfalse] using hjump

namespace Performs

variable {p : Platform} {program code code₁ code₂ code₃ : List Code}
  {effect effect₁ effect₂ : Effect}
  {value : Store → Option Word} {flags : Option Comparison}

theorem nil : Performs p program [] .skip := by
  rintro rest _ m out σ' ⟨rfl, rfl⟩
  exact ⟨m, .refl _, rfl, rfl, (List.append_nil _).symm⟩

/-- The code of an expression performs nothing but the evaluation. -/
theorem ofComputes (h : Computes p program code value flags) :
    Performs p program code fun σ out σ' =>
      (∃ w, value σ = some w) ∧ Effect.skip σ out σ' := by
  rintro rest hsuffix m out σ' ⟨⟨w, hw⟩, rfl, rfl⟩
  obtain ⟨m', hrun, hsame, -⟩ := h rest hsuffix m w hw
  exact ⟨m', hrun, hsame.cells, hsame.stack, by rw [hsame.output, List.append_nil]⟩

theorem andThen (h₁ : Performs p program code₁ effect₁)
    (h₂ : Performs p program code₂ effect₂) :
    Performs p program (code₁ ++ code₂) (effect₁.andThen effect₂) := by
  rintro rest hsuffix m out σ' ⟨out₁, σ₁, out₂, heffect₁, heffect₂, rfl⟩
  rw [List.append_assoc] at hsuffix ⊢
  obtain ⟨m₁, hrun₁, rfl, hstack₁, hout₁⟩ := h₁ _ hsuffix m out₁ σ₁ heffect₁
  obtain ⟨m₂, hrun₂, hcells₂, hstack₂, hout₂⟩ :=
    h₂ rest ((List.suffix_append _ _).trans hsuffix) m₁ out₂ σ' heffect₂
  refine ⟨m₂, hrun₁.trans hrun₂, hcells₂, hstack₂.trans hstack₁, ?_⟩
  rw [hout₂, hout₁, List.append_assoc]

/-- A conditional runs its body and jumps over the alternative, or jumps to the
alternative. -/
theorem conditional {otherwise endIf : CodeLabel} {body alternative : Effect}
    (hnodup : (definedLabels program).Nodup) (s : Session)
    (hcond : Computes p program code₁ value flags) (hbody : Performs p program code₂ body)
    (halternative : Performs p program code₃ alternative) :
    Performs p program
      (code₁ ++ (branchUnless otherwise flags s).code ++ code₂ ++
        .instr (.jump endIf) :: .label otherwise :: (code₃ ++ [.label endIf]))
      (.branch value body alternative) := by
  rintro rest hsuffix m out σ' ⟨w, hw, heffect⟩
  simp only [List.append_assoc, List.cons_append, List.nil_append] at hsuffix ⊢
  have hbodySuffix :=
    (List.suffix_append _ _).trans ((List.suffix_append _ _).trans hsuffix)
  have hjumpSuffix := (List.suffix_append _ _).trans hbodySuffix
  have hlabelSuffix := (List.suffix_cons _ _).trans hjumpSuffix
  have hotherSuffix := (List.suffix_cons _ _).trans hlabelSuffix
  -- Each jump finds the label that stands in this very code, wherever the code stands.
  have hotherwise := goto?_eq_of_suffix hnodup hlabelSuffix
  have hendIf := goto?_eq_of_suffix hnodup ((List.suffix_append _ _).trans hotherSuffix)
  obtain ⟨m₁, hrun₁, hsame₁⟩ := hcond.branchUnless hotherwise s hsuffix hw
  rw [← hsame₁.cells] at heffect
  by_cases hzero : w = 0
  · rw [if_pos hzero] at hrun₁ heffect
    obtain ⟨m₂, hrun₂, hcells, hstack, hout⟩ :=
      halternative _ hotherSuffix m₁ out σ' heffect
    exact ⟨m₂, hrun₁.trans (hrun₂.trans (.label _)), hcells, hstack.trans hsame₁.stack,
      by rw [hout, hsame₁.output]⟩
  · rw [if_neg hzero] at hrun₁ heffect
    obtain ⟨m₂, hrun₂, hcells, hstack, hout⟩ := hbody _ hbodySuffix m₁ out σ' heffect
    exact ⟨m₂, hrun₁.trans (hrun₂.trans (.jump hendIf)), hcells,
      hstack.trans hsame₁.stack, by rw [hout, hsame₁.output]⟩

/-- A loop runs its body and jumps back until the value is zero. -/
theorem loop {first stop : CodeLabel} {body : Effect}
    (hnodup : (definedLabels program).Nodup) (s : Session)
    (hcond : Computes p program code₁ value flags)
    (hbody : Performs p program code₂ body) :
    Performs p program
      (.label first :: (code₁ ++ (branchUnless stop flags s).code ++ code₂ ++
        [.instr (.jump first), .label stop]))
      (.Loop value body) := by
  intro rest hsuffix m out σ' heffect
  simp only [List.append_assoc, List.cons_append, List.nil_append] at hsuffix ⊢
  have hcondSuffix := (List.suffix_cons _ _).trans hsuffix
  have hbodySuffix :=
    (List.suffix_append _ _).trans ((List.suffix_append _ _).trans hcondSuffix)
  have hfirst := goto?_eq_of_suffix hnodup hsuffix
  have hstop := goto?_eq_of_suffix hnodup
    ((List.suffix_cons _ _).trans ((List.suffix_append _ _).trans hbodySuffix))
  -- The rounds all begin after the first label, where the jump back goes.
  suffices h : ∃ m', Runs p program ⟨_, m⟩ ⟨rest, m'⟩ ∧ m'.cells = σ' ∧
    m'.stack = m.stack ∧
      m'.output = m.output ++ out by
    obtain ⟨m', hrun, h⟩ := h
    exact ⟨m', (Runs.label first).trans hrun, h⟩
  generalize hσ : m.cells = σ at heffect
  induction heffect generalizing m with
  | done hw =>
    subst hσ
    obtain ⟨m₁, hrun₁, hsame₁⟩ := hcond.branchUnless hstop s hcondSuffix hw
    exact ⟨m₁, hrun₁, hsame₁.cells, hsame₁.stack, by rw [hsame₁.output, List.append_nil]⟩
  | @round σ σ₁ σ₂ w out₁ out₂ hw hne heffect₁ hrounds ih =>
    subst hσ
    obtain ⟨m₁, hrun₁, hsame₁⟩ := hcond.branchUnless hstop s hcondSuffix hw
    rw [if_neg hne] at hrun₁
    rw [← hsame₁.cells] at heffect₁
    obtain ⟨m₂, hrun₂, hcells₂, hstack₂, hout₂⟩ := hbody _ hbodySuffix m₁ out₁ σ₁ heffect₁
    obtain ⟨m₃, hrun₃, hcells₃, hstack₃, hout₃⟩ := ih m₂ hcells₂
    refine ⟨m₃, hrun₁.trans (hrun₂.trans ((Runs.jump hfirst).trans hrun₃)),
      hcells₃, ?_, ?_⟩
    · rw [hstack₃, hstack₂, hsame₁.stack]
    · rw [hout₃, hout₂, hsame₁.output, List.append_assoc]

end Performs

/-! ## Printing -/

/-- What is at the labels is what the items are printed as. -/
def Platform.Shows (p : Platform) (labels : DataLabels) : Prop :=
  ∀ item label, labels.label? item = some label →
    shown (p.memory (p.address label)) = item.printed

/-- Printing an item changes neither variables nor stack. -/
theorem exists_exec_printItem {p : Platform} {labels : DataLabels} (hp : p.Shows labels)
    {item : DataItem} {label : String} (hlabel : labels.label? item = some label)
    (m : Machine) :
    ∃ m', (printItem label).foldlM (Machine.exec? p) m = some m' ∧ m'.cells = m.cells ∧
      m'.stack = m.stack ∧ m'.output = m.output ++ item.printed := by
  refine ⟨_, rfl, rfl, rfl, ?_⟩
  show m.output ++ shown (p.memory ((m.set .dx (p.address label)).registers .dx)) = _
  rw [Machine.registers_set_self, hp item label hlabel]

/-- Storing a number prints the message of the variable, and the number on a line. -/
theorem exists_exec_storeWord {p : Platform} {ctx : Context} (hp : p.Shows ctx.labels)
    {target message : String} (hmessage : ctx.labels.message? target = some message)
    {m : Machine} {w : Word} (hax : m.registers .ax = w) :
    ∃ m', List.foldlM (Machine.exec? p) m
      ([.mov (.cell target) ax] ++ printItem message ++
        [.mov ax (.cell target), .call .printNumber]) = some m' ∧
      m'.cells = Function.update m.cells target w ∧ m'.stack = m.stack ∧
      m'.output =
        m.output ++ ((DataItem.message target).printed ++ decimal w ++ lineEnd) := by
  have hstore : m.exec? p (.mov (.cell target) ax) = some (m.setCell target w) := by
    rw [← hax]
    rfl
  have hlabel : ctx.labels.label? (.message target) = some message := hmessage
  obtain ⟨m₁, hprint, hcells, hstack, hout⟩ :=
    exists_exec_printItem hp hlabel (m.setCell target w)
  have hcell : m₁.cells target = w := by
    rw [hcells, Machine.cells_setCell, Function.update_self]
  have hload : m₁.exec? p (.mov ax (.cell target)) = some (m₁.set .ax w) := by
    rw [exec?_mov_cell, hcell]
  have hnumber : (m₁.set .ax w).exec? p (.call .printNumber) =
      some (((m₁.set .ax w).print (decimal w ++ lineEnd)).setFlags
        (p.undefinedFlags (m₁.set .ax w))) := by
    rw [Machine.exec?, Machine.call, Machine.registers_set_self]
  refine ⟨((m₁.set .ax w).print (decimal w ++ lineEnd)).setFlags
    (p.undefinedFlags (m₁.set .ax w)), ?_, hcells, hstack, ?_⟩
  · rw [List.append_assoc, List.singleton_append, foldlM_exec_cons hstore,
      List.foldlM_append, hprint]
    exact (foldlM_exec_cons hload).trans (foldlM_exec_cons hnumber)
  · rw [Machine.output_setFlags, Machine.output_print, Machine.output_set, hout,
      Machine.output_setCell, List.append_assoc, List.append_assoc]

/-- Printing two items prints one after the other. -/
theorem exists_exec_printItems {p : Platform} {labels : DataLabels}
    (hp : p.Shows labels) {item₁ item₂ : DataItem} {label₁ label₂ : String}
    (h₁ : labels.label? item₁ = some label₁) (h₂ : labels.label? item₂ = some label₂)
    (m : Machine) :
    ∃ m', (printItem label₁ ++ printItem label₂).foldlM (Machine.exec? p) m = some m' ∧
      m'.cells = m.cells ∧ m'.stack = m.stack ∧
      m'.output = m.output ++ (item₁.printed ++ item₂.printed) := by
  obtain ⟨m₁, hexec₁, hcells₁, hstack₁, hout₁⟩ := exists_exec_printItem hp h₁ m
  obtain ⟨m₂, hexec₂, hcells₂, hstack₂, hout₂⟩ := exists_exec_printItem hp h₂ m₁
  refine ⟨m₂, ?_, hcells₂.trans hcells₁, hstack₂.trans hstack₁, ?_⟩
  · rw [List.foldlM_append, hexec₁]
    exact hexec₂
  · rw [hout₂, hout₁, List.append_assoc]

/-- The code that stores a value other than a text. -/
theorem code_storeWord {ctx : Context} {target message : String} {kind : ValueKind}
    (hkind : kind ≠ .string) (s : Session) :
    (storeWord ctx target message kind s).code =
      List.map .instr ([.mov (.cell target) ax] ++ printItem message ++
        [.mov ax (.cell target), .call .printNumber]) := by
  rw [storeWord, if_neg hkind]
  rfl

/-! ## Statements -/

/-- The code of a statement has the effect of the statement. -/
theorem performs_of_lowers {p : Platform} {program : List Code} {ctx : Context}
    {level : Nat} {inChain : Bool} {tree : Node} {s s' : Session} {code : List Code}
    {warnings : List Warning} {flags : Option Comparison}
    (hnodup : (definedLabels program).Nodup) (hp : p.Shows ctx.labels)
    (h : Lowers ctx level inChain tree s code warnings s' flags)
    (htree : tree.isStatement) (hs : s.HoldsNumbers) :
    Performs p program code tree.effect := by
  induction h with
  | @number level inChain s text _ hlevel hvalue =>
    have h : Lowers ctx level inChain (.number text) s _ _ s none := .number hlevel hvalue
    exact .ofComputes (computes_of_lowers hnodup h htree)
  | @boolean level inChain s value hlevel =>
    have h : Lowers ctx level inChain (.boolean value) s _ _ s none := .boolean hlevel
    exact .ofComputes (computes_of_lowers hnodup h htree)
  | @identifier level inChain s name hlevel =>
    have h : Lowers ctx level inChain (.identifier name) s _ _ _ none :=
      .identifier hlevel
    exact .ofComputes (computes_of_lowers hnodup h htree)
  | @operator level inChain s op lhs rhs _ _ _ _ _ _ _ _ hlevel hl hr =>
    have h : Lowers ctx level inChain (.operator op lhs rhs) s _ _ _ op.comparison? :=
      .operator hlevel hl hr
    exact .ofComputes (computes_of_lowers hnodup h htree)
  | @string _ _ _ text label _ hlabel =>
    rintro rest - m out σ' ⟨rfl, rfl⟩
    have hliteral : ctx.labels.label? (.literal text) = some label := hlabel
    have hlineBreak : ctx.labels.label? .lineBreak = some ctx.labels.newLine := rfl
    obtain ⟨m', hexec, hcells, hstack, hout⟩ :=
      exists_exec_printItems hp hliteral hlineBreak m
    exact ⟨m', .instrs hexec, hcells, hstack, hout⟩
  | assignLiteral => exact nomatch htree
  | @assignWord _ _ s target value message code₁ _ s₁ flags _ hmessage _ hvalue =>
    rintro rest hsuffix m out σ' ⟨w, hw, rfl, rfl⟩
    -- No variable is known as a text here, so that the value is echoed as a number.
    rw [code_storeWord (hs.kindOf_ne_string htree), List.append_assoc] at hsuffix ⊢
    obtain ⟨m₁, hrun, hsame, hax⟩ :=
      (computes_of_lowers hnodup hvalue htree).materialize hnodup s₁ _ hsuffix m w hw
    obtain ⟨m₂, hexec, hcells, hstack, hout⟩ := exists_exec_storeWord hp hmessage hax
    refine ⟨m₂, hrun.trans (.instrs hexec), ?_, hstack.trans hsame.stack, ?_⟩
    · rw [hcells, hsame.cells]
    · rw [hout, hsame.output]
  | last hlevel hfirst ih => exact ih htree hs
  | chain hlevel hfirst hnext ih₁ ih₂ =>
    obtain ⟨htree₁, htree₂⟩ := Bool.and_eq_true_iff.mp htree
    exact (ih₁ htree₁ hs).andThen (ih₂ htree₂ (hfirst.holdsNumbers htree₁ hs))
  | ifThen hlevel htag hcond hbody ihc ihb =>
    obtain ⟨htree₁, htree₂⟩ := Bool.and_eq_true_iff.mp htree
    have hs₁ := hcond.holdsNumbers (Node.isStatement_of_isNumeric htree₁) hs
    exact .conditional hnodup _ (computes_of_lowers hnodup hcond htree₁)
      (ihb htree₂ hs₁) .nil
  | ifElse hlevel htag hcond hbody halternative ihc ihb iha =>
    obtain ⟨h, htree₃⟩ := Bool.and_eq_true_iff.mp htree
    obtain ⟨htree₁, htree₂⟩ := Bool.and_eq_true_iff.mp h
    have hs₁ := hcond.holdsNumbers (Node.isStatement_of_isNumeric htree₁) hs
    have hs₂ := hbody.holdsNumbers htree₂ hs₁
    exact .conditional hnodup _ (computes_of_lowers hnodup hcond htree₁) (ihb htree₂ hs₁)
      (iha htree₃ hs₂)
  | whileLoop hlevel htag hcond hbody ihc ihb =>
    obtain ⟨htree₁, htree₂⟩ := Bool.and_eq_true_iff.mp htree
    have hs₁ := hcond.holdsNumbers (Node.isStatement_of_isNumeric htree₁) hs
    exact .loop hnodup _ (computes_of_lowers hnodup hcond htree₁) (ihb htree₂ hs₁)
  | forLoop hlevel htag hinit hcond hbody hstep ihi ihc ihb ihs =>
    obtain ⟨h, htree₄⟩ := Bool.and_eq_true_iff.mp htree
    obtain ⟨h, htree₃⟩ := Bool.and_eq_true_iff.mp h
    obtain ⟨htree₁, htree₂⟩ := Bool.and_eq_true_iff.mp h
    have hs₁ := hinit.holdsNumbers htree₁ hs
    have hs₂ := hcond.holdsNumbers (Node.isStatement_of_isNumeric htree₂) hs₁
    have hs₃ := hbody.holdsNumbers htree₄ hs₂
    exact (ihi htree₁ hs).andThen (.loop hnodup _ (computes_of_lowers hnodup hcond htree₂)
      ((ihb htree₄ hs₂).andThen (ihs htree₃ hs₃)))
  | unknown => exact nomatch htree

/-! ## Programs -/

namespace Compilation

/-- The code of a program defines no label twice. -/
theorem nodup_definedLabels_lowered (settings : Settings) (tree : Node) :
    (definedLabels (lowered settings tree).code).Nodup :=
  nodup_definedLabels_program (context settings tree) (some tree) .initial

theorem holdsNumbers_initial : Session.initial.HoldsNumbers := by
  intro x
  simp [Session.initial, SymbolTable.kind?, SymbolTable.get?, SymbolTable.empty]

/-- Where the data of a program is loaded, its labels show its items. -/
theorem shows_of_loads {p : Platform} {data : StaticData}
    (h : p.Loads (data.segment data.labels)) : p.Shows data.labels := by
  intro item label hlabel
  exact DataItem.shown_of_prefix (h item label (StaticData.line_mem_segment hlabel))

/-- **Lowering preserves meaning.** Take a statement over numbers that is compiled, a
machine with its data segment in memory, and an effect that the statement has on the
variables of this machine. Then the code between the opening and the epilogue of the
listing runs from its first line to its end: it leaves the variables as the statement
does, prints the same text, and leaves the stack as it was. -/
theorem runs_of_effect {settings : Settings} {tree : Node} {compiled : Compiled}
    {p : Platform} {m : Machine} {out : List Char} {σ' : Store}
    (hcompile : compile settings tree = .ok compiled) (htree : tree.isStatement)
    (hp : p.Loads (compiled.data.segment compiled.data.labels))
    (heffect : tree.effect m.cells out σ') :
    ∃ code m', compiled.lines =
        opening compiled.data compiled.data.labels ++ code.map .code ++ epilogue ∧
      Runs p code ⟨code, m⟩ ⟨[], m'⟩ ∧ m'.cells = σ' ∧ m'.stack = m.stack ∧
      m'.output = m.output ++ out := by
  have hnone := exists_compile_ok_iff.mp ⟨compiled, hcompile⟩
  rw [compile_of_none hnone] at hcompile
  obtain rfl := Except.ok.inj hcompile
  have hresult : (lowered settings tree).result = .ok () := by
    rw [result_lowered, hnone]
    rfl
  obtain ⟨flags, hnode⟩ := node_eq_of_program_ok hresult
  have hshows : p.Shows (context settings tree).labels := shows_of_loads hp
  have hnodup := nodup_definedLabels_lowered settings tree
  have hperforms := performs_of_lowers hnodup hshows (lowers_of_node_eq hnode) htree
    holdsNumbers_initial
  obtain ⟨m', hrun, hcells, hstack, hout⟩ :=
    hperforms [] (by simp [lowered]) m out σ' heffect
  refine ⟨(lowered settings tree).code, m', rfl, ?_, hcells, hstack, hout⟩
  rwa [List.append_nil] at hrun

/-- A loop that counts from zero to two, on a machine with a word on the stack. -/
theorem runs_of_effect_whileLoop :
    ∃ (compiled : Compiled) (p : Platform) (m : Machine),
      compile {} (.whileLoop (.operator (.compare .lt) (.identifier "x") (.number "2"))
        (.assignment "x" (.operator (.arith .add) (.identifier "x") (.number "1")))) =
          .ok compiled ∧
      p.Loads (compiled.data.segment compiled.data.labels) ∧ m.cells "x" = 0 ∧
      m.stack = [7] ∧
      ∃ code m', compiled.lines =
          opening compiled.data compiled.data.labels ++ code.map .code ++ epilogue ∧
        Runs p code ⟨code, m⟩ ⟨[], m'⟩ ∧ m'.cells "x" = 2 ∧ m'.stack = [7] ∧
        m'.output = m.output ++ "x is 1\r\nx is 2\r\n".toList := by
  have hnone : Node.firstFault? (.whileLoop
      (.operator (.compare .lt) (.identifier "x") (.number "2"))
      (.assignment "x" (.operator (.arith .add) (.identifier "x") (.number "1"))))
      ({} : Settings).maxDepth = none := rfl
  have hdata : StaticData.collect (.whileLoop
      (.operator (.compare .lt) (.identifier "x") (.number "2"))
      (.assignment "x" (.operator (.arith .add) (.identifier "x") (.number "1")))) =
        ⟨.ofList ["x"], ∅⟩ := by cbv
  have hsegment : StaticData.segment ⟨.ofList ["x"], ∅⟩
    (StaticData.labels ⟨.ofList ["x"], ∅⟩) =
      [.segmentStart .data, .word "x", .message "msg_x" "x", .lineBreak "new_line",
        .segmentEnd .data] := rfl
  obtain ⟨p, hp⟩ : ∃ p : Platform,
    p.Loads [.segmentStart .data, .word "x", .message "msg_x" "x",
      .lineBreak "new_line", .segmentEnd .data] := by
    refine ⟨⟨0, fun label => if label = "msg_x" then 16 else 0,
      fun a => if a = 16 then "x is $".toList else "\r\n$".toList, fun _ => 9,
      fun _ => ⟨true, true, true⟩⟩, ?_⟩
    intro item label hline
    cases item with
    | message name =>
      obtain ⟨rfl, rfl⟩ : label = "msg_x" ∧ name = "x" := by
        simpa [DataItem.line] using hline
      exact List.prefix_rfl
    | literal text => simp [DataItem.line] at hline
    | lineBreak =>
      obtain rfl : label = "new_line" := by simpa [DataItem.line] using hline
      exact List.prefix_rfl
  rw [← hsegment, ← hdata] at hp
  have hcompile := compile_of_none hnone
  have heffect : Node.effect (.whileLoop
      (.operator (.compare .lt) (.identifier "x") (.number "2"))
      (.assignment "x" (.operator (.arith .add) (.identifier "x") (.number "1"))))
      (fun _ => 0) ("x is 1\r\n".toList ++ ("x is 2\r\n".toList ++ []))
      (Function.update (Function.update (fun _ => 0) "x" 1) "x" 2) :=
    .round (w := 1) rfl (by decide) ⟨1, rfl, rfl, rfl⟩
      (.round (w := 1) rfl (by decide) ⟨2, rfl, rfl, rfl⟩ (.done rfl))
  obtain ⟨code, m', hlines, hrun, hcells, hstack, hout⟩ := runs_of_effect
    (m := ⟨fun _ => 0, ⟨false, false, false⟩, [7], fun _ => 0, []⟩)
    hcompile rfl hp heffect
  exact ⟨_, p, _, hcompile, hp, rfl, rfl, code, m', hlines, hrun, by rw [hcells]; rfl,
    hstack, hout⟩

end Compilation

end RealMode
