import RealMode.Proofs.Lowering
import RealMode.Proofs.Semantics

/-!
# Code of expressions

The code of an expression computes its value: it runs from its beginning to its end, and
then the word is in `AX`, or the flags of a comparison tell it. Variables, output and the
stack are as before.

- `Computes p program code value flags` says so of a piece of code, wherever it stands in
  a program.
- `Computes.materialize` turns flags into a word.
- `exists_exec_operatorInstrs`: the instructions of an operator combine `AX` and `BX`.
- `computes_of_lowers` puts them together by induction on the rules of lowering.
-/

namespace RealMode

open Lowering

/-- Only registers and flags are different. -/
structure Machine.SameMemory (m m' : Machine) : Prop where
  cells : m'.cells = m.cells
  stack : m'.stack = m.stack
  output : m'.output = m.output

theorem Machine.SameMemory.trans {m₁ m₂ m₃ : Machine} (h₁ : m₁.SameMemory m₂)
    (h₂ : m₂.SameMemory m₃) : m₁.SameMemory m₃ :=
  ⟨h₂.cells.trans h₁.cells, h₂.stack.trans h₁.stack, h₂.output.trans h₁.output⟩

/-- The state holds a word: in `AX`, or as the outcome of the comparison whose flags are
set. -/
def Machine.Leaves (m : Machine) (w : Word) : Option Comparison → Prop
  | none => m.registers .ax = w
  | some c => w = if c.falseCondition.holds m.flags then 0 else 1

/-- The code, wherever it stands in the program, runs to its end and leaves the value. -/
def Computes (p : Platform) (program code : List Code) (value : Store → Option Word)
    (flags : Option Comparison) : Prop :=
  ∀ rest, code ++ rest <:+ program → ∀ m w, value m.cells = some w →
    ∃ m', Runs p program ⟨code ++ rest, m⟩ ⟨rest, m'⟩ ∧ m.SameMemory m' ∧
    m'.Leaves w flags

/-! ## Single instructions -/

section Exec

variable {p : Platform} {m : Machine}

theorem foldlM_exec_cons {m₁ : Machine} {i : Instruction} {is : List Instruction}
    (h : m.exec? p i = some m₁) :
    (i :: is).foldlM (Machine.exec? p) m = is.foldlM (Machine.exec? p) m₁ := by
  rw [List.foldlM_cons, h]
  rfl

/-- A number that fits a word is loaded as this word. -/
theorem exec?_mov_imm {value : Int} (hfits : Literal.fitsWord value) :
    m.exec? p (.mov ax (imm value)) = some (m.set .ax (.ofInt 16 value)) := by
  have hrange : -32768 ≤ value ∧ value ≤ 32767 := by
    simpa [Literal.fitsWord] using hfits
  have hencode : Numeral.encode? 16 (.decimal value) = some (.ofInt 16 value) := by
    refine if_pos (.inl ?_)
    rw [Numeral.value]
    exact BitVec.toInt_ofInt_eq_self (by decide) hrange.1 (Int.lt_add_one_of_le hrange.2)
  simp [Machine.exec?, Machine.move?, Machine.store?, Machine.word?, ax, imm, hencode]

theorem exec?_mov_cell (name : String) :
    m.exec? p (.mov ax (.cell name)) = some (m.set .ax (m.cells name)) := rfl

/-- The lower half of a product is the product of words. -/
theorem registers_multiply_ax (factor : Word) :
    (m.multiply p factor).registers .ax = m.registers .ax * factor := by
  rw [Machine.multiply, Machine.registers_setFlags,
    Machine.registers_set_of_ne _ _ (by decide), Machine.registers_set_self]
  rfl

/-- A dividend whose upper half is zero is divided like a word. -/
theorem divide?_of_dx_eq_zero {b : Word} (hdx : m.registers .dx = 0) (hb : b ≠ 0) :
    m.divide? p b = some (((m.set .ax (m.registers .ax / b)).set .dx
      (m.registers .ax % b)).setFlags (p.undefinedFlags m)) := by
  have hdividend : (m.registers .dx).toNat * 65536 + (m.registers .ax).toNat =
      (m.registers .ax).toNat := by
    simp [hdx]
  have hfits : ¬ (b = 0 ∨ 65536 ≤ (m.registers .ax / b).toNat) :=
    not_or.mpr ⟨hb, Nat.not_le.mpr (BitVec.isLt _)⟩
  simp only [Machine.divide?, hdividend, ← BitVec.toNat_udiv, ← BitVec.toNat_umod]
  rw [if_neg hfits, BitVec.ofNat_toNat, BitVec.ofNat_toNat, BitVec.setWidth_eq,
    BitVec.setWidth_eq]

/-- The instructions of an operator combine the words in `AX` and `BX`. -/
theorem exists_exec_operatorInstrs {op : BinaryOp} {a b w : Word}
    (ha : m.registers .ax = a) (hb : m.registers .bx = b) (hw : op.result? a b = some w) :
    ∃ m', (operatorInstrs op).foldlM (Machine.exec? p) m = some m' ∧ m.SameMemory m' ∧
      m'.Leaves w op.comparison? := by
  subst ha hb
  cases op with
  | compare c =>
    refine ⟨_, rfl, ⟨rfl, rfl, rfl⟩, ?_⟩
    obtain rfl := Option.some.inj hw
    show _ = if c.falseCondition.holds (.ofSub (m.registers .ax) (m.registers .bx)) then
      _ else _
    rw [c.holds_falseCondition]
    cases c.test (m.registers .ax) (m.registers .bx) <;> rfl
  | arith op =>
    cases op with
    | add =>
      obtain rfl := Option.some.inj hw
      exact ⟨_, rfl, ⟨rfl, rfl, rfl⟩, m.registers_set_self .ax _⟩
    | sub =>
      obtain rfl := Option.some.inj hw
      exact ⟨_, rfl, ⟨rfl, rfl, rfl⟩, m.registers_set_self .ax _⟩
    | mul =>
      obtain rfl := Option.some.inj hw
      exact ⟨_, rfl, ⟨rfl, rfl, rfl⟩, registers_multiply_ax _⟩
    | div =>
      have hdivisor : m.registers .bx ≠ 0 := by
        intro hzero
        rw [BinaryOp.result?, Arithmetic.result?, if_pos hzero] at hw
        exact nomatch hw
      rw [BinaryOp.result?, Arithmetic.result?, if_neg hdivisor] at hw
      obtain rfl := Option.some.inj hw
      -- The upper half of the dividend is cleared first.
      obtain ⟨m₁, hclear, hsame, hdx, hax, hbx⟩ : ∃ m₁, m.exec? p (.xor dx dx) = some m₁ ∧
          m.SameMemory m₁ ∧ m₁.registers .dx = 0 ∧ m₁.registers .ax = m.registers .ax ∧
          m₁.registers .bx = m.registers .bx :=
        ⟨_, rfl, ⟨rfl, rfl, rfl⟩, by simp, by simp, by simp⟩
      rw [← hbx] at hdivisor
      have hdivide : m₁.exec? p (.div .bx) = some _ := divide?_of_dx_eq_zero hdx hdivisor
      refine ⟨_, (foldlM_exec_cons hclear).trans (foldlM_exec_cons hdivide),
        ⟨hsame.cells, hsame.stack, hsame.output⟩, ?_⟩
      simp [Machine.Leaves, BinaryOp.comparison?, hax, hbx]

end Exec

/-! ## Pieces of code -/

namespace Computes

variable {p : Platform} {program code : List Code} {value : Store → Option Word}
  {flags : Option Comparison}

theorem materialize (hnodup : (definedLabels program).Nodup) (s : Session)
    (h : Computes p program code value flags) :
    Computes p program (code ++ (materialize flags s).code) value none := by
  cases flags with
  | none =>
    show Computes p program (code ++ []) value none
    rwa [List.append_nil]
  | some c =>
    intro rest hsuffix m w hw
    rw [List.append_assoc] at hsuffix ⊢
    obtain ⟨m₁, hrun, hsame, hw₁⟩ := h _ hsuffix m w hw
    have hplace : goto? program (.boolEnd (s.counters.get .boolean)) = some rest := by
      refine goto?_eq_of_suffix hnodup
        (.trans ?_ ((List.suffix_append code _).trans hsuffix))
      exact List.suffix_append [_, _, _] _
    -- Loading a register does not touch the flags.
    have hzero : m₁.exec? p (.mov ax (imm 0)) = some (m₁.set .ax 0) := exec?_mov_imm rfl
    have hone : (m₁.set .ax 0).exec? p (.mov ax (imm 1)) =
        some ((m₁.set .ax 0).set .ax 1) :=
      exec?_mov_imm rfl
    have hbranch := hrun.trans ((Runs.instr hzero).trans (Runs.jumpIf hplace))
    rw [Machine.flags_set] at hbranch
    cases hfalse : c.falseCondition.holds m₁.flags with
    | true =>
      rw [hfalse, if_pos rfl] at hbranch
      rw [Machine.Leaves, hfalse, if_pos rfl] at hw₁
      exact ⟨_, hbranch, hsame.trans ⟨rfl, rfl, rfl⟩,
        (m₁.registers_set_self .ax 0).trans hw₁.symm⟩
    | false =>
      rw [hfalse, if_neg Bool.false_ne_true] at hbranch
      rw [Machine.Leaves, hfalse, if_neg Bool.false_ne_true] at hw₁
      exact ⟨_, hbranch.trans ((Runs.instr hone).trans (Runs.label _)),
        hsame.trans ⟨rfl, rfl, rfl⟩,
        ((m₁.set .ax 0).registers_set_self .ax 1).trans hw₁.symm⟩

/-- A single instruction that loads the value. -/
theorem load {i : Instruction}
    (h : ∀ m w, value m.cells = some w → Machine.exec? p m i = some (m.set .ax w)) :
    Computes p program [.instr i] value none := by
  intro rest _ m w hw
  exact ⟨m.set .ax w, .instr (h m w hw), ⟨rfl, rfl, rfl⟩, m.registers_set_self .ax w⟩

/-- The left operand waits on the stack while the right one is computed. -/
theorem operator {code₁ code₂ : List Code} {value₁ value₂ : Store → Option Word}
    (op : BinaryOp) (h₁ : Computes p program code₁ value₁ none)
    (h₂ : Computes p program code₂ value₂ none) :
    Computes p program
      (code₁ ++ .instr (.push .ax) ::
        (code₂ ++ List.map .instr ([.mov bx ax, .pop .ax] ++ operatorInstrs op)))
      (fun σ => do op.result? (← value₁ σ) (← value₂ σ)) op.comparison? := by
  intro rest hsuffix m w hw
  obtain ⟨a, ha, hw⟩ := Option.bind_eq_some_iff.mp hw
  obtain ⟨b, hb, hw⟩ := Option.bind_eq_some_iff.mp hw
  simp only [List.append_assoc, List.cons_append] at hsuffix ⊢
  obtain ⟨m₁, hrun₁, hsame₁, hax₁⟩ := h₁ _ hsuffix m a ha
  have hpush : m₁.exec? p (.push .ax) = some { m₁ with stack := a :: m₁.stack } := by
    rw [Machine.exec?, show m₁.registers .ax = a from hax₁]
  -- The right operand starts with the left one on the stack and gives the stack back as
  -- it was.
  have hb₁ : value₂ m₁.cells = some b := hsame₁.cells ▸ hb
  obtain ⟨m₂, hrun₂, hsame₂, hax₂⟩ := h₂ _
    (((List.suffix_cons _ _).trans (List.suffix_append _ _)).trans hsuffix)
    { m₁ with stack := a :: m₁.stack } b hb₁
  have hmove : m₂.exec? p (.mov bx ax) = some (m₂.set .bx b) := by
    show some (m₂.set .bx (m₂.registers .ax)) = _
    rw [show m₂.registers .ax = b from hax₂]
  have hpop : (m₂.set .bx b).exec? p (.pop .ax) =
      some ({ m₂.set .bx b with stack := m₁.stack }.set .ax a) := by
    rw [Machine.exec?, Machine.stack_set, hsame₂.stack]
  have hax₃ : ({ m₂.set .bx b with stack := m₁.stack }.set .ax a).registers .ax =
      a := by simp
  have hbx₃ : ({ m₂.set .bx b with stack := m₁.stack }.set .ax a).registers .bx =
      b := by simp
  obtain ⟨m₃, hexec, hsame₃, hw₃⟩ := exists_exec_operatorInstrs (p := p) hax₃ hbx₃ hw
  have hrun₃ : Runs p program
      ⟨List.map .instr ([.mov bx ax, .pop .ax] ++ operatorInstrs op) ++ rest, m₂⟩
        ⟨rest, m₃⟩ :=
    .instrs ((foldlM_exec_cons hmove).trans ((foldlM_exec_cons hpop).trans hexec))
  refine ⟨m₃, hrun₁.trans ((Runs.instr hpush).trans (hrun₂.trans hrun₃)),
    ⟨?_, ?_, ?_⟩, hw₃⟩
  · exact hsame₃.cells.trans (hsame₂.cells.trans hsame₁.cells)
  · exact hsame₃.stack.trans hsame₁.stack
  · exact hsame₃.output.trans (hsame₂.output.trans hsame₁.output)

end Computes

/-- The code of an expression computes its value. -/
theorem computes_of_lowers {p : Platform} {program : List Code} {ctx : Context}
    {level : Nat} {inChain : Bool} {tree : Node} {s s' : Session} {code : List Code}
    {warnings : List Warning} {flags : Option Comparison}
    (hnodup : (definedLabels program).Nodup)
    (h : Lowers ctx level inChain tree s code warnings s' flags)
    (hnumeric : tree.isNumeric) :
    Computes p program code tree.eval? flags := by
  induction h with
  | @number level inChain s text value hlevel hvalue =>
    refine .load fun m w hw => ?_
    rw [Node.isNumeric, hvalue] at hnumeric
    rw [Node.eval?, hvalue] at hw
    obtain rfl := Option.some.inj hw
    exact exec?_mov_imm hnumeric
  | @boolean level inChain s value hlevel =>
    refine .load fun m w hw => ?_
    obtain rfl := Option.some.inj hw
    cases value <;> exact exec?_mov_imm rfl
  | identifier hlevel =>
    refine .load fun m w hw => ?_
    obtain rfl := Option.some.inj hw
    rfl
  | @operator level inChain s op lhs rhs code₁ warnings₁ s₁ flags₁ code₂ warnings₂
      s₂ flags₂
      hlevel hl hr ihl ihr =>
    obtain ⟨hlhs, hrhs⟩ := Bool.and_eq_true_iff.mp hnumeric
    exact .operator op ((ihl hlhs).materialize hnodup s₁)
      ((ihr hrhs).materialize hnodup s₂)
  | string | assignLiteral | assignWord | last | chain | ifThen | ifElse | whileLoop
      | forLoop
  | unknown => exact nomatch hnumeric

end RealMode
