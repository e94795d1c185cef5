import Mathlib.Data.List.TakeWhile
import Mathlib.Logic.Function.Basic
import Mathlib.Logic.Relation
import RealMode.Proofs.CodeLabels
import RealMode.Proofs.StaticData

/-!
# The machine

A 16-bit processor that runs the code of a listing, as far as this code can tell: word
registers, three flags, a stack, one word of memory for each variable, and what has been
printed.

- `Machine.exec?` is the effect of one instruction that is not a jump. There is none where
  the processor stops: division by zero or with too large a quotient, and `POP` from an
  empty stack.
- `step?` takes one step in a program. The position in the program is the code that is
  still to be run; a jump looks its label up in the whole program (`goto?`).
- `Runs` is a finite number of steps.

What the processor or the operating system leaves open is up to a `Platform`, and
statements are about all of them: where data is loaded, which flags a multiplication
leaves, and what is in `AX` after a text is printed. A call of a print procedure is one
step here, with the effect that the procedure is written for.
-/

namespace RealMode

/-- A word of the machine. -/
abbrev Word := BitVec 16

theorem toInt_of_nonneg {w : Word} (h : 0 ≤ w.toInt) : w.toInt = w.toNat := by
  rw [BitVec.toInt_eq_toNat_cond] at h ⊢
  split at h <;> omega

theorem toInt_of_neg {w : Word} (h : w.toInt < 0) : w.toInt = w.toNat - 65536 := by
  rw [BitVec.toInt_eq_toNat_cond] at h ⊢
  split at h <;> omega

/-! ## Flags -/

/-- The flags that signed conditional jumps look at. -/
structure Flags where
  zero : Bool
  sign : Bool
  overflow : Bool
deriving DecidableEq, Repr

namespace Flags

variable {w : Nat}

/-- The flags after a subtraction or a comparison. -/
def ofSub (a b : BitVec w) : Flags :=
  ⟨a - b == 0, (a - b).msb, a.ssubOverflow b⟩

/-- The flags after an addition. -/
def ofAdd (a b : BitVec w) : Flags :=
  ⟨a + b == 0, (a + b).msb, a.saddOverflow b⟩

/-- The flags after a bitwise operation. -/
def ofXor (a b : BitVec w) : Flags :=
  ⟨a ^^^ b == 0, (a ^^^ b).msb, false⟩

end Flags

/-- Whether a conditional jump is taken. -/
def Condition.holds (flags : Flags) : Condition → Bool
  | .equal => flags.zero
  | .notEqual => !flags.zero
  | .greater => !flags.zero && flags.sign == flags.overflow
  | .greaterOrEqual => flags.sign == flags.overflow
  | .less => flags.sign != flags.overflow
  | .lessOrEqual => flags.zero || flags.sign != flags.overflow

/-- The outcome of a comparison of signed words. -/
def Comparison.test (a b : Word) : Comparison → Bool
  | .eq => a == b
  | .ne => a != b
  | .lt => a.toInt < b.toInt
  | .gt => b.toInt < a.toInt
  | .le => a.toInt ≤ b.toInt
  | .ge => b.toInt ≤ a.toInt

namespace Flags

theorem zero_ofSub (a b : Word) : (ofSub a b).zero = (a == b) := by
  rw [Bool.eq_iff_iff, beq_iff_eq]
  simp only [ofSub, beq_iff_eq]
  exact BitVec.sub_eq_iff_eq_add.trans (by simp)

/-- The sign of a difference is wrong exactly when it overflows, so that the two flags
together tell the order of the operands. -/
theorem sign_ne_overflow_ofSub (a b : Word) :
    ((ofSub a b).sign != (ofSub a b).overflow) = decide (a.toInt < b.toInt) := by
  have hdiff : (a - b).toInt = (a.toInt - b.toInt).bmod 65536 := BitVec.toInt_sub
  have ha := a.toInt_lt
  have ha' := a.le_toInt
  have hb := b.toInt_lt
  have hb' := b.le_toInt
  -- The exact difference is less than one turn away from the wrapped one.
  simp only [ofSub, BitVec.msb_eq_toInt, hdiff, BitVec.ssubOverflow, Int.bmod_def]
  grind

end Flags

/-- After a comparison, the jump that skips the true branch is taken exactly when it is
false. -/
theorem Comparison.holds_falseCondition (c : Comparison) (a b : Word) :
    c.falseCondition.holds (.ofSub a b) = !c.test a b := by
  have hzero := Flags.zero_ofSub a b
  have hless := Flags.sign_ne_overflow_ofSub a b
  have heq : (a == b) = decide (a.toInt = b.toInt) := by
    rw [Bool.eq_iff_iff, beq_iff_eq, decide_eq_true_iff, BitVec.toInt_inj]
  cases c with
  | eq => simp [falseCondition, Condition.holds, test, hzero]
  | ne => simp [falseCondition, Condition.holds, test, hzero, bne]
  | lt => grind [falseCondition, Condition.holds, test]
  | gt => grind [falseCondition, Condition.holds, test]
  | le => grind [falseCondition, Condition.holds, test]
  | ge => grind [falseCondition, Condition.holds, test]

/-! ## States -/

/-- The state of the machine. -/
structure Machine where
  registers : Register → Word
  flags : Flags
  stack : List Word
  cells : String → Word
  output : List Char

/-- What the code of a listing cannot know: where the data is and what it is followed by,
and what is left in places that have no defined content. -/
structure Platform where
  /-- The address of the data segment. -/
  dataSegment : Word
  /-- The offset of the item with the given label. -/
  address : String → Word
  /-- The characters from an offset on. -/
  memory : Word → List Char
  /-- What a call of the operating system leaves in `AX`. -/
  leftover : Machine → Word
  /-- The flags where an instruction leaves them undefined. -/
  undefinedFlags : Machine → Flags

namespace Machine

/-- Loads a word register. -/
def set (m : Machine) (r : Register) (w : Word) : Machine :=
  { m with registers := Function.update m.registers r w }

/-- Stores the word of a variable. -/
def setCell (m : Machine) (name : String) (w : Word) : Machine :=
  { m with cells := Function.update m.cells name w }

/-- Sets the flags. -/
def setFlags (m : Machine) (flags : Flags) : Machine :=
  { m with flags := flags }

/-- Prints characters. -/
def print (m : Machine) (text : List Char) : Machine :=
  { m with output := m.output ++ text }

/-- The content of a byte register. -/
def byte (m : Machine) : ByteRegister → BitVec 8
  | .ah => (m.registers .ax).extractLsb' 8 8
  | .dl => (m.registers .dx).setWidth 8

/-- Loads a byte register and leaves the other half alone. -/
def setByte (m : Machine) (b : BitVec 8) : ByteRegister → Machine
  | .ah => m.set .ax (b ++ (m.registers .ax).setWidth 8)
  | .dl => m.set .dx ((m.registers .dx).extractLsb' 8 8 ++ b)

section Fields

variable (m : Machine) (r : Register) (w : Word) (name : String) (flags : Flags)
  (text : List Char)

@[simp] theorem registers_set_self : (m.set r w).registers r = w := by
  simp [set]

@[simp] theorem registers_set_of_ne {r r' : Register} (h : r' ≠ r) :
    (m.set r w).registers r' = m.registers r' := by
  simp [set, h]

@[simp] theorem flags_set : (m.set r w).flags = m.flags := rfl
@[simp] theorem stack_set : (m.set r w).stack = m.stack := rfl
@[simp] theorem cells_set : (m.set r w).cells = m.cells := rfl
@[simp] theorem output_set : (m.set r w).output = m.output := rfl

@[simp] theorem registers_setCell : (m.setCell name w).registers = m.registers := rfl
@[simp] theorem stack_setCell : (m.setCell name w).stack = m.stack := rfl
@[simp] theorem cells_setCell :
    (m.setCell name w).cells = Function.update m.cells name w := rfl
@[simp] theorem output_setCell : (m.setCell name w).output = m.output := rfl

@[simp] theorem registers_setFlags : (m.setFlags flags).registers = m.registers := rfl
@[simp] theorem flags_setFlags : (m.setFlags flags).flags = flags := rfl
@[simp] theorem stack_setFlags : (m.setFlags flags).stack = m.stack := rfl
@[simp] theorem cells_setFlags : (m.setFlags flags).cells = m.cells := rfl
@[simp] theorem output_setFlags : (m.setFlags flags).output = m.output := rfl

@[simp] theorem registers_print : (m.print text).registers = m.registers := rfl
@[simp] theorem stack_print : (m.print text).stack = m.stack := rfl
@[simp] theorem cells_print : (m.print text).cells = m.cells := rfl
@[simp] theorem output_print : (m.print text).output = m.output ++ text := rfl

end Fields

end Machine

/-! ## Instructions -/

/-- The value of a number. -/
def Numeral.value : Numeral → Int
  | .decimal value => value
  | .hex value _ => value
  | .character c => c.toNat

/-- A number in `w` bits, signed or unsigned. A number that does not fit cannot be
assembled. -/
def Numeral.encode? (w : Nat) (n : Numeral) : Option (BitVec w) :=
  let bits := BitVec.ofInt w n.value
  if bits.toInt = n.value ∨ bits.toNat = n.value then some bits else none

/-- A word as a signed decimal number. -/
def decimal (w : Word) : List Char :=
  (toString w.toInt).toList

/-- The characters that end a line. -/
def lineEnd : List Char :=
  ['\r', '\n']

/-- The characters before the first dollar sign: what is printed of a text in memory. -/
def shown (text : List Char) : List Char :=
  text.takeWhile (· ≠ '$')

namespace Machine

variable (p : Platform)

/-- The word that an operand stands for. -/
def word? (m : Machine) : Operand → Option Word
  | .word r => some (m.registers r)
  | .cell name => some (m.cells name)
  | .number n => n.encode? 16
  | .dataSegment => some p.dataSegment
  | .byte _ => none

/-- The byte that an operand stands for. -/
def byte? (m : Machine) : Operand → Option (BitVec 8)
  | .byte r => some (m.byte r)
  | .number n => n.encode? 8
  | _ => none

/-- Stores a word where an operand says. -/
def store? (m : Machine) (w : Word) : Operand → Option Machine
  | .word r => some (m.set r w)
  | .cell name => some (m.setCell name w)
  | _ => none

/-- Sets the flags by two operands of the same width. -/
def compare? (flags : ∀ {w}, BitVec w → BitVec w → Flags) (left right : Operand)
    (m : Machine) :
    Option Machine :=
  match left with
  | .byte r => (m.byte? right).map fun b => m.setFlags (flags (m.byte r) b)
  | left => do
    let a ← m.word? p left
    let b ← m.word? p right
    return m.setFlags (flags a b)

/-- Combines the target with the source and sets the flags. -/
def combine? (f : ∀ {w}, BitVec w → BitVec w → BitVec w)
    (flags : ∀ {w}, BitVec w → BitVec w → Flags) (target source : Operand) (m : Machine) :
    Option Machine :=
  match target with
  | .byte r =>
    (m.byte? source).map fun b =>
      (m.setByte (f (m.byte r) b) r).setFlags (flags (m.byte r) b)
  | target => do
    let a ← m.word? p target
    let b ← m.word? p source
    let m ← m.store? (f a b) target
    return m.setFlags (flags a b)

/-- Copies the source to the target. -/
def move? (target source : Operand) (m : Machine) : Option Machine :=
  match target with
  | .byte r => (m.byte? source).map fun b => m.setByte b r
  | target => do m.store? (← m.word? p source) target

/-- Multiplies `AX` without sign, with the product in `DX` and `AX`. -/
def multiply (factor : Word) (m : Machine) : Machine :=
  let product := (m.registers .ax).toNat * factor.toNat
  ((m.set .ax (.ofNat 16 product)).set .dx (.ofNat 16 (product / 65536))).setFlags
    (p.undefinedFlags m)

/-- Divides `DX` and `AX` without sign, with the quotient in `AX` and the remainder in
`DX`. -/
def divide? (divisor : Word) (m : Machine) : Option Machine :=
  let dividend := (m.registers .dx).toNat * 65536 + (m.registers .ax).toNat
  let quotient := dividend / divisor.toNat
  if divisor = 0 ∨ 65536 ≤ quotient then none
  else some (((m.set .ax (.ofNat 16 quotient)).set .dx
    (.ofNat 16 (dividend % divisor.toNat))).setFlags (p.undefinedFlags m))

/-- What the print procedures are for: `print_string` prints the text at `DX` and leaves
something else in `AX`, `PrintNumber` prints `AX` on a line and keeps the registers. -/
def call (m : Machine) : Procedure → Machine
  | .printString =>
    ((m.print (shown (p.memory (m.registers .dx)))).set .ax (p.leftover m)).setFlags
      (p.undefinedFlags m)
  | .printNumber =>
    (m.print (decimal (m.registers .ax) ++ lineEnd)).setFlags (p.undefinedFlags m)

/-- Returns from the operating system, which may have changed `AL`. -/
def resume (m : Machine) (al : BitVec 8) : Machine :=
  m.set .ax (m.byte .ah ++ al)

/-- The operating system: function 2 prints the character in `DL`, function 9 the text at
`DX`. -/
def interrupt? (vector : Int) (m : Machine) : Option Machine :=
  if vector = 0x21 then
    match (m.byte .ah).toNat with
    | 2 => some ((m.print [Char.ofNat (m.byte .dl).toNat]).resume
        ((p.leftover m).setWidth 8))
    | 9 => some ((m.print (shown (p.memory (m.registers .dx)))).resume
        ((p.leftover m).setWidth 8))
    | _ => none
  else none

/-- The effect of an instruction. Jumps have none: they are steps of their own. -/
def exec? (m : Machine) : Instruction → Option Machine
  | .mov target source => m.move? p target source
  | .lea target label => some (m.set target (p.address label))
  | .push r => some { m with stack := m.registers r :: m.stack }
  | .pop r => match m.stack with
    | [] => none
    | w :: rest => some ({ m with stack := rest }.set r w)
  | .add target source => m.combine? p (· + ·) .ofAdd target source
  | .sub target source => m.combine? p (· - ·) .ofSub target source
  | .xor target source => m.combine? p (· ^^^ ·) .ofXor target source
  | .cmp left right => m.compare? p .ofSub left right
  | .mul factor => some (m.multiply p (m.registers factor))
  | .div divisor => m.divide? p (m.registers divisor)
  | .inc r => some ((m.set r (m.registers r + 1)).setFlags (.ofAdd (m.registers r) 1))
  | .neg r => some ((m.set r (-m.registers r)).setFlags (.ofSub 0 (m.registers r)))
  | .call procedure => some (m.call p procedure)
  | .interrupt vector => m.interrupt? p vector.value
  | .jump _ | .jumpIf _ _ | .loop _ | .ret => none

end Machine

/-! ## Programs -/

/-- A place in a program, as the code that is still to be run, and the state there. -/
structure Position where
  code : List Code
  machine : Machine

/-- The code after a label. -/
def goto? (program : List Code) (target : CodeLabel) : Option (List Code) :=
  match program with
  | [] => none
  | .label l :: rest => if l = target then some rest else goto? rest target
  | .instr _ :: rest => goto? rest target

/-- One step in a program. A procedure that returns has been run to its end. -/
def step? (p : Platform) (program : List Code) : Position → Option Position
  | ⟨[], _⟩ => none
  | ⟨.label _ :: rest, m⟩ => some ⟨rest, m⟩
  | ⟨.instr i :: rest, m⟩ =>
    match i with
    | .jump target => (goto? program target).map (⟨·, m⟩)
    | .jumpIf condition target =>
      if condition.holds m.flags then (goto? program target).map (⟨·, m⟩)
      else some ⟨rest, m⟩
    | .loop target =>
      let m := m.set .cx (m.registers .cx - 1)
      if m.registers .cx = 0 then some ⟨rest, m⟩ else (goto? program target).map (⟨·, m⟩)
    | .ret => some ⟨[], m⟩
    | i => (m.exec? p i).map (⟨rest, ·⟩)

/-- A finite number of steps. -/
def Runs (p : Platform) (program : List Code) : Position → Position → Prop :=
  Relation.ReflTransGen fun position position' =>
    step? p program position = some position'

/-- Where labels are not repeated, a jump goes to the place that its label stands at. -/
theorem goto?_eq_of_suffix {program rest : List Code} {target : CodeLabel}
    (hnodup : (definedLabels program).Nodup) (h : .label target :: rest <:+ program) :
    goto? program target = some rest := by
  induction program with
  | nil => exact absurd h (by simp)
  | cons c program ih =>
    rcases List.suffix_cons_iff.mp h with heq | hsuffix
    · obtain ⟨rfl, rfl⟩ := List.cons.inj heq
      exact if_pos rfl
    · cases c with
      | instr i => exact ih hnodup hsuffix
      | label l =>
        have hmem : target ∈ definedLabels program :=
          List.mem_filterMap.mpr ⟨_, hsuffix.subset List.mem_cons_self, rfl⟩
        obtain ⟨hnot, hnodup⟩ := List.nodup_cons.mp hnodup
        have hne : l ≠ target := by
          rintro rfl
          exact hnot hmem
        rw [goto?, if_neg hne]
        exact ih hnodup hsuffix

namespace Runs

variable {p : Platform} {program : List Code}

theorem refl (position : Position) : Runs p program position position :=
  Relation.ReflTransGen.refl

theorem trans {a b c : Position} (hab : Runs p program a b) (hbc : Runs p program b c) :
    Runs p program a c :=
  Relation.ReflTransGen.trans hab hbc

theorem one {a b : Position} (h : step? p program a = some b) : Runs p program a b :=
  Relation.ReflTransGen.single h

variable {rest : List Code} {m m' : Machine}

theorem label (l : CodeLabel) : Runs p program ⟨.label l :: rest, m⟩ ⟨rest, m⟩ :=
  .one rfl

theorem instr {i : Instruction} (h : m.exec? p i = some m') :
    Runs p program ⟨.instr i :: rest, m⟩ ⟨rest, m'⟩ := by
  refine .one ?_
  cases i with
  | jump | jumpIf | loop | ret => exact nomatch h
  | _ => exact (congrArg (Option.map _) h)

/-- Instructions that are not jumps are run one after the other. -/
theorem instrs {is : List Instruction} (h : is.foldlM (Machine.exec? p) m = some m') :
    Runs p program ⟨is.map .instr ++ rest, m⟩ ⟨rest, m'⟩ := by
  induction is generalizing m with
  | nil =>
    obtain rfl := Option.some.inj h
    exact .refl _
  | cons i is ih =>
    obtain ⟨m₁, hi, his⟩ := Option.bind_eq_some_iff.mp h
    exact (instr hi).trans (ih his)

theorem jump {target : CodeLabel} {place : List Code}
    (h : goto? program target = some place) :
    Runs p program ⟨.instr (.jump target) :: rest, m⟩ ⟨place, m⟩ :=
  .one (congrArg (Option.map _) h)

theorem jumpIf {condition : Condition} {target : CodeLabel} {place : List Code}
    (h : goto? program target = some place) :
    Runs p program ⟨.instr (.jumpIf condition target) :: rest, m⟩
      ⟨if condition.holds m.flags then place else rest, m⟩ := by
  refine .one ?_
  show (if condition.holds m.flags then (goto? program target).map (Position.mk · m)
    else some (Position.mk rest m)) = _
  rw [h]
  split <;> rfl

end Runs

/-! ## Data in memory -/

/-- The characters that are declared for an item. -/
def DataItem.characters : DataItem → List Char
  | .message name => (name ++ " is $").toList
  | .literal text => (text ++ " $").toList ++ ['\x00']
  | .lineBreak => lineEnd ++ ['$']

/-- What is printed of an item. -/
def DataItem.printed (item : DataItem) : List Char :=
  shown item.characters

/-- The items that the lines declare are loaded where their labels say. -/
def Platform.Loads (p : Platform) (lines : List Line) : Prop :=
  ∀ (item : DataItem) (label : String), item.line label ∈ lines →
    item.characters <+: p.memory (p.address label)

/-- What comes behind a dollar sign does not matter. -/
theorem shown_append_of_mem {text : List Char} (h : '$' ∈ text) (rest : List Char) :
    shown (text ++ rest) = shown text := by
  rw [shown, List.takeWhile_append, if_neg, shown]
  intro hlength
  rw [← (List.takeWhile_sublist _).eq_of_length hlength] at h
  exact absurd (List.mem_takeWhile_imp h) (by decide)

/-- Every item has a dollar sign, so that what comes after it in memory is not printed. -/
theorem DataItem.shown_of_prefix {item : DataItem} {text : List Char}
    (h : item.characters <+: text) : shown text = item.printed := by
  have hend : '$' ∈ item.characters := by
    cases item <;> simp [characters]
  obtain ⟨rest, rfl⟩ := h
  exact shown_append_of_mem hend rest

end RealMode
