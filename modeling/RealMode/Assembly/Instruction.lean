import RealMode.Program.Operator

/-!
# Instructions

The part of the 16-bit instruction set that listings use, as data, with its text. Code is
a list of instructions and of labels that jumps refer to. Code labels are numbered by the
construct they belong to, so that two of them are equal only if they are the same
construct's; data is referred to by the label of its item.
-/

namespace RealMode

/-- The word registers. -/
inductive Register
  | ax
  | bx
  | cx
  | dx
  | ds
deriving DecidableEq, Repr

/-- The byte registers: the high half of `AX` and the low half of `DX`. -/
inductive ByteRegister
  | ah
  | dl
deriving DecidableEq, Repr

/-- A number as it is written in an instruction. -/
inductive Numeral
  | decimal (value : Int)
  | hex (value : Nat) (mark : Char)
  | character (c : Char)
deriving DecidableEq, Repr

/-- What an instruction works on. A cell is the word of a variable, `dataSegment` the
address of the data. -/
inductive Operand
  | word (r : Register)
  | byte (r : ByteRegister)
  | cell (name : String)
  | number (n : Numeral)
  | dataSegment
deriving DecidableEq, Repr

/-- When a conditional jump is taken, as signed words. -/
inductive Condition
  | equal
  | notEqual
  | greater
  | greaterOrEqual
  | less
  | lessOrEqual
deriving DecidableEq, Repr

/-- The procedures that generated code calls. -/
inductive Procedure
  | printString
  | printNumber
deriving DecidableEq, Repr

/-- The places inside the procedure that prints numbers. -/
inductive PrintPlace
  | zero
  | digits
  | divide
  | print
  | newline
deriving DecidableEq, Repr

/-- A place in the code that jumps refer to. -/
inductive CodeLabel
  | start
  | programEnd
  | otherwise (tag : Nat)
  | endIf (tag : Nat)
  | whileStart (tag : Nat)
  | whileEnd (tag : Nat)
  | forStart (tag : Nat)
  | forEnd (tag : Nat)
  | boolEnd (tag : Nat)
  | printNumber (place : PrintPlace)
deriving DecidableEq, Repr

/-- An instruction. -/
inductive Instruction
  | mov (target source : Operand)
  | lea (target : Register) (label : String)
  | push (r : Register)
  | pop (r : Register)
  | add (target source : Operand)
  | sub (target source : Operand)
  | xor (target source : Operand)
  | cmp (left right : Operand)
  | mul (factor : Register)
  | div (divisor : Register)
  | inc (r : Register)
  | neg (r : Register)
  | jump (target : CodeLabel)
  | jumpIf (condition : Condition) (target : CodeLabel)
  | loop (target : CodeLabel)
  | call (procedure : Procedure)
  | interrupt (vector : Numeral)
  | ret
deriving DecidableEq, Repr

/-- A piece of code: a place for jumps or an instruction. -/
inductive Code
  | label (l : CodeLabel)
  | instr (i : Instruction)
deriving DecidableEq, Repr

/-- The condition under which a comparison is false. -/
def Comparison.falseCondition : Comparison → Condition
  | .eq => .notEqual
  | .ne => .equal
  | .lt => .greaterOrEqual
  | .gt => .lessOrEqual
  | .le => .greater
  | .ge => .less

/-! ## Text -/

/-- The name of a word register. -/
def Register.text : Register → String
  | .ax => "AX"
  | .bx => "BX"
  | .cx => "CX"
  | .dx => "DX"
  | .ds => "DS"

/-- The name of a byte register. -/
def ByteRegister.text : ByteRegister → String
  | .ah => "AH"
  | .dl => "DL"

/-- A byte as two hexadecimal digits, with capital letters. -/
def hexByte (value : Nat) : String :=
  String.ofList [(Nat.digitChar (value / 16)).toUpper,
    (Nat.digitChar (value % 16)).toUpper]

/-- A number as it is written. -/
def Numeral.text : Numeral → String
  | .decimal value => toString value
  | .hex value mark => hexByte value ++ mark.toString
  | .character c => "'" ++ c.toString ++ "'"

/-- An operand as it is written. -/
def Operand.text : Operand → String
  | .word r => r.text
  | .byte r => r.text
  | .cell name => "[" ++ name ++ "]"
  | .number n => n.text
  | .dataSegment => "DATA"

/-- The mnemonic of a conditional jump. -/
def Condition.mnemonic : Condition → String
  | .equal => "JE"
  | .notEqual => "JNE"
  | .greater => "JG"
  | .greaterOrEqual => "JGE"
  | .less => "JL"
  | .lessOrEqual => "JLE"

/-- The name of a procedure. -/
def Procedure.name : Procedure → String
  | .printString => "print_string"
  | .printNumber => "PrintNumber"

/-- The last part of a label inside the procedure that prints numbers. -/
def PrintPlace.name : PrintPlace → String
  | .zero => "zero"
  | .digits => "digits"
  | .divide => "divide"
  | .print => "print"
  | .newline => "newline"

/-- A label as it is written. -/
def CodeLabel.text : CodeLabel → String
  | .start => "START"
  | .programEnd => "ProgramEnd"
  | .otherwise tag => "else_" ++ toString tag
  | .endIf tag => "endif_" ++ toString tag
  | .whileStart tag => "while_start_" ++ toString tag
  | .whileEnd tag => "while_end_" ++ toString tag
  | .forStart tag => "for_start_" ++ toString tag
  | .forEnd tag => "for_end_" ++ toString tag
  | .boolEnd tag => "bool_end_" ++ toString tag
  | .printNumber place => "PrintNumber_" ++ place.name

/-- A mnemonic with two operands. -/
def binaryText (mnemonic left right : String) : String :=
  mnemonic ++ " " ++ left ++ ", " ++ right

/-- An instruction as it is written. -/
def Instruction.text : Instruction → String
  | .mov target source => binaryText "MOV" target.text source.text
  | .lea target label => binaryText "LEA" target.text label
  | .push r => "PUSH " ++ r.text
  | .pop r => "POP " ++ r.text
  | .add target source => binaryText "ADD" target.text source.text
  | .sub target source => binaryText "SUB" target.text source.text
  | .xor target source => binaryText "XOR" target.text source.text
  | .cmp left right => binaryText "CMP" left.text right.text
  | .mul factor => "MUL " ++ factor.text
  | .div divisor => "DIV " ++ divisor.text
  | .inc r => "INC " ++ r.text
  | .neg r => "NEG " ++ r.text
  | .jump target => "JMP " ++ target.text
  | .jumpIf condition target => condition.mnemonic ++ " " ++ target.text
  | .loop target => "LOOP " ++ target.text
  | .call procedure => "CALL " ++ procedure.name
  | .interrupt vector => "INT " ++ vector.text
  | .ret => "RET"

/-- A piece of code as it is written. -/
def Code.text : Code → String
  | .label l => l.text ++ ":"
  | .instr i => i.text

end RealMode
