import RealMode.Assembly.Line

/-!
# The print procedures

`print_string` prints the text at the address in `DX`, up to its dollar sign.
`PrintNumber` prints `AX` as a signed decimal number and ends the line: it divides by ten
until nothing is left, keeps the digits on the stack and prints them in the opposite
order. It leaves the registers as it found them.
-/

namespace RealMode.Procedure

open Instruction

/-- A small number as an operand. -/
def dec (value : Int) : Operand :=
  .number (.decimal value)

/-- A byte in hexadecimal as an operand. -/
def hex (value : Nat) : Operand :=
  .number (.hex value 'h')

/-- A character as an operand. -/
def char (c : Char) : Operand :=
  .number (.character c)

/-- Prints the character in `DL`. -/
def printInstrs : List Instruction :=
  [mov (.byte .ah) (hex 2), interrupt (.hex 0x21 'h')]

/-- The same as code. -/
def printCharacter : List Code :=
  printInstrs.map .instr

/-- The code of a procedure. -/
def body : Procedure → List Code
  | .printString =>
    [.instr (mov (.byte .ah) (hex 9)), .instr (interrupt (.hex 0x21 'h')), .instr ret]
  | .printNumber =>
    [.instr (push .ax), .instr (push .bx), .instr (push .cx), .instr (push .dx),
     .instr (cmp (.word .ax) (dec 0)),
     .instr (jumpIf .greater (.printNumber .digits)),
     .instr (jumpIf .equal (.printNumber .zero)),
     -- A negative number: print the sign and go on with the magnitude.
     .instr (push .ax),
     .instr (mov (.byte .dl) (char '-'))] ++ printCharacter ++
    [.instr (pop .ax),
     .instr (neg .ax),
     .instr (jump (.printNumber .digits)),
     .label (.printNumber .zero),
     .instr (mov (.byte .dl) (char '0'))] ++ printCharacter ++
    [.instr (jump (.printNumber .newline)),
     .label (.printNumber .digits),
     .instr (xor (.word .cx) (.word .cx)),
     .instr (mov (.word .bx) (dec 10)),
     .label (.printNumber .divide),
     .instr (xor (.word .dx) (.word .dx)),
     .instr (div .bx),
     .instr (add (.byte .dl) (char '0')),
     .instr (push .dx),
     .instr (inc .cx),
     .instr (cmp (.word .ax) (dec 0)),
     .instr (jumpIf .notEqual (.printNumber .divide)),
     .label (.printNumber .print),
     .instr (pop .dx)] ++ printCharacter ++
    [.instr (loop (.printNumber .print)),
     .label (.printNumber .newline),
     .instr (mov (.byte .dl) (hex 0x0d))] ++ printCharacter ++
    [.instr (mov (.byte .dl) (hex 0x0a))] ++ printCharacter ++
    [.instr (pop .dx), .instr (pop .cx), .instr (pop .bx), .instr (pop .ax),
     .instr ret]

/-- The lines of a procedure. -/
def lines (procedure : Procedure) : List Line :=
  .procStart procedure :: (procedure.body.map .procCode ++ [.procEnd procedure])

/-- The lines of both procedures, as they stand in every listing. -/
def allLines : List Line :=
  lines .printString ++ lines .printNumber

end RealMode.Procedure
