import RealMode.Data.Labels
import RealMode.Lowering.Step
import RealMode.Program.Literal
import RealMode.Settings

/-!
# Lowering trees

Every node leaves its value in `AX`, except that a comparison leaves flags: whoever asked
for it jumps on them, or turns them into a word.

    number n            MOV AX, n
    identifier x        MOV AX, [x]
    l + r               <l>; PUSH AX; <r>; MOV BX, AX; POP AX; ADD AX, BX
    l < r               <l>; PUSH AX; <r>; MOV BX, AX; POP AX; CMP AX, BX
    x = e               <e>; MOV [x], AX; then the value is echoed
    if c then b else a  <c>; jump to else_k unless c; <b>; JMP endif_k;
                        else_k: <a>; endif_k:
    while c b           while_start_k: <c>; jump to while_end_k unless c; <b>;
                        JMP while_start_k; while_end_k:

Nodes are nested at levels, and a level at or beyond the limit is a fault. All statements
of a chain are one level below its first cell, so that the length of a program does not
count.
-/

namespace RealMode

/-- What lowering is given besides the tree. -/
structure Context where
  labels : DataLabels
  settings : Settings

/-! ## Symbols -/

/-- What a variable holds after it is assigned a value, as far as the value shows it. -/
def SymbolTable.kindOf (table : SymbolTable) : Node → ValueKind
  | .number text => if Literal.isFloat text then .float else .integer
  | .string _ => .string
  | .boolean _ => .boolean
  | .identifier name => match table.get? name with
    | some symbol => symbol.kind
    | none => .undefined
  | .operator (.compare _) _ _ => .boolean
  | .operator (.arith _) _ _ => .integer
  | _ => .undefined

/-- Declares the target of an assignment. With the policy `allow` one that is there
already is left alone. -/
def SymbolTable.register (table : SymbolTable) (policy : Policy) (target : String)
    (kind : ValueKind) : SymbolTable :=
  match policy with
  | .warn => table.declare target kind
  | .allow => if table.isDeclared target then table else table.declare target kind

/-- Records the value of an assignment, as far as it is known. -/
def SymbolTable.recordValue (table : SymbolTable) (target : String) : Node → SymbolTable
  | .string text => table.updateStr target text
  | .number text => match Literal.value? text with
    | some value => table.updateInt target value
    | none => table
  | .boolean value => table.updateInt target (if value then 1 else 0)
  | .identifier name => match table.get? name with
    | some source =>
      let table := table.updateInt target source.int
      match source.str with
      | some text => table.updateStr target text
      | none => table
    | none => table
  | _ => table

namespace Lowering

/-! ## Instructions -/

/-- The word register `AX` as an operand. -/
def ax : Operand := .word .ax

/-- The word register `BX` as an operand. -/
def bx : Operand := .word .bx

/-- The word register `DX` as an operand. -/
def dx : Operand := .word .dx

/-- A number as an operand. -/
def imm (value : Int) : Operand := .number (.decimal value)

/-- Prints the data item with the given label. -/
def printItem (label : String) : List Instruction :=
  [.lea .dx label, .call .printString]

/-- Combines `AX` and `BX`. -/
def operatorInstrs : BinaryOp → List Instruction
  | .arith .add => [.add ax bx]
  | .arith .sub => [.sub ax bx]
  | .arith .mul => [.mul .bx]
  | .arith .div => [.xor dx dx, .div .bx]
  | .compare _ => [.cmp ax bx]

/-! ## Pieces of code -/

/-- Faults unless the level is within the limit. -/
def enter (ctx : Context) (level : Nat) (kind : Kind) : Lowering Unit :=
  if ctx.settings.maxDepth ≤ level then fail (.tooDeep ctx.settings.maxDepth kind)
  else Lowering.pure ()

/-- The level of the statements of a sequence cell. The first cell of a chain counts as a
node, the others do not. -/
def cellLevel (ctx : Context) (level : Nat) (inChain : Bool) : Lowering Nat :=
  if inChain then Lowering.pure level
  else do
    enter ctx level .sequence
    return level + 1

/-- Turns the flags of a comparison into a word in `AX`. -/
def materialize : Option Comparison → Lowering Unit
  | none => Lowering.pure ()
  | some c => do
    let tag ← nextTag .boolean
    emit [.instr (.mov ax (imm 0)), .instr (.jumpIf c.falseCondition (.boolEnd tag)),
      .instr (.mov ax (imm 1)), .label (.boolEnd tag)]

/-- Jumps unless the condition that was lowered holds. -/
def branchUnless (target : CodeLabel) : Option Comparison → Lowering Unit
  | some c => emitInstrs [.jumpIf c.falseCondition target]
  | none => emitInstrs [.cmp ax (imm 0), .jumpIf .equal target]

/-- Loads a number. -/
def number (text : String) : Lowering Unit := do
  let value ← require (.malformedNumber text) (Literal.value? text)
  if !Literal.fitsWord value then warn (.outOfRange value text)
  emitInstrs [.mov ax (imm value)]

/-- Loads a variable. -/
def identifier (name : String) : Lowering Unit := do
  modifySymbols fun table => (table.lookup name).2
  emitInstrs [.mov ax (.cell name)]

/-- Prints a string literal and ends the line. -/
def string (ctx : Context) (text : String) : Lowering Unit := do
  let label ← require (.undeclaredString text) (ctx.labels.string? text)
  emitInstrs (printItem label ++ printItem ctx.labels.newLine)

/-- Stores the address of a string literal and echoes it. -/
def storeLiteral (ctx : Context) (target message text : String) : Lowering Unit := do
  let label ← require (.undeclaredString text) (ctx.labels.string? text)
  emitInstrs ([.lea .ax label, .mov (.cell target) ax] ++ printItem message ++
    printItem label ++ printItem ctx.labels.newLine)

/-- Stores the word in `AX` and echoes it: as the address of a text, or as a number. -/
def storeWord (ctx : Context) (target message : String) (kind : ValueKind) :
    Lowering Unit :=
  if kind = .string then
    emitInstrs ([.mov (.cell target) ax] ++ printItem message ++
      [.mov dx (.cell target), .call .printString] ++ printItem ctx.labels.newLine)
  else
    emitInstrs ([.mov (.cell target) ax] ++ printItem message ++
      [.mov ax (.cell target), .call .printNumber])

/-- Records an assignment that has been lowered. -/
def complete (ctx : Context) (target : String) (kind : ValueKind) (value : Node) :
    Lowering Unit :=
  modifySymbols fun table =>
    (table.register ctx.settings.redeclaration target kind).recordValue target value

/-- Runs a computation and leaves no comparison. -/
def withoutFlags (x : Lowering (Option Comparison)) : Lowering (Option Comparison) :=
  fun session =>
    let step := x session
    { step with result := step.result.map fun _ => none }

/-! ## Trees -/

/-- Lowers a node at a level; `inChain` holds of the cells of a chain after its first. The
result is the comparison whose flags are left, if the node is one. -/
def node (ctx : Context) (level : Nat) (inChain : Bool) :
    Node → Lowering (Option Comparison)
  | .number text => do
    enter ctx level .number
    number text
    return none
  | .string text => do
    enter ctx level .string
    string ctx text
    return none
  | .boolean value => do
    enter ctx level .boolean
    emitInstrs [.mov ax (imm (if value then 1 else 0))]
    return none
  | .identifier name => do
    enter ctx level .identifier
    identifier name
    return none
  | .operator op lhs rhs => do
    enter ctx level .operator
    materialize (← node ctx (level + 1) false lhs)
    emitInstrs [.push .ax]
    materialize (← node ctx (level + 1) false rhs)
    emitInstrs ([.mov bx ax, .pop .ax] ++ operatorInstrs op)
    return op.comparison?
  | .assignment target value => do
    enter ctx level .assignment
    let kind := (← symbols).kindOf value
    let message ← require (.undeclaredVariable target) (ctx.labels.message? target)
    match value with
    | .string text => storeLiteral ctx target message text
    | value => do
      materialize (← node ctx (level + 1) false value)
      storeWord ctx target message kind
    complete ctx target kind value
    return none
  | .last first => do
    let level ← cellLevel ctx level inChain
    withoutFlags (node ctx level false first)
  | .chain first next => do
    let level ← cellLevel ctx level inChain
    let _ ← node ctx level false first
    withoutFlags (node ctx level true next)
  | .ifThen cond body => do
    enter ctx level .conditional
    let tag ← nextTag .conditional
    branchUnless (.otherwise tag) (← node ctx (level + 1) false cond)
    let _ ← node ctx (level + 1) false body
    emit [.instr (.jump (.endIf tag)), .label (.otherwise tag), .label (.endIf tag)]
    return none
  | .ifElse _ cond body alternative => do
    enter ctx level .conditional
    let tag ← nextTag .conditional
    branchUnless (.otherwise tag) (← node ctx (level + 1) false cond)
    let _ ← node ctx (level + 1) false body
    emit [.instr (.jump (.endIf tag)), .label (.otherwise tag)]
    let _ ← node ctx (level + 1) false alternative
    emit [.label (.endIf tag)]
    return none
  | .whileLoop cond body => do
    enter ctx level .whileLoop
    let tag ← nextTag .whileLoop
    emit [.label (.whileStart tag)]
    branchUnless (.whileEnd tag) (← node ctx (level + 1) false cond)
    let _ ← node ctx (level + 1) false body
    emit [.instr (.jump (.whileStart tag)), .label (.whileEnd tag)]
    return none
  | .forLoop init cond step body => do
    enter ctx level .forLoop
    let tag ← nextTag .forLoop
    let _ ← node ctx (level + 1) false init
    emit [.label (.forStart tag)]
    branchUnless (.forEnd tag) (← node ctx (level + 1) false cond)
    let _ ← node ctx (level + 1) false body
    let _ ← node ctx (level + 1) false step
    emit [.instr (.jump (.forStart tag)), .label (.forEnd tag)]
    return none
  | .unknown => do
    enter ctx level .unknown
    warn (.unexpectedKind .unknown)
    return none

/-- Lowers a program, if there is one. -/
def program (ctx : Context) : Option Node → Lowering Unit
  | some tree => do
    let _ ← node ctx 0 false tree
    return ()
  | none => Lowering.pure ()

end Lowering

end RealMode
