import RealMode.Assembly.Instruction

/-!
# Lines of a listing

A listing is a list of lines: data declarations, segment marks, procedure marks and code.
Inside a procedure the instructions are indented. A text that is declared as data stands
between single quotes, and a single quote in it is written twice.
-/

namespace RealMode

/-- The two segments of a listing. -/
inductive Segment
  | data
  | code
deriving DecidableEq, Repr

/-- The name of a segment. -/
def Segment.name : Segment → String
  | .data => "DATA"
  | .code => "CODE"

/-- A line of a listing. -/
inductive Line
  | blank
  | segmentStart (segment : Segment)
  | segmentEnd (segment : Segment)
  | assume
  | word (name : String)
  | message (label : String) (name : String)
  | literal (label : String) (text : String)
  | lineBreak (label : String)
  | code (c : Code)
  | procStart (procedure : Procedure)
  | procCode (c : Code)
  | procEnd (procedure : Procedure)
  | programEnd
deriving DecidableEq, Repr

/-- The characters of a text between single quotes, with the quotes in it doubled. -/
def quoteData (text : List Char) : List Char :=
  '\'' :: (text.flatMap (fun c => if c = '\'' then ['\'', '\''] else [c]) ++ ['\''])

/-- A text as the operand of a data declaration. -/
def dataOperand (text : String) : String :=
  String.ofList (quoteData text.toList)

namespace Line

/-- A line as it is written. -/
def text : Line → String
  | .blank => ""
  | .segmentStart segment => segment.name ++ " SEGMENT"
  | .segmentEnd segment => segment.name ++ " ENDS"
  | .assume => "ASSUME CS:CODE, DS:DATA"
  | .word name => name ++ " DW ?"
  | .message label name => label ++ " DB " ++ dataOperand (name ++ " is $")
  | .literal label text => label ++ " DB " ++ dataOperand (text ++ " $") ++ " , 0"
  | .lineBreak label => label ++ " DB 0Dh, 0Ah, '$'"
  | .code c => c.text
  | .procStart procedure => procedure.name ++ " PROC"
  | .procCode (.label l) => (Code.label l).text
  | .procCode (.instr i) => "    " ++ i.text
  | .procEnd procedure => procedure.name ++ " ENDP"
  | .programEnd => "END START"

/-- The text of a listing, each line ended by a newline. -/
def render (lines : List Line) : String :=
  String.join (lines.map fun line => line.text ++ "\n")

end Line

end RealMode
