import RealMode.Assembly.Procedures
import RealMode.Data.Segment
import RealMode.Lowering.Node
import RealMode.Program.Document

/-!
# Compilation

A program becomes a listing: its data segment, a blank line, the code prologue, the code
of the tree, and an epilogue with the print procedures. When lowering fails, the partial
listing ends with the code that was emitted before the fault.
-/

namespace RealMode

/-- What compilation yields. -/
structure Compiled where
  lines : List Line
  data : StaticData
  symbols : SymbolTable
  warnings : List Warning

/-- What is left when compilation fails. -/
structure CompileFailure where
  partialLines : List Line
  warnings : List Warning
  fault : Fault

namespace Compiled

/-- The text of the listing. -/
def listing (c : Compiled) : String :=
  Line.render c.lines

end Compiled

namespace CompileFailure

/-- The text of the partial listing. -/
def partialListing (f : CompileFailure) : String :=
  Line.render f.partialLines

/-- What the user is told: the warnings, then the fault. -/
def diagnostics (f : CompileFailure) : List Diagnostic :=
  f.warnings.map Warning.diagnostic ++ [f.fault.diagnostic]

end CompileFailure

namespace Compilation

/-- The lines before the code of the program: its entry point loads the data segment. -/
def prologue : List Line :=
  [.segmentStart .code, .assume,
   .code (.label .start),
   .code (.instr (.mov (.word .ax) .dataSegment)),
   .code (.instr (.mov (.word .ds) (.word .ax)))]

/-- The lines after the code of the program: it jumps over the print procedures and
ends. -/
def epilogue : List Line :=
  .code (.instr (.jump .programEnd)) :: (Procedure.allLines ++
    [.code (.label .programEnd),
     .code (.instr (.mov (.byte .ah) (.number (.hex 0x4c 'H')))),
     .code (.instr (.interrupt (.hex 0x21 'H'))),
     .segmentEnd .code, .programEnd])

/-- The lines before the code: data segment, blank line and prologue. -/
def opening (data : StaticData) (labels : DataLabels) : List Line :=
  data.segment labels ++ .blank :: prologue

/-- Compiles a program. -/
def compile (settings : Settings) (tree : Node) : Except CompileFailure Compiled :=
  let data := StaticData.collect tree
  let labels := data.labels
  let step := Lowering.program ⟨labels, settings⟩ (some tree) .initial
  let lines := opening data labels ++ step.code.map .code
  match step.result with
  | .error fault => .error ⟨lines, step.warnings, fault⟩
  | .ok () => .ok ⟨lines ++ epilogue, data, step.session.symbols, step.warnings⟩

/-- The text of a program's data segment. -/
def dataSegmentText (tree : Node) : String :=
  let data := StaticData.collect tree
  Line.render (data.segment data.labels)

end Compilation

end RealMode
