import RealMode.Assembly.Line
import RealMode.Data.Labels

/-!
# The data segment

A word and a message for every name, an item for every string literal, and the line break:
names and literals in order. What has no label is not declared.
-/

namespace RealMode.StaticData

/-- The lines for a name: its word and, under its label, the message that introduces its
echo. -/
def identifierLines (labels : DataLabels) (name : String) : List Line :=
  .word name :: match labels.message? name with
    | some label => [.message label name]
    | none => []

/-- The lines for the string literals that have labels. -/
def literalLines (labels : DataLabels) : List Line :=
  labels.strings.toList.map fun (literal, label) => .literal label literal

/-- The lines of the data segment. -/
def segment (data : StaticData) (labels : DataLabels) : List Line :=
  .segmentStart .data ::
    (data.identifiers.toList.flatMap (identifierLines labels) ++
      literalLines labels ++
      [.lineBreak labels.newLine, .segmentEnd .data])

end RealMode.StaticData
