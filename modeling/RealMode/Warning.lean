import RealMode.Diagnostic
import RealMode.Program.Node

/-!
# Warnings

The causes for which compilation warns and goes on, and their wording. `ValueKind` is what
a variable holds, as far as it is known from the value that was first assigned to it.
-/

namespace RealMode

/-- What a variable holds. -/
inductive ValueKind
  | integer
  | float
  | string
  | boolean
  | undefined
deriving DecidableEq, Repr

/-- The word by which messages name a value kind. -/
def ValueKind.name : ValueKind → String
  | .integer => "integer"
  | .float => "float"
  | .string => "string"
  | .boolean => "boolean"
  | .undefined => "undefined"

/-- A cause to warn. -/
inductive Warning
  | redeclared (name : String) (first : ValueKind)
  | undefinedVariable (name : String)
  | outOfRange (value : Int) (text : String)
  | unexpectedKind (kind : Kind)
deriving DecidableEq, Repr

namespace Warning

/-- What the user is told. -/
def diagnostic : Warning → Diagnostic
  | .redeclared name first =>
    (Diagnostic.warning s!"variable '{name}' already declared").withNote
      s!"first declared as {first.name}"
  | .undefinedVariable name => .warning s!"undefined variable '{name}'"
  | .outOfRange value text =>
    ((Diagnostic.warning s!"number {value} does not fit in a signed 16-bit word").withNote
      s!"written as '{text}'").withNote
      "values are held in AX and printed as signed decimals"
  | .unexpectedKind kind =>
    (Diagnostic.warning s!"unexpected node kind '{kind.name}'").withNote
      "no code was emitted for it"

/-- Every warning is told as a warning. -/
theorem severity_diagnostic (w : Warning) : w.diagnostic.severity = .warning := by
  cases w <;> rfl

end Warning

end RealMode
