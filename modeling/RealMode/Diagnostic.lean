/-!
# Diagnostics

What a program tells its user about an input: a severity, one message, any number of notes
and at most one hint.

- `Diagnostic.render` is the full text, one line per part.
- `Diagnostic.headline` is the coloured one-line form for a terminal, the message alone.

The causes of diagnostics are types of their own (`Warning`, `Fault`, `TreeError`, …);
each has a `diagnostic` function that fixes its wording.
-/

namespace RealMode

/-- How grave a diagnostic is. An error ends the work at hand, a warning does not. -/
inductive Severity
  | error
  | warning
deriving DecidableEq, Repr

/-- The word that opens a rendered diagnostic. -/
def Severity.label : Severity → String
  | .error => "error"
  | .warning => "warning"

/-- A message for the user with its notes, in order, and an optional hint. -/
structure Diagnostic where
  severity : Severity
  message : String
  notes : List String := []
  help : Option String := none
deriving DecidableEq, Repr

namespace Diagnostic

/-- An error with neither notes nor hint. -/
def error (message : String) : Diagnostic :=
  ⟨.error, message, [], none⟩

/-- A warning with neither notes nor hint. -/
def warning (message : String) : Diagnostic :=
  ⟨.warning, message, [], none⟩

/-- Adds a note after those already there. -/
def withNote (d : Diagnostic) (note : String) : Diagnostic :=
  { d with notes := d.notes ++ [note] }

/-- Sets the hint; the last one set is kept. -/
def withHelp (d : Diagnostic) (help : String) : Diagnostic :=
  { d with help := some help }

/-- Whether the diagnostic is an error. -/
def isError (d : Diagnostic) : Bool :=
  d.severity == .error

/-- The full text: severity and message, then each note and the hint indented on lines of
their own. -/
def render (d : Diagnostic) : String :=
  let notes := String.join (d.notes.map fun note => "\n  note: " ++ note)
  let help := match d.help with
    | some help => "\n  help: " ++ help
    | none => ""
  d.severity.label ++ ": " ++ d.message ++ notes ++ help

/-- The one-line form for a terminal: a red `Error:` or a yellow `Warning:`, then the
message. -/
def headline (d : Diagnostic) : String :=
  match d.severity with
  | .error => "\x1b[31mError:\x1b[0m " ++ d.message
  | .warning => "\x1b[33mWarning:\x1b[0m " ++ d.message

end Diagnostic

end RealMode
