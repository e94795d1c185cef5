import RealMode.Diagnostic

/-!
# Access to files

Commands reach files through a `Disk`: three operations in some monad. The command line
uses the real one; a `FileTree` is one that is a plain value.
-/

namespace RealMode

/-- Why a file operation fails. -/
inductive FileFault
  | noEntry
  | isDirectory
  | notDirectory
  | invalidText
  | other (text : String)
deriving DecidableEq, Repr

namespace FileFault

/-- The wording of a fault. -/
def message : FileFault → String
  | .noEntry => "No such file or directory (os error 2)"
  | .isDirectory => "Is a directory (os error 21)"
  | .notDirectory => "Not a directory (os error 20)"
  | .invalidText => "stream did not contain valid UTF-8"
  | .other text => text

/-- What the user is told when a file cannot be read. -/
def readDiagnostic (fault : FileFault) (path : String) : Diagnostic :=
  .error s!"cannot read '{path}': {fault.message}"

/-- What the user is told when a file cannot be written. -/
def writeDiagnostic (fault : FileFault) (path : String) : Diagnostic :=
  .error s!"cannot write '{path}': {fault.message}"

end FileFault

/-- The operations on files that commands use. -/
structure Disk (m : Type → Type) where
  /-- The text of a file. -/
  readText : String → m (Except FileFault String)
  /-- Whether anything is at a path, be it a file or a directory. -/
  hasEntry : String → m Bool
  /-- Makes a file with the given text, or replaces the text of one. -/
  writeText : String → String → m (Except FileFault Unit)

end RealMode
