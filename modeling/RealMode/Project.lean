import RealMode.Compilation
import RealMode.Config
import RealMode.Files.Disk
import RealMode.Files.Path

/-!
# Projects

Programs and configurations that are kept in files. A program is compiled with the
settings of the nearest configuration file: the one in its own directory or in the nearest
directory above it that has one, as far up as the text of its path goes.
-/

namespace RealMode

/-- The name of configuration files. -/
def configName : String := "tasmgen.toml"

/-- A program tree with the document it came from. -/
structure Program where
  path : String
  source : String
  tree : Node

variable {m : Type → Type} [Monad m]

/-- Reads a program. -/
def Disk.loadProgram (disk : Disk m) (path : String) : m (Except Diagnostic Program) := do
  match ← disk.readText path with
  | .error fault => return .error (fault.readDiagnostic path)
  | .ok source =>
    match Node.parse source with
    | .error e => return .error e.diagnostic
    | .ok tree => return .ok ⟨path, source, tree⟩

/-- Reads a configuration file. -/
def Disk.loadConfig (disk : Disk m) (path : String) : m (Except Diagnostic Config) := do
  match ← disk.readText path with
  | .error fault => return .error (fault.readDiagnostic path)
  | .ok text =>
    match Config.parse text with
    | .error fault => return .error fault.diagnostic
    | .ok config => return .ok config

/-- The paths at which a configuration for a directory is looked for, in order. -/
def configCandidates (dir : String) : List String :=
  (Path.textsUpward dir).map fun dir => Path.child dir configName

/-- The first of the paths at which there is anything. -/
def Disk.findFirst (disk : Disk m) : List String → m (Option String)
  | [] => return none
  | path :: rest => do
    if ← disk.hasEntry path then return some path
    disk.findFirst rest

/-- The path of the configuration file for a directory. -/
def Disk.findConfig (disk : Disk m) (dir : String) : m (Option String) :=
  disk.findFirst (configCandidates dir)

/-- Writes a listing for a base name and returns the path of its file. -/
def Disk.writeListing (disk : Disk m) (base text : String) :
    m (Except Diagnostic String) := do
  let path := Path.artifact base
  match ← disk.writeText path text with
  | .error fault => return .error (fault.writeDiagnostic path)
  | .ok () => return .ok path

end RealMode
