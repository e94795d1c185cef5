import RealMode.Command.Arguments
import RealMode.Project

/-!
# Commands

What each subcommand does with its files, and what it prints. `build` writes a listing,
`check` only reports, `symbols` prints the symbol table, `data` the data segment. Settings
come from the flags, else from the nearest configuration file, else they are the defaults.
A problem ends a command with the exit code 1; a usage error has the code 2.
-/

namespace RealMode

/-- What a command leaves: its exit code and what it printed. -/
structure Outcome where
  exitCode : Nat := 0
  stdout : String := ""
  stderr : String := ""
deriving DecidableEq, Repr

/-- The name and the version of the program. -/
def versionText : String := "tasmgen 0.1.0\n"

/-- How the program is used. -/
def usageText : String :=
  "Usage: tasmgen [-v]... <COMMAND>\n\n" ++
  "Commands:\n" ++
  "  build    Compile a program tree (.json) to <base>.asm\n" ++
  "  check    Run code generation and report diagnostics without writing\n" ++
  "  symbols  Print the symbol table built during code generation\n" ++
  "  data     Print the data segment for a program tree\n"

namespace Command

/-- A line for standard error. -/
def line (text : String) : String :=
  text ++ "\n"

/-- The headlines of diagnostics, a line each. -/
def headlines (diagnostics : List Diagnostic) : String :=
  String.join (diagnostics.map fun d => line d.headline)

/-- A failed command. -/
def failure (stderr : String) : Outcome :=
  ⟨1, "", stderr⟩

/-- Fills a text with blanks up to a width, behind it. -/
def padRight (width : Nat) (text : String) : String :=
  text ++ String.ofList (List.replicate (width - text.length) ' ')

/-- Fills a text with blanks up to a width, before it. -/
def padLeft (width : Nat) (text : String) : String :=
  String.ofList (List.replicate (width - text.length) ' ') ++ text

/-- A row of the symbol table. -/
def tableRow (name kind value str : String) : String :=
  line (padRight 20 name ++ " " ++ padRight 10 kind ++ " " ++ padLeft 8 value ++
    "  " ++ str)

/-- The symbol table as text. -/
def tableText (table : SymbolTable) : String :=
  tableRow "name" "kind" "value" "string" ++
    String.join (table.toList.map fun (name, symbol) =>
      tableRow name symbol.kind.name (toString symbol.int) (symbol.str.getD "-"))

/-- The number of warnings, as `check` reports it. -/
def warningCount : Nat → String
  | 0 => ""
  | 1 => " (1 warning)"
  | n => s!" ({n} warnings)"

/-- The settings with the flags of a command. -/
def applyFlags (command : Invocation) (settings : Settings) :
    Except Diagnostic Settings :=
  if command.maxDepth = some 0 then .error (.error "--max-depth must be at least 1")
  else .ok ⟨command.redeclare.getD settings.redeclaration,
    command.maxDepth.getD settings.maxDepth⟩

variable {m : Type → Type} [Monad m]

/-- The settings for a command. -/
def settings (disk : Disk m) (command : Invocation) : m (Except Diagnostic Settings) := do
  match ← disk.findConfig ((Path.parentText? command.input).getD ".") with
  | none => return applyFlags command {}
  | some path =>
    match ← disk.loadConfig path with
    | .error d => return .error d
    | .ok config => return applyFlags command (config.apply {})

/-- What a compiled program is told about on standard error, before anything else. -/
def compileReport (program : Program) :
    Except CompileFailure Compiled → Except Outcome (Compiled × String)
  | .ok compiled => .ok (compiled, headlines (compiled.warnings.map Warning.diagnostic))
  | .error f =>
    .error (failure (headlines f.diagnostics ++
      line s!"error: code generation failed for '{program.path}'"))

/-- Settles the settings, reads the program and compiles it. -/
def prepare (disk : Disk m) (command : Invocation) :
    m (Except Outcome (Compiled × String)) := do
  match ← settings disk command with
  | .error d => return .error (failure (line d.render))
  | .ok settings =>
    match ← disk.loadProgram command.input with
    | .error d => return .error (failure (line d.headline))
    | .ok program =>
      return compileReport program (Compilation.compile settings program.tree)

/-- Writes the listing of a compiled program. -/
def build (disk : Disk m) (command : Invocation) (compiled : Compiled) (report : String) :
    m Outcome := do
  let base := command.output.getD (Path.defaultBase command.input)
  match ← disk.writeListing base compiled.listing with
  | .ok path => return ⟨0, "", report ++ line s!"Compiled -> {path}"⟩
  | .error d => return failure (report ++ line d.render)

/-- Reports on a compiled program. -/
def check (command : Invocation) (compiled : Compiled) (report : String) : Outcome :=
  ⟨0, "", report ++
    line ("OK: " ++ command.input ++ warningCount compiled.warnings.length)⟩

/-- Prints the symbols of a compiled program. -/
def symbols (compiled : Compiled) (report : String) : Outcome :=
  if compiled.symbols.size = 0 then ⟨0, "", report ++ line "No variables assigned."⟩
  else ⟨0, tableText compiled.symbols, report⟩

/-- Prints the data segment of a program. -/
def data (disk : Disk m) (command : Invocation) : m Outcome := do
  match ← disk.loadProgram command.input with
  | .error d => return failure (line d.headline)
  | .ok program => return ⟨0, Compilation.dataSegmentText program.tree, ""⟩

/-- Runs a subcommand. -/
def invoke (disk : Disk m) (command : Invocation) : m Outcome :=
  match command.subcommand with
  | .data => data disk command
  | sub => do
    match ← prepare disk command with
    | .error outcome => return outcome
    | .ok (compiled, report) =>
      match sub with
      | .build => build disk command compiled report
      | .check => return check command compiled report
      | _ => return symbols compiled report

/-- Runs the program with its arguments. -/
def run (disk : Disk m) (arguments : List String) : m Outcome :=
  match Arguments.parse arguments with
  | none => return ⟨2, "", usageText⟩
  | some .version => return ⟨0, versionText, ""⟩
  | some .help => return ⟨0, usageText, ""⟩
  | some (.run command) => invoke disk command

end Command

end RealMode
