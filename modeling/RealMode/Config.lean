import RealMode.Decimal
import RealMode.Diagnostic
import RealMode.Settings
import RealMode.Text.Blank

/-!
# Configuration files

A configuration file sets the settings of a project. It consists of lines. What follows a
`#` is a comment; `[name]` begins a section; in the section `codegen`, a line
`key = value` is an entry, whose sides may stand in double quotes. Entries with other
keys, other sections and all other lines are passed over.

- `Config.entries` are the entries of a text, with their line numbers.
- `Config.parse` applies them in order. The first bad one is the error; of several good
  ones with a key the last counts.
-/

namespace RealMode

/-- The settings that a configuration file gives. -/
structure Config where
  redeclaration : Option Policy := none
  maxDepth : Option Nat := none
deriving DecidableEq, Repr

/-- A key with its value and the number of its line, from one. -/
structure ConfigEntry where
  line : Nat
  key : String
  value : String
deriving DecidableEq, Repr

/-- An entry whose value is none that its key takes. -/
inductive ConfigFault
  | redeclaration (value : String) (line : Nat)
  | maxDepth (value : String) (line : Nat)
deriving DecidableEq, Repr

/-- What the user is told. -/
def ConfigFault.diagnostic (fault : ConfigFault) : Diagnostic :=
  let tell (key value : String) (line : Nat) (expected : String) :=
    ((Diagnostic.error s!"invalid value '{value}' for '{key}' in tasmgen.toml").withNote
      s!"line {line}").withHelp s!"expected {expected}"
  match fault with
  | .redeclaration value line => tell "redeclaration" value line "\"warn\" or \"allow\""
  | .maxDepth value line => tell "max_depth" value line "a positive integer"

namespace Config

/-- Cuts a text into lines at each newline. A last line that is empty is none. -/
def splitLines (current : List Char) : List Char → List (List Char)
  | [] => if current.isEmpty then [] else [current.reverse]
  | '\n' :: rest => current.reverse :: splitLines [] rest
  | c :: rest => splitLines (c :: current) rest

/-- A line without its comment and without blanks at its ends. -/
def content (line : List Char) : List Char :=
  Text.trim (line.takeWhile (· != '#'))

/-- The name of the section that a line begins. -/
def sectionName? (line : List Char) : Option String :=
  match line with
  | '[' :: rest =>
    if rest.getLast? = some ']' then some (String.ofList (Text.trim rest.dropLast))
    else none
  | _ => none

/-- One side of an entry, without blanks and then without double quotes at its ends. -/
def side (cs : List Char) : String :=
  String.ofList (Text.strip (· == '"') (Text.trim cs))

/-- The key and the value of a line. -/
def keyValue? (line : List Char) : Option (String × String) :=
  match line.dropWhile (· != '=') with
  | [] => none
  | _ :: value => some (side (line.takeWhile (· != '=')), side value)

/-- The entries of numbered lines; `inSection` says whether the lines stand in the section
`codegen`. -/
def entriesOf (inSection : Bool) (number : Nat) : List (List Char) → List ConfigEntry
  | [] => []
  | line :: rest =>
    let line := content line
    match sectionName? line with
    | some name => entriesOf (name == "codegen") (number + 1) rest
    | none =>
      match keyValue? line with
      | some (key, value) =>
        if inSection then ⟨number, key, value⟩ :: entriesOf inSection (number + 1) rest
        else entriesOf inSection (number + 1) rest
      | none => entriesOf inSection (number + 1) rest

/-- The entries of a text. -/
def entries (text : String) : List ConfigEntry :=
  entriesOf false 1 (splitLines [] text.toList)

/-- Reads a nesting limit, which is positive. -/
def limit? (text : String) : Option Nat :=
  match Decimal.natural? text with
  | some 0 => none
  | n => n

/-- Applies an entry. -/
def set (config : Config) (entry : ConfigEntry) : Except ConfigFault Config :=
  if entry.key = "redeclaration" then
    match Policy.ofName? entry.value with
    | some policy => .ok { config with redeclaration := some policy }
    | none => .error (.redeclaration entry.value entry.line)
  else if entry.key = "max_depth" then
    match limit? entry.value with
    | some limit => .ok { config with maxDepth := some limit }
    | none => .error (.maxDepth entry.value entry.line)
  else .ok config

/-- Reads a configuration file. -/
def parse (text : String) : Except ConfigFault Config :=
  (entries text).foldlM set {}

/-- The settings with those that the configuration gives. -/
def apply (config : Config) (settings : Settings) : Settings :=
  ⟨config.redeclaration.getD settings.redeclaration,
    config.maxDepth.getD settings.maxDepth⟩

end Config

end RealMode
