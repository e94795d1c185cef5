import RealMode.Diagnostic
import RealMode.Json.Reader
import RealMode.Json.Writer
import RealMode.Program.Shape

/-!
# Program documents

A program document is the JSON text of one program tree.

- `Node.render` writes a tree.
- `Node.parse` reads one. The outermost value is read first, and its kind is looked at on
  the way; then the tree is built from it; then nothing but space may follow. So a defect
  of the text comes before a fault in the shape of the tree, and that before anything that
  stands after it.

Faults in the shape of the outermost value have a position, those further inside have
none.
-/

namespace RealMode

/-- Why a document is no program tree. -/
inductive TreeReason
  | defect (defect : Json.Defect)
  | fault (fault : ShapeFault)
deriving DecidableEq, Repr

/-- The wording of a reason. -/
def TreeReason.message : TreeReason → String
  | .defect d => d.message
  | .fault f => f.message

/-- Why a document is no program tree, and where, if that is known. -/
structure TreeError where
  reason : TreeReason
  position : Option Text.Position
deriving DecidableEq, Repr

namespace TreeError

/-- The reason with its position; a position that is not known counts as line 0, column
0. -/
def note (e : TreeError) : String :=
  match e.position with
  | some p =>
    s!"{e.reason.message} at line {p.line} column {p.column} " ++
      s!"(line {p.line}, column {p.column})"
  | none => s!"{e.reason.message} (line 0, column 0)"

/-- What the user is told. -/
def diagnostic (e : TreeError) : Diagnostic :=
  ((Diagnostic.error "invalid program tree").withNote e.note).withHelp
    ("trees are JSON objects tagged by \"kind\", " ++
      "e.g. \x7b\"kind\":\"Number\",\"value\":\"5\"\x7d")

end TreeError

namespace Document

open Json (Read Stop Defect)

/-- How many containers may be nested in a document. -/
def maxNesting : Nat := 127

/-- Reads a value inside the outermost container. -/
def readInner (rounds : Nat) (cs : List Char) : Read TreeReason Json :=
  (Json.readValue rounds (maxNesting - 1) cs).mapReason .defect

/-- Reads the kind of the outermost value, which has to be a string. A container is
refused at its bracket. -/
def readKind (rounds : Nat) (cs : List Char) : Read TreeReason Json :=
  let refuse (shape : Json.Shape) (rest : List Char) : Read TreeReason Json :=
    .error (.here (.fault (.wrongType shape .kindName)) rest)
  match Json.skipSpace cs with
  | '[' :: rest => refuse .array ('[' :: rest)
  | '\x7b' :: rest => refuse .object ('\x7b' :: rest)
  | cs => (readInner rounds cs).andThen fun value rest =>
    match value with
    | .string name => .ok (.string name, rest)
    | value => refuse value.shape rest

/-- What is left once a closing brace is skipped, if one comes next. -/
def skipBrace (cs : List Char) : List Char :=
  match Json.skipSpace cs with
  | '\x7d' :: rest => rest
  | rest => rest

/-- Reads a field of the outermost object after its key. The kind may stand there once. -/
def readField (rounds : Nat) (fields : List (String × Json)) (key : String)
    (cs : List Char) :
    Read TreeReason Json :=
  if key = "kind" then
    if (fields.lookup "kind").isSome then
      .error (.here (.fault (.duplicateField "kind")) (skipBrace cs))
    else ((Json.readColon cs).mapReason .defect).andThen fun _ cs => readKind rounds cs
  else ((Json.readColon cs).mapReason .defect).andThen fun _ cs => readInner rounds cs

/-- Reads an element of the outermost array; the first one is the kind. -/
def readElement (rounds : Nat) (elements : List Json) (cs : List Char) :
    Read TreeReason Json :=
  if elements.isEmpty then readKind rounds cs else readInner rounds cs

/-- Whether an outermost value has a kind. -/
def hasKind : Json → Bool
  | .object fields => (fields.lookup "kind").isSome
  | .array elements => !elements.isEmpty
  | _ => false

/-- Reads the outermost value: an object or an array with a kind. -/
def read (cs : List Char) : Read TreeReason Json :=
  let requireKind (value : Json) (rest : List Char) : Read TreeReason Json :=
    if hasKind value then .ok (value, rest)
    else .error (.here (.fault (.missingField "kind")) rest)
  let rounds := cs.length
  match Json.skipSpace cs with
  | '\x7b' :: rest =>
    (Json.readFields .defect (readField rounds) rounds [] rest).andThen requireKind
  | '[' :: rest =>
    (Json.readElements .defect (readElement rounds) rounds [] rest).andThen requireKind
  | cs => (readInner rounds cs).andThen fun value rest =>
    .error (.here (.fault (.wrongType value.shape .node)) rest)

end Document

namespace Node

/-- Reads a program tree. -/
def parse (text : String) : Except TreeError Node :=
  let cs := text.toList
  match Document.read cs with
  | .error stop => .error ⟨stop.reason, some (stop.position cs)⟩
  | .ok (value, rest) =>
    match Node.ofJson value with
    | .error fault => .error ⟨.fault fault, none⟩
    | .ok tree =>
      match Json.skipSpace rest with
      | [] => .ok tree
      | rest =>
        let stop : Json.Stop TreeReason := .next (.defect .trailingCharacters) rest
        .error ⟨stop.reason, some (stop.position cs)⟩

/-- The text of a program tree. -/
def render (tree : Node) : String :=
  tree.toJson.render

end Node

end RealMode
