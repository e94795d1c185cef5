import RealMode.Json.Basic
import RealMode.Program.Node

/-!
# The JSON form of a program tree

A node is an object whose `kind` names what it is and whose other fields are its parts, or
an array with the kind first and the parts after it in order. The alternative of a
conditional is written in the same way, with kinds of its own.

- `Tag` is a kind as it is written, `Tag.fields` the parts it takes.
- `Node.toJson` writes a tree as objects, with `null` for a part that is absent.
- `Node.ofJson` reads either form. A kind that is not known reads as an unknown node, and
  fields that do not belong to a kind are passed over. Parts are converted in the order in
  which they stand, and the first fault wins.
-/

namespace RealMode

/-- What a reader expected instead of the value it found. -/
inductive Expected
  | kindName
  | node
  | branch
  | text
  | flag
  | operator
  | nothing
deriving DecidableEq, Repr

/-- How messages name what was expected. -/
def Expected.describe : Expected → String
  | .kindName => "variant identifier"
  | .node => "internally tagged enum Node"
  | .branch => "internally tagged enum Alternative"
  | .text => "a string"
  | .flag => "a boolean"
  | .operator => "string or map"
  | .nothing => "unit"

/-- The kind of a node or of an alternative, as it is written. -/
inductive Tag
  | node (kind : Kind)
  | branch (branch : Branch)
deriving DecidableEq, Repr

/-- What can be wrong with a value that should be a tree. -/
inductive ShapeFault
  | missingField (name : String)
  | duplicateField (name : String)
  | wrongType (found : Json.Shape) (expected : Expected)
  | unknownOperator (symbol : String)
  | operatorKeys
  | unknownBranch (name : String)
  | branchIndex (index : Nat)
  | tooFew (count : Nat) (tag : Tag)
  | tooMany (count : Nat) (limit : Nat)
deriving DecidableEq, Repr

/-! ## Kinds as they are written -/

/-- Every kind, in the order that numbers them. -/
def Kind.all : List Kind :=
  [.number, .string, .boolean, .identifier, .operator, .assignment, .sequence,
   .conditional, .whileLoop, .forLoop, .unknown]

/-- How a kind is written. -/
def Kind.tagName : Kind → String
  | .number => "Number"
  | .string => "String"
  | .boolean => "Boolean"
  | .identifier => "Identifier"
  | .operator => "Operator"
  | .assignment => "Assignment"
  | .sequence => "Sequence"
  | .conditional => "If"
  | .whileLoop => "While"
  | .forLoop => "For"
  | .unknown => "Unknown"

/-- The kind with the given name; any other name is that of an unknown node. -/
def Kind.ofTagName (name : String) : Kind :=
  (Kind.all.find? fun kind => kind.tagName == name).getD .unknown

/-- The kind with the given number; any larger number is that of an unknown node. -/
def Kind.ofIndex (index : Nat) : Kind :=
  Kind.all[index]?.getD .unknown

/-- How a branch is written. -/
def Branch.tagName : Branch → String
  | .otherwise => "Else"
  | .elif => "Elif"

/-- What a value may be read as: a node or the alternative of a conditional. -/
inductive Family
  | node
  | branch
deriving DecidableEq, Repr

/-- What messages say a value of the family should have been. -/
def Family.expected : Family → Expected
  | .node => .node
  | .branch => .branch

/-- Reads a kind: its name, or its number. -/
def Tag.ofJson (family : Family) (value : Json) : Except ShapeFault Tag :=
  match family, value with
  | .node, .string name => .ok (.node (.ofTagName name))
  | .node, .natural index => .ok (.node (.ofIndex index))
  | .branch, .string name =>
    if name = "Else" then .ok (.branch .otherwise)
    else if name = "Elif" then .ok (.branch .elif)
    else .error (.unknownBranch name)
  | .branch, .natural index =>
    match index with
    | 0 => .ok (.branch .otherwise)
    | 1 => .ok (.branch .elif)
    | _ => .error (.branchIndex index)
  | _, value => .error (.wrongType value.shape .kindName)

/-- Finds the kind among the fields of an object. -/
def Tag.ofFields (family : Family) :
    Option Tag → List (String × Json) → Except ShapeFault Tag
  | none, [] => .error (.missingField "kind")
  | some tag, [] => .ok tag
  | found, (key, value) :: rest =>
    if key = "kind" then
      match found with
      | some _ => .error (.duplicateField "kind")
      | none => match Tag.ofJson family value with
        | .ok tag => ofFields family (some tag) rest
        | .error fault => .error fault
    else ofFields family found rest

/-! ## Parts -/

/-- What a part of a node is. -/
inductive PartType
  | text
  | flag
  | operator
  | node
  | optionalNode
  | optionalBranch
deriving DecidableEq, Repr

/-- Whether a part may be absent. -/
def PartType.isOptional : PartType → Bool
  | .optionalNode => true
  | .optionalBranch => true
  | _ => false

/-- A part that has been read. -/
inductive Part
  | absent
  | text (value : String)
  | flag (value : Bool)
  | operator (op : BinaryOp)
  | node (value : Node)
  | branch (branch : Branch) (body : Node)

/-- The parts that a kind takes, in order. -/
def Tag.fields : Tag → List (String × PartType)
  | .node .number => [("value", .text)]
  | .node .string => [("value", .text)]
  | .node .boolean => [("value", .flag)]
  | .node .identifier => [("name", .text)]
  | .node .operator => [("op", .operator), ("lhs", .node), ("rhs", .node)]
  | .node .assignment => [("target", .text), ("value", .node)]
  | .node .sequence => [("first", .node), ("next", .optionalNode)]
  | .node .conditional =>
    [("cond", .node), ("body", .node), ("alternative", .optionalBranch)]
  | .node .whileLoop => [("cond", .node), ("body", .node)]
  | .node .forLoop => [("init", .node), ("cond", .node), ("step", .node), ("body", .node)]
  | .node .unknown => []
  | .branch _ => [("body", .node)]

/-- The kind with its family, as messages about the number of parts name it. -/
def Tag.describe : Tag → String
  | .node kind => s!"Node::{kind.tagName}"
  | .branch which => s!"Alternative::{which.tagName}"

/-- A number of elements in words. -/
def countElements (n : Nat) : String :=
  if n = 1 then "1 element" else s!"{n} elements"

/-- The names in backticks, as a list in a sentence. -/
def backtickedList (names : List String) : String :=
  ", ".intercalate (names.map fun name => s!"`{name}`")

/-- The wording of a fault. -/
def ShapeFault.message : ShapeFault → String
  | .missingField name => s!"missing field `{name}`"
  | .duplicateField name => s!"duplicate field `{name}`"
  | .wrongType found expected =>
    s!"invalid type: {found.describe}, expected {expected.describe}"
  | .unknownOperator symbol =>
    s!"unknown variant `{symbol}`, expected one of " ++
      backtickedList (BinaryOp.all.map BinaryOp.symbol)
  | .operatorKeys => "invalid value: map, expected map with a single key"
  | .unknownBranch name => s!"unknown variant `{name}`, expected `Else` or `Elif`"
  | .branchIndex index =>
    s!"invalid value: integer `{index}`, expected variant index 0 <= i < 2"
  | .tooFew count tag =>
    s!"invalid length {count}, expected struct variant {tag.describe} with " ++
      countElements tag.fields.length
  | .tooMany count limit =>
    s!"invalid length {count}, expected {countElements limit} in sequence"

/-- The parts read so far, by name. -/
abbrev Parts : Type :=
  List (String × Part)

namespace Parts

/-- The text with the given name. -/
def text (parts : Parts) (name : String) : Except ShapeFault String :=
  match parts.lookup name with
  | some (.text value) => .ok value
  | _ => .error (.missingField name)

/-- The truth value with the given name. -/
def flag (parts : Parts) (name : String) : Except ShapeFault Bool :=
  match parts.lookup name with
  | some (.flag value) => .ok value
  | _ => .error (.missingField name)

/-- The operator with the given name. -/
def operator (parts : Parts) (name : String) : Except ShapeFault BinaryOp :=
  match parts.lookup name with
  | some (.operator op) => .ok op
  | _ => .error (.missingField name)

/-- The tree with the given name. -/
def node (parts : Parts) (name : String) : Except ShapeFault Node :=
  match parts.lookup name with
  | some (.node value) => .ok value
  | _ => .error (.missingField name)

end Parts

/-- Puts the parts of a node or of an alternative together; the first part in order that
is missing is a fault. -/
def Tag.build (tag : Tag) (parts : Parts) : Except ShapeFault Part :=
  match tag with
  | .node .number => do return .node (.number (← parts.text "value"))
  | .node .string => do return .node (.string (← parts.text "value"))
  | .node .boolean => do return .node (.boolean (← parts.flag "value"))
  | .node .identifier => do return .node (.identifier (← parts.text "name"))
  | .node .operator => do
    return .node (.operator (← parts.operator "op") (← parts.node "lhs")
      (← parts.node "rhs"))
  | .node .assignment => do
    return .node (.assignment (← parts.text "target") (← parts.node "value"))
  | .node .sequence => do
    let first ← parts.node "first"
    match parts.lookup "next" with
    | some (.node next) => return .node (.chain first next)
    | _ => return .node (.last first)
  | .node .conditional => do
    let cond ← parts.node "cond"
    let body ← parts.node "body"
    match parts.lookup "alternative" with
    | some (.branch which alternative) =>
      return .node (.ifElse which cond body alternative)
    | _ => return .node (.ifThen cond body)
  | .node .whileLoop => do
    return .node (.whileLoop (← parts.node "cond") (← parts.node "body"))
  | .node .forLoop => do
    return .node (.forLoop (← parts.node "init") (← parts.node "cond")
      (← parts.node "step") (← parts.node "body"))
  | .node .unknown => .ok (.node .unknown)
  | .branch which => do return .branch which (← parts.node "body")

/-- The operator with the given symbol. -/
def operatorOfSymbol (symbol : String) : Except ShapeFault Part :=
  match BinaryOp.ofSymbol? symbol with
  | some op => .ok (.operator op)
  | none => .error (.unknownOperator symbol)

/-- Reads an operator: its symbol, or an object with the symbol as its only key and
nothing under it. -/
def operatorOfJson : Json → Except ShapeFault Part
  | .string symbol => operatorOfSymbol symbol
  | .object [(symbol, value)] => do
    let op ← operatorOfSymbol symbol
    match value with
    | .null => return op
    | .object [] => return op
    | value => .error (.wrongType value.shape .nothing)
  | .object _ => .error .operatorKeys
  | value => .error (.wrongType value.shape .operator)

/-- Reads a text. -/
def textOfJson : Json → Except ShapeFault Part
  | .string value => .ok (.text value)
  | value => .error (.wrongType value.shape .text)

/-- Reads a truth value. -/
def flagOfJson : Json → Except ShapeFault Part
  | .bool value => .ok (.flag value)
  | value => .error (.wrongType value.shape .flag)

/-- The family of the parts that are trees. -/
def PartType.family : PartType → Family
  | .optionalBranch => .branch
  | _ => .node

mutual

/-- Reads one part. -/
def partOfJson (type : PartType) (value : Json) : Except ShapeFault Part :=
  match type with
  | .text => textOfJson value
  | .flag => flagOfJson value
  | .operator => operatorOfJson value
  | type => match value with
    | .null =>
      if type.isOptional then .ok .absent
      else .error (.wrongType .null type.family.expected)
    | .object fields =>
      match Tag.ofFields type.family none fields with
      | .error fault => .error fault
      | .ok tag => match partsOfFields tag [] fields with
        | .error fault => .error fault
        | .ok parts => tag.build parts
    | .array [] => .error (.missingField "kind")
    | .array (first :: elements) =>
      match Tag.ofJson type.family first with
      | .error fault => .error fault
      | .ok tag => match partsOfElements tag elements.length tag.fields elements with
        | .error fault => .error fault
        | .ok parts => tag.build parts
    | value => .error (.wrongType value.shape type.family.expected)

/-- Reads the parts of a kind out of an object's fields, given those read before. -/
def partsOfFields (tag : Tag) (parts : Parts) :
    List (String × Json) → Except ShapeFault Parts
  | [] => .ok parts
  | (key, value) :: rest =>
    match tag.fields.lookup key with
    | none => partsOfFields tag parts rest
    | some type =>
      if (parts.lookup key).isSome then .error (.duplicateField key)
      else match partOfJson type value with
        | .error fault => .error fault
        | .ok part => partsOfFields tag ((key, part) :: parts) rest

/-- Reads the parts of a kind out of an array's elements, `count` in all; `expected` are
the parts still to come. -/
def partsOfElements (tag : Tag) (count : Nat) (expected : List (String × PartType)) :
    List Json → Except ShapeFault Parts
  | [] =>
    if expected.all fun field => field.2.isOptional then .ok []
    else .error (.tooFew count tag)
  | value :: rest =>
    match expected with
    | [] => .error (.tooMany count tag.fields.length)
    | (name, type) :: expected =>
      match partOfJson type value with
      | .error fault => .error fault
      | .ok part => match partsOfElements tag count expected rest with
        | .error fault => .error fault
        | .ok parts => .ok ((name, part) :: parts)

end

namespace Node

/-- Reads a tree. -/
def ofJson (value : Json) : Except ShapeFault Node :=
  match partOfJson .node value with
  | .ok (.node tree) => .ok tree
  | .ok _ => .error (.wrongType value.shape .node)
  | .error fault => .error fault

/-- An object with a kind and parts. -/
def tagged (name : String) (parts : List (String × Json)) : Json :=
  .object (("kind", .string name) :: parts)

/-- Writes a tree. -/
def toJson : Node → Json
  | .number text => tagged "Number" [("value", .string text)]
  | .string text => tagged "String" [("value", .string text)]
  | .boolean value => tagged "Boolean" [("value", .bool value)]
  | .identifier name => tagged "Identifier" [("name", .string name)]
  | .operator op lhs rhs =>
    tagged "Operator" [("op", .string op.symbol), ("lhs", lhs.toJson),
      ("rhs", rhs.toJson)]
  | .assignment target value =>
    tagged "Assignment" [("target", .string target), ("value", value.toJson)]
  | .last first => tagged "Sequence" [("first", first.toJson), ("next", .null)]
  | .chain first next =>
    tagged "Sequence" [("first", first.toJson), ("next", next.toJson)]
  | .ifThen cond body =>
    tagged "If" [("cond", cond.toJson), ("body", body.toJson), ("alternative", .null)]
  | .ifElse branch cond body alternative =>
    tagged "If" [("cond", cond.toJson), ("body", body.toJson),
      ("alternative", tagged branch.tagName [("body", alternative.toJson)])]
  | .whileLoop cond body => tagged "While" [("cond", cond.toJson), ("body", body.toJson)]
  | .forLoop init cond step body =>
    tagged "For" [("init", init.toJson), ("cond", cond.toJson), ("step", step.toJson),
      ("body", body.toJson)]
  | .unknown => tagged "Unknown" []

end Node

end RealMode
