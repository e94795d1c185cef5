import RealMode.Binary64.Shortest
import RealMode.Text.Quoted

/-!
# JSON values

A value keeps what its text distinguishes: natural numbers that fit 64 bits, negative
integers that fit 64 bits, all other numbers as doubles, and the fields of an object in
order with repetitions.

- `Json.shape` is a value without the contents of its containers, as messages name it.
- `Json.nesting` counts how deep containers are nested.
-/

namespace RealMode

/-- A JSON value. -/
inductive Json
  | null
  | bool (value : Bool)
  | natural (value : Nat)
  | negative (magnitude : Nat)
  | float (value : Binary64)
  | string (value : String)
  | array (elements : List Json)
  | object (fields : List (String × Json))

namespace Json

/-- A value as messages name it: containers without their contents. -/
inductive Shape
  | null
  | bool (value : Bool)
  | natural (value : Nat)
  | negative (magnitude : Nat)
  | float (value : Binary64)
  | string (value : String)
  | array
  | object
deriving DecidableEq, Repr

/-- The shape of a value. -/
def shape : Json → Shape
  | .null => .null
  | .bool value => .bool value
  | .natural value => .natural value
  | .negative magnitude => .negative magnitude
  | .float value => .float value
  | .string value => .string value
  | .array _ => .array
  | .object _ => .object

/-- How messages describe a value. -/
def Shape.describe : Shape → String
  | .null => "null"
  | .bool true => "boolean `true`"
  | .bool false => "boolean `false`"
  | .natural value => s!"integer `{value}`"
  | .negative magnitude => s!"integer `-{magnitude}`"
  | .float value => s!"floating point `{value.text}`"
  | .string value => s!"string {Text.quoted value}"
  | .array => "sequence"
  | .object => "map"

mutual

/-- How many containers are nested inside one another in a value. -/
def nesting : Json → Nat
  | .array elements => nestingElements elements + 1
  | .object fields => nestingFields fields + 1
  | _ => 0

/-- The deepest nesting among elements. -/
def nestingElements : List Json → Nat
  | [] => 0
  | value :: rest => max value.nesting (nestingElements rest)

/-- The deepest nesting among fields. -/
def nestingFields : List (String × Json) → Nat
  | [] => 0
  | (_, value) :: rest => max value.nesting (nestingFields rest)

end

end Json

end RealMode
