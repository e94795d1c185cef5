/-!
# Settings of a compilation

How an assignment to a variable that is there already is taken, and how deep a program may
be nested.
-/

namespace RealMode

/-- What happens when a variable is assigned again. -/
inductive Policy
  | warn
  | allow
deriving DecidableEq, Repr

namespace Policy

/-- How a policy is written. -/
def name : Policy → String
  | .warn => "warn"
  | .allow => "allow"

/-- The policy that is written as the given text. -/
def ofName? (text : String) : Option Policy :=
  if text = "warn" then some .warn
  else if text = "allow" then some .allow
  else none

end Policy

/-- The settings of a compilation. -/
structure Settings where
  redeclaration : Policy := .warn
  maxDepth : Nat := 256
deriving DecidableEq, Repr

end RealMode
