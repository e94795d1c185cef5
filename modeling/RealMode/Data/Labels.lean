import RealMode.Data.Static
import Std.Data.TreeMap

/-!
# Labels of data items

Every item of the data segment has a label of its own. Variables are labelled by their
names; the labels of the other items are chosen so that they meet neither a name nor one
another. First the line break takes its label, then the message of every name in order,
then every string literal in order: each asks for a base and gets it, or the first free
one of `base_2`, `base_3`, ….
-/

namespace RealMode

/-- The labels of the line break, of the message of each name and of each string
literal. -/
structure DataLabels where
  newLine : String
  messages : Std.TreeMap String String
  strings : Std.TreeMap String String

namespace DataLabels

/-- The `k`-th variant of a label. -/
def suffixed (base : String) (k : Nat) : String :=
  base ++ "_" ++ toString k

/-- The first `i ≥ k` for which the variant is free, looking at `rounds` of them. -/
def searchSuffix (taken : Std.TreeSet String) (base : String) (k : Nat) : Nat → Nat
  | 0 => k
  | rounds + 1 =>
    if taken.contains (suffixed base k) then searchSuffix taken base (k + 1) rounds else k

/-- The base, or its first free variant. Among as many variants as there are taken labels
one is free, because the base itself is taken. -/
def fresh (taken : Std.TreeSet String) (base : String) : String :=
  if taken.contains base then suffixed base (searchSuffix taken base 2 taken.size)
  else base

/-- Chooses a label for the base and takes it. -/
def claim (taken : Std.TreeSet String) (base : String) : String × Std.TreeSet String :=
  let label := fresh taken base
  (label, taken.insert label)

/-- Chooses a label for each key in turn. -/
def claimAll (base : String → String) :
    List String → Std.TreeMap String String → Std.TreeSet String →
      Std.TreeMap String String × Std.TreeSet String
  | [], labels, taken => (labels, taken)
  | key :: rest, labels, taken =>
    let (label, taken) := claim taken (base key)
    claimAll base rest (labels.insert key label) taken

/-- The label that a message asks for. -/
def messageBase (name : String) : String :=
  "msg_" ++ name

/-- A character as it stands in the label of a literal: a blank is left out, and all but
ASCII letters, digits and the underscore become an underscore. -/
def labelChar? (c : Char) : Option Char :=
  if c = ' ' then none
  else if c.isAlphanum || c = '_' then some c
  else some '_'

/-- The label that a literal asks for. -/
def stringBase (literal : String) : String :=
  "str_" ++ String.ofList (literal.toList.filterMap labelChar?)

/-- Chooses the labels for names and literals. -/
def assign (identifiers literals : Std.TreeSet String) : DataLabels :=
  let (newLine, taken) := claim identifiers "new_line"
  let (messages, taken) := claimAll messageBase identifiers.toList ∅ taken
  let (strings, _) := claimAll stringBase literals.toList ∅ taken
  ⟨newLine, messages, strings⟩

/-- The label of the message of a name. -/
def message? (labels : DataLabels) (name : String) : Option String :=
  labels.messages[name]?

/-- The label of a string literal. -/
def string? (labels : DataLabels) (literal : String) : Option String :=
  labels.strings[literal]?

end DataLabels

/-- The labels for the data of a program. -/
def StaticData.labels (data : StaticData) : DataLabels :=
  .assign data.identifiers data.literals

end RealMode
