/-!
# Path texts

A path is a text whose components are separated by slashes. Only its text is looked at,
never the files: an empty part and a part `.` are no components, except that a `.` at the
very beginning is one; `..` is a component like a name.

- `Path.parent?` is a path without its last component.
- `Path.defaultBase` is a path without the extension of its last component.
- `Path.artifact` is the file in which the listing for a base name is kept.
-/

namespace RealMode

/-- Where a path starts: anywhere, at the root, or with a leading `.`. -/
inductive PathStart
  | relative
  | root
  | current
deriving DecidableEq, Repr

/-- The text of a start. -/
def PathStart.text : PathStart → List Char
  | .relative => []
  | .root => ['/']
  | .current => ['.']

/-- A path as its start and the parts between the slashes after it, the last part
first. -/
structure Path where
  start : PathStart
  parts : List (List Char)
deriving DecidableEq, Repr

namespace Path

/-- Cuts a text at its slashes. -/
def splitSlash : List Char → List (List Char)
  | [] => [[]]
  | c :: rest =>
    if c = '/' then [] :: splitSlash rest
    else match splitSlash rest with
      | part :: more => (c :: part) :: more
      | [] => [[c]]

/-- Puts parts together with slashes between them. -/
def joinSlash (parts : List (List Char)) : List Char :=
  List.intercalate ['/'] parts

/-- The start of a text and what follows it. -/
def splitStart : List Char → PathStart × List Char
  | '/' :: rest => (.root, rest)
  | ['.'] => (.current, [])
  | '.' :: '/' :: rest => (.current, '/' :: rest)
  | cs => (.relative, cs)

/-- Reads a path. -/
def ofChars (cs : List Char) : Path :=
  let (start, rest) := splitStart cs
  ⟨start, (splitSlash rest).reverse⟩

/-- The text of a path. -/
def chars (p : Path) : List Char :=
  p.start.text ++ joinSlash p.parts.reverse

/-- Whether a part is no component. -/
def isIdle (part : List Char) : Bool :=
  part == [] || part == ['.']

/-- The parts up to the last component, the last first. -/
def components (p : Path) : List (List Char) :=
  p.parts.dropWhile isIdle

/-- The path without its last component; none if it has no component but the root. -/
def parent? (p : Path) : Option Path :=
  match p.components with
  | _ :: rest => some ⟨p.start, rest.dropWhile isIdle⟩
  | [] => if p.start = .current then some ⟨.relative, []⟩ else none

/-- How many parents a path has at most. -/
def weight (p : Path) : Nat :=
  2 * p.parts.length + (if p.start = .current then 1 else 0)

theorem length_dropWhile_le {α : Type} (f : α → Bool) (l : List α) :
    (l.dropWhile f).length ≤ l.length :=
  (List.dropWhile_sublist f).length_le

theorem weight_parent? {p q : Path} (h : p.parent? = some q) : q.weight < p.weight := by
  have hle := length_dropWhile_le isIdle p.parts
  unfold parent? at h
  split at h
  · rename_i part rest hc
    have hrest := length_dropWhile_le isIdle rest
    have hlen := congrArg List.length hc
    simp only [components, List.length_cons] at hlen
    simp only [Option.some.injEq] at h
    subst h
    simp only [weight]
    omega
  · split at h
    · rename_i hs
      simp only [Option.some.injEq] at h
      subst h
      simp [weight, hs]
    · simp at h

/-- A path and its parents, nearest first. -/
def withParents (p : Path) : List Path :=
  p :: match h : p.parent? with
    | some q =>
      have := weight_parent? h
      q.withParents
    | none => []
termination_by p.weight

/-- The last component, if it is a name. -/
def fileName? (p : Path) : Option (List Char) :=
  match p.components with
  | name :: _ => if name = ['.', '.'] then none else some name
  | [] => none

/-- Cuts a name at its last dot into stem and extension. A name whose only dot comes first
has no extension. -/
def splitName (name : List Char) : List Char × Option (List Char) :=
  let after := (name.reverse.takeWhile (· != '.')).reverse
  match name.reverse.dropWhile (· != '.') with
  | _ :: stem => if stem.isEmpty then (name, none) else (stem.reverse, some after)
  | [] => (name, none)

/-- Cuts a path right after the stem of its name. -/
def cutAfterStem (p : Path) : Path :=
  match p.components, p.fileName? with
  | _ :: rest, some name => ⟨p.start, (splitName name).1 :: rest⟩
  | _, _ => p

/-- A text without its extension. First as many characters as the extension has are taken
off the end, then all that follows the stem of what is left; a text that is then no file
name stays as it is. -/
def dropExtension (cs : List Char) : List Char :=
  let cut := match (ofChars cs).fileName? with
    | some name => match (splitName name).2 with
      | some ext => cs.take (cs.length - ext.length)
      | none => cs
    | none => cs
  (cutAfterStem (ofChars cut)).chars

/-- The path of the listing for a base name. -/
def artifact (base : String) : String :=
  base ++ ".asm"

/-- The base name for an input: its path without the extension. -/
def defaultBase (input : String) : String :=
  String.ofList (dropExtension input.toList)

/-- The text of the parent of a path. -/
def parentText? (path : String) : Option String :=
  (ofChars path.toList).parent?.map fun p => String.ofList p.chars

/-- The texts of a path and of its parents, nearest first. -/
def textsUpward (path : String) : List String :=
  (ofChars path.toList).withParents.map fun p => String.ofList p.chars

/-- The path of a name in a directory. -/
def child (dir name : String) : String :=
  match dir.toList.getLast? with
  | none => name
  | some '/' => dir ++ name
  | some _ => dir ++ "/" ++ name

end Path

end RealMode
