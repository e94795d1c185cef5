/-!
# Positions in a text

A position is a line, counted from one, and a column, counted in bytes of the UTF-8 form
since the last newline.
-/

namespace RealMode.Text

/-- A line, from one, and the number of bytes since its start. -/
structure Position where
  line : Nat
  column : Nat
deriving DecidableEq, Repr

/-- The number of bytes of the UTF-8 form. -/
def byteLength (cs : List Char) : Nat :=
  cs.foldl (fun n c => n + c.utf8Size) 0

namespace Position

/-- Moves a position over `index` bytes of a text, or over all of it if it is shorter. A
character that lies only partly before the index counts with that part. -/
def advance (p : Position) : List Char → Nat → Position
  | [], _ => p
  | c :: rest, index =>
    if index < c.utf8Size then { p with column := p.column + index }
    else if c = '\n' then advance ⟨p.line + 1, 0⟩ rest (index - 1)
    else advance ⟨p.line, p.column + c.utf8Size⟩ rest (index - c.utf8Size)

/-- The position after the first `index` bytes of a text. -/
def ofIndex (cs : List Char) (index : Nat) : Position :=
  advance ⟨1, 0⟩ cs index

end Position

end RealMode.Text
