/-!
# Blanks at the ends of a text

`isBlank` holds of the characters with the Unicode property White_Space, and `trim` takes
them off both ends. The byte order mark and the zero-width space are not blanks.
-/

namespace RealMode.Text

/-- The Unicode property White_Space. -/
def isBlank (c : Char) : Bool :=
  let n := c.toNat
  (0x09 ≤ n && n ≤ 0x0d) || n == 0x20 || n == 0x85 || n == 0xa0 || n == 0x1680 ||
    (0x2000 ≤ n && n ≤ 0x200a) || n == 0x2028 || n == 0x2029 || n == 0x202f ||
    n == 0x205f || n == 0x3000

/-- Takes the characters that satisfy `p` off both ends. -/
def strip (p : Char → Bool) (cs : List Char) : List Char :=
  ((cs.dropWhile p).reverse.dropWhile p).reverse

/-- Takes the blanks off both ends. -/
def trim (cs : List Char) : List Char :=
  strip isBlank cs

end RealMode.Text
