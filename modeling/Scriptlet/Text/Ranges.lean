/-
  Sets of characters as ranges of code points.

  A property of characters that a standard lists range by range is kept as a list of closed,
  increasing intervals of code points; membership is `inRanges`.
-/

namespace Scriptlet.Text

/-- Closed intervals of code points, first and last included. -/
abbrev Ranges := List (Nat × Nat)

/-- Whether the code point of `c` lies in one of the intervals. -/
def inRanges (ranges : Ranges) (c : Char) : Bool :=
  ranges.any fun r => r.1 ≤ c.toNat && c.toNat ≤ r.2

/-- Below U+0080 the classes of characters are spelled out instead of listed. -/
def isAscii (c : Char) : Bool := c.toNat < 0x80

end Scriptlet.Text
