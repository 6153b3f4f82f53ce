/-
  Integer: the integers of the language, 64 bits with sign.

  Arithmetic is done in `Int`, where it is exact, and `fit?` brings the result back: `none` says
  that the exact result leaves the 64-bit range.
-/

namespace Scriptlet.Integer

/-- The least 64-bit integer. -/
def least : Int := -0x8000000000000000

/-- The greatest 64-bit integer. -/
def greatest : Int := 0x7FFFFFFFFFFFFFFF

/-- The 64-bit integer with the value `n`, if `n` is in range. -/
def fit? (n : Int) : Option Int64 :=
  if least ≤ n ∧ n ≤ greatest then some (Int64.ofInt n) else none

/-- Decimal text, with a minus sign when negative. -/
def text (n : Int64) : String := toString n.toInt

end Scriptlet.Integer
