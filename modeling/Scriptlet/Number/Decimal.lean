/-
  Decimal: the text of a floating-point number and the number of a text.

  **Reading.**  Digits with a fraction denote a ratio, and `Binary64.ofRatio` rounds it.

  **Writing.**  The text has the fewest significant digits that read back to the same number; of two
  such decimals with the same number of digits the nearer one is taken, and of two equally near
  ones the larger.  `shortest` looks for them on the grids of 1, 2, … 17 significant digits: a grid
  holds a decimal that reads back exactly when one of the two grid points next to the value does.

  **Layout.**  `floatText` is always positional, never with an exponent, and always has a fraction
  (`3.0`, `0.001`), so the text of a finite number without a sign is again a float literal.
-/
import Scriptlet.Number.Binary64

namespace Scriptlet.Decimal

/-! ## Digits -/

/-- The value of a list of ASCII digits. -/
def natOfDigits (digits : List Char) : Nat :=
  digits.foldl (fun n c => 10 * n + (c.toNat - '0'.toNat)) 0

/-- The ASCII digits of `n` without leading zeros. -/
def digitsOfNat (n : Nat) : List Char := Nat.toDigits 10 n

/-- Ten to the power `n`. -/
def pow10 (n : Nat) : Nat := Nat.pow 10 n

/-- The magnitude bits of `digits · 10 ^ exponent`. -/
def read (digits : Nat) (exponent : Int) : Nat :=
  if 0 ≤ exponent then Binary64.ofRatio (digits * pow10 exponent.toNat) 1
  else Binary64.ofRatio digits (pow10 (-exponent).toNat)

/-- The number written with the digits `whole` before the point and `fraction` after it. -/
def ofFraction (whole fraction : List Char) : Binary64 :=
  Binary64.assemble false (read (natOfDigits (whole ++ fraction)) (-fraction.length))

/-! ## The fewest digits that read back -/

/-- The least `k` with `num / den < 10 ^ k`, for a positive ratio whose logarithm to base two has
    the integer part `log2`. -/
def magnitude10 (num den : Nat) (log2 : Int) : Int :=
  -- log10 2 is just below 0.30103, so the answer is the guess or one of the next two integers
  let guess : Int := (log2 * 30103).fdiv 100000
  let below (k : Int) : Bool :=
    if 0 ≤ k then num < den * pow10 k.toNat else num * pow10 (-k).toNat < den
  if below guess then guess else if below (guess + 1) then guess + 1 else guess + 2

/-- Of the two multiples of `10 ^ exponent` around `num / den`, the one that reads back to `bits`;
    of two such multiples the nearer one, and the upper one of a tie. -/
def onGrid? (bits num den : Nat) (exponent : Int) : Option (Nat × Int) :=
  let (n, d) :=
    if 0 ≤ exponent then (num, den * pow10 exponent.toNat) else (num * pow10 (-exponent).toNat, den)
  let low := n / d
  let fromLow := read low exponent == bits
  let fromHigh := read (low + 1) exponent == bits
  if fromHigh && (!fromLow || d ≤ 2 * (n % d)) then some (low + 1, exponent)
  else if fromLow then some (low, exponent)
  else none

/-- Removes the zeros at the end of the digits, raising the exponent by one for each. -/
def trimZeros : Nat → Nat → Int → Nat × Int
  | 0, digits, exponent => (digits, exponent)
  | fuel + 1, digits, exponent =>
    if digits % 10 = 0 then trimZeros fuel (digits / 10) (exponent + 1) else (digits, exponent)

/-- Digits and exponent of the shortest decimal that reads back to the positive magnitude `bits`. -/
def shortest (bits : Nat) : Nat × Int :=
  let (m, q) := Binary64.decode bits
  let (num, den) := Binary64.ratio m q
  let k := magnitude10 num den ((m.log2 : Int) + q)
  let (digits, exponent) :=
    ((List.range 17).findSome? fun (n : Nat) => onGrid? bits num den (k - (n + 1))).getD
      (num * pow10 (-q).toNat / den, -((-q).toNat : Int))
  trimZeros 17 digits exponent

/-! ## Positional text -/

/-- The number `digits · 10 ^ exponent` with a point and at least one digit on either side of it. -/
def positional (digits : List Char) (exponent : Int) : List Char :=
  if 0 ≤ exponent then digits ++ List.replicate exponent.toNat '0' ++ ['.', '0']
  else
    let places := (-exponent).toNat
    if places < digits.length then
      digits.take (digits.length - places) ++ '.' :: digits.drop (digits.length - places)
    else '0' :: '.' :: List.replicate (places - digits.length) '0' ++ digits

/-- The text of a magnitude given by its bits. -/
def magnitudeText (bits : Nat) : List Char :=
  if bits = 0 then ['0', '.', '0']
  else
    let (digits, exponent) := shortest bits
    positional (digitsOfNat digits) exponent

/-- The text of a number: positional with a fraction, or `inf`, `-inf`; `NaN` for what is none. -/
def floatText (x : Binary64) : String :=
  if x.isNaN then "NaN"
  else
    let sign := if x.isNegative then "-" else ""
    if x.isFinite then sign ++ String.ofList (magnitudeText x.magnitude) else sign ++ "inf"

end Scriptlet.Decimal
