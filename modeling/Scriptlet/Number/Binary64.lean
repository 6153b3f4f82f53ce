/-
  Binary64: the 64-bit binary floating-point numbers, read off their bits.

  The magnitude of a finite number is `m · 2 ^ q` with `m < 2 ^ 53` and `-1074 ≤ q`, and its bit
  pattern is `(q + 1074) · 2 ^ 52 + m`: one formula for subnormal numbers (`q = -1074`,
  `m < 2 ^ 52`) and normal ones (`2 ^ 52 ≤ m`), and a mantissa that rounds up to `2 ^ 53` carries
  into the exponent by itself.

  1. `roundDiv` — a quotient rounded to the nearest integer, a tie to the even one.
  2. `ofRatio`  — the bits nearest to a ratio of natural numbers; `infinityBits` when it is too
     large.
  3. `decode`   — the pair `(m, q)` of a bit pattern, so `ofRatio` reads back what `decode` gives.
  4. `Binary64` — a number as its 64 bits.  Unlike a `Float`, it keeps the sign of a value that is
     no number, and its equality is that of the bits.
  5. `remainder` — the exact remainder of a truncated division.
-/

namespace Scriptlet

/-- A 64-bit binary floating-point number, given by its bits. -/
structure Binary64 where
  bits : UInt64
  deriving Repr, DecidableEq

namespace Binary64

/-! ## From a ratio to bits -/

/-- Two to the power `n`. -/
def pow2 (n : Nat) : Nat := Nat.pow 2 n

/-- The weight of the lowest exponent bit: mantissas of normal numbers reach at least this. -/
def unit : Nat := pow2 52

/-- The quotient `num / den` rounded to the nearest integer; a tie goes to the even neighbour. -/
def roundDiv (num den : Nat) : Nat :=
  let low := num / den
  let rest := 2 * (num % den)
  if rest < den || (rest == den && low % 2 == 0) then low else low + 1

/-- The ratio `num / den` divided by `2 ^ q`, again as a ratio. -/
def scale (num den : Nat) (q : Int) : Nat × Nat :=
  if 0 ≤ q then (num, den * pow2 q.toNat) else (num * pow2 (-q).toNat, den)

/-- The largest `k` with `2 ^ k ≤ num / den`, for positive `num` and `den`. -/
def floorLog2 (num den : Nat) : Int :=
  let k : Int := (num.log2 : Int) - (den.log2 : Int)
  let (n, d) := scale num den k
  if d ≤ n then k else k - 1

/-- The bits of positive infinity; every finite magnitude lies below. -/
def infinityBits : Nat := 0x7FF * unit

/-- The weight of the sign bit. -/
def signWeight : Nat := pow2 63

/-- The bits of the magnitude nearest to `num / den`, a tie to the even mantissa. -/
def ofRatio (num den : Nat) : Nat :=
  if num = 0 then 0
  else
    let q := max (-1074) (floorLog2 num den - 52)
    let (n, d) := scale num den q
    min infinityBits ((q + 1074).toNat * unit + roundDiv n d)

/-! ## From bits to a ratio -/

/-- Mantissa and binary exponent of a finite magnitude given by its bits. -/
def decode (bits : Nat) : Nat × Int :=
  let exponent : Nat := bits / unit
  let fraction := bits % unit
  if exponent = 0 then (fraction, -1074) else (unit + fraction, (exponent : Int) - 1075)

/-- The number `m · 2 ^ q` as a ratio of natural numbers. -/
def ratio (m : Nat) (q : Int) : Nat × Nat :=
  if 0 ≤ q then (m * pow2 q.toNat, 1) else (m, pow2 (-q).toNat)

/-! ## Numbers -/

/-- Bits of the magnitude: the bit pattern without its sign. -/
def magnitude (x : Binary64) : Nat := x.bits.toNat % signWeight

/-- Whether the sign bit is set, as it is for `-0.0`. -/
def isNegative (x : Binary64) : Bool := signWeight ≤ x.bits.toNat

/-- The number with this sign and these magnitude bits. -/
def assemble (negative : Bool) (magnitude : Nat) : Binary64 :=
  ⟨UInt64.ofNat (magnitude + if negative then signWeight else 0)⟩

/-- Whether `x` is a number and not infinite. -/
def isFinite (x : Binary64) : Bool := x.magnitude < infinityBits

/-- Whether `x` is no number. -/
def isNaN (x : Binary64) : Bool := infinityBits < x.magnitude

/-- The bits of a float. -/
def ofFloat (x : Float) : Binary64 := ⟨x.toBits⟩

/-- The float with these bits. -/
def toFloat (x : Binary64) : Float := Float.ofBits x.bits

/-- The number nearest to an integer. -/
def ofInt (n : Int) : Binary64 := assemble (n < 0) (ofRatio n.natAbs 1)

/-- The bits of a value that is no number. -/
def nanBits : Nat := infinityBits + pow2 51

/-- The remainder `x - n · y` where `n` is `x / y` cut to an integer.  It is exact, has the sign of
    `x`, and is no number when `x` is not finite or `y` is zero or no number. -/
def remainder (x y : Binary64) : Binary64 :=
  if !x.isFinite || y.isNaN || y.magnitude == 0 then assemble false nanBits
  else if !y.isFinite then x
  else
    let (mx, qx) := decode x.magnitude
    let (my, qy) := decode y.magnitude
    let q := min qx qy
    let rest := (mx * pow2 (qx - q).toNat) % (my * pow2 (qy - q).toNat)
    let (num, den) := ratio rest q
    assemble x.isNegative (ofRatio num den)

end Binary64

end Scriptlet
