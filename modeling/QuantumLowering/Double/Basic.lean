/-!
# Doubles

A `Double` is the 64-bit pattern of a binary floating point number: a
sign, eleven bits of exponent and fifty-two of fraction. Arithmetic on
finite doubles is exact arithmetic on mantissa and exponent followed by
one rounding, to the nearest double with ties to the even pattern
(`roundRatio`).
-/


namespace QuantumLowering

/-- A double, as its bit pattern. -/
structure Double where
  /-- Sign, exponent and fraction, from the highest bit down. -/
  bits : UInt64
deriving DecidableEq, Inhabited

namespace Double

/-- The pattern without the sign. -/
def magnitude (d : Double) : Nat := d.bits.toNat % Nat.pow 2 63

/-- Whether the sign bit is set; it is for a negative zero too. -/
def isNegative (d : Double) : Bool := Nat.pow 2 63 ≤ d.bits.toNat

/-- The pattern at which the finite magnitudes end. -/
def infinite : Nat := 2047 * Nat.pow 2 52

/-- Whether the double is a number and not an infinity. -/
def isFinite (d : Double) : Bool := d.magnitude < infinite

/-- The double of a sign and a magnitude pattern. -/
def ofMagnitude (negative : Bool) (magnitude : Nat) : Double :=
  ⟨UInt64.ofNat (magnitude + if negative then Nat.pow 2 63 else 0)⟩

/-- The integer part of a magnitude pattern: the pattern stands for
`mantissa * 2 ^ exponent`. -/
def mantissa (pattern : Nat) : Nat :=
  if pattern < Nat.pow 2 52 then pattern else Nat.pow 2 52 + pattern % Nat.pow 2 52

/-- The binary exponent of a magnitude pattern. -/
def exponent (pattern : Nat) : Int :=
  if pattern < Nat.pow 2 52 then -1074 else (pattern / Nat.pow 2 52 : Nat) - 1075

/-! ## Rounding -/

/-- The integer nearest to a quotient, the even one of two. -/
def divNearest (num den : Nat) : Nat :=
  let low := num / den
  let rest := num % den
  if den < 2 * rest ∨ (2 * rest = den ∧ low % 2 = 1) then low + 1 else low

/-- The whole part of the binary logarithm of a positive quotient. -/
def log2Ratio (num den : Nat) : Int :=
  let k : Int := num.log2 - den.log2
  if num * Nat.pow 2 (-k).toNat < den * Nat.pow 2 k.toNat then k - 1 else k

/-- The magnitude pattern nearest to `num / den`, the even one of two, or
`none` beyond the largest finite double. The mantissa keeps fifty-three
bits as long as the exponent does not fall below that of the smallest
double. -/
def roundRatio (num den : Nat) : Option Nat :=
  if num = 0 then some 0
  else
    let q := max (log2Ratio num den - 52) (-1074)
    let m := divNearest (num * Nat.pow 2 (-q).toNat) (den * Nat.pow 2 q.toNat)
    let pattern := (q + 1074).toNat * Nat.pow 2 52 + m
    if pattern < infinite then some pattern else none

/-- A magnitude pattern as a quotient of integers. -/
def ratio (pattern : Nat) : Nat × Nat :=
  let e := exponent pattern
  (mantissa pattern * Nat.pow 2 e.toNat, Nat.pow 2 (-e).toNat)

/-- The rounded product of two magnitudes. -/
def mulMagnitude (a b : Nat) : Option Nat :=
  roundRatio ((ratio a).1 * (ratio b).1) ((ratio a).2 * (ratio b).2)

/-- The rounded quotient of two magnitudes, the second not zero. -/
def divMagnitude (a b : Nat) : Option Nat :=
  roundRatio ((ratio a).1 * (ratio b).2) ((ratio a).2 * (ratio b).1)

/-! ## Reading a scaled integer

A decimal is read in two roundings: its digits are rounded to a double,
and that double is multiplied or divided by the double of one power of
ten. The tenth power is at most `10 ^ 308`; smaller numbers take several
divisions. -/

/-- The largest power of ten that is a finite double. -/
def maxPower : Nat := 308

/-- Divides a magnitude by `10 ^ e`, in steps of the largest power. Once
a step gives zero the rest do too, so the number of steps is bounded by
the fuel. -/
def divPower : Nat → Nat → Nat → Option Nat
  | 0, _, _ => some 0
  | fuel + 1, a, e =>
    if e ≤ maxPower then do
      let p ← roundRatio (Nat.pow 10 e) 1
      divMagnitude a p
    else do
      let p ← roundRatio (Nat.pow 10 maxPower) 1
      let a ← divMagnitude a p
      divPower fuel a (e - maxPower)

/-- The magnitude read for `significand * 10 ^ scale`, or `none` if it is
beyond the finite doubles. -/
def readScaled (significand : Nat) (scale : Int) : Option Nat := do
  let a ← roundRatio significand 1
  if a = 0 then pure 0
  else if scale < 0 then divPower 4 a (-scale).toNat
  else if scale ≤ maxPower then do
    let p ← roundRatio (Nat.pow 10 scale.toNat) 1
    mulMagnitude a p
  else none

end Double

end QuantumLowering
