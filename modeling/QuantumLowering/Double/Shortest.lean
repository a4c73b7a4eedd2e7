import QuantumLowering.Double.Basic
/-!
# The shortest decimal of a double

`Double.shortest` is the decimal with the fewest digits that still rounds
to the double, and of those with equally many the one nearest to it. On
a grid of a power of ten only the two neighbours of the double can lie in
the interval that rounds to it, so the search tries the grids from the
coarsest down and takes the first with a hit. Two hits can be equally
near; which one is taken then is a choice of the format (`Tie`).
-/


namespace QuantumLowering

/-- A decimal number: its digits, read as one integer, times a power of
ten. -/
structure Decimal where
  /-- The digits, from the highest down. -/
  digits : List Nat
  /-- The power of ten that scales them. -/
  scale : Int
deriving DecidableEq

namespace Decimal

/-- The digits of a natural number. -/
def digitsOf (n : Nat) : List Nat := (Nat.toDigits 10 n).map fun c => c.toNat - '0'.toNat

/-- The natural number of some digits. -/
def ofDigits (ds : List Nat) : Nat := ds.foldl (fun n d => 10 * n + d) 0

/-- The text of some digits. -/
def digitText (ds : List Nat) : String :=
  String.ofList (ds.map fun d => Char.ofNat (d + '0'.toNat))

/-- How many digits stand before the point. -/
def point (d : Decimal) : Int := d.digits.length + d.scale

end Decimal

/-- Which of two equally near digits is taken. -/
inductive Tie where
  /-- The even one. -/
  | even
  /-- The one further from zero. -/
  | away
deriving DecidableEq

namespace Double

/-- The interval that rounds to a magnitude pattern, in quarters of the
unit of its mantissa: the low end, the value and the high end. Just above
a power of two the doubles below lie twice as close. -/
def interval (pattern : Nat) : Nat × Nat × Nat :=
  let m := mantissa pattern
  let low := if m = Nat.pow 2 52 ∧ Nat.pow 2 53 ≤ pattern then 1 else 2
  (4 * m - low, 4 * m, 4 * m + 2)

/-- The unit of `interval` measured in steps of `10 ^ grid`, as a quotient
of integers. -/
def unitOnGrid (pattern : Nat) (grid : Int) : Nat × Nat :=
  let e := exponent pattern - 2
  (Nat.pow 2 e.toNat * Nat.pow 10 (-grid).toNat, Nat.pow 2 (-e).toNat * Nat.pow 10 grid.toNat)

/-- The grid point of `10 ^ grid` that rounds to the pattern, the nearer
one if both neighbours of the value do. The ends of the interval belong
to it when the pattern is even. -/
def onGrid? (tie : Tie) (pattern : Nat) (grid : Int) : Option Nat :=
  let (low, value, high) := interval pattern
  let (num, den) := unitOnGrid pattern grid
  let fits (n : Nat) : Bool :=
    if pattern % 2 = 0 then low * num ≤ n * den ∧ n * den ≤ high * num
    else low * num < n * den ∧ n * den < high * num
  let below := value * num / den
  let above := below + 1
  match fits below, fits above with
  | true, true =>
    let gapBelow := value * num - below * den
    let gapAbove := above * den - value * num
    if gapBelow < gapAbove ∨ (gapBelow = gapAbove ∧ tie = .even ∧ below % 2 = 0) then some below
    else some above
  | true, false => some below
  | false, true => some above
  | false, false => none

/-- Searches the grids from `10 ^ grid` down. -/
def searchGrids (tie : Tie) (pattern : Nat) : Nat → Int → Decimal
  | 0, grid => ⟨[0], grid⟩
  | fuel + 1, grid =>
    match onGrid? tie pattern grid with
    | some n =>
      if n = 0 then searchGrids tie pattern fuel (grid - 1) else ⟨Decimal.digitsOf n, grid⟩
    | none => searchGrids tie pattern fuel (grid - 1)

/-- The shortest decimal that rounds to the magnitude of a finite double.
The largest double is below `10 ^ 309` and every double is a multiple of
`10 ^ (-1074)`, so the search ends. -/
def shortest (tie : Tie) (d : Double) : Decimal :=
  if d.magnitude = 0 then ⟨[0], 0⟩
  else
    let start := (log2Ratio (ratio d.magnitude).1 (ratio d.magnitude).2) * 30103 / 100000 + 2
    searchGrids tie d.magnitude 1400 start

end Double

end QuantumLowering
