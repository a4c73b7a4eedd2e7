import QuantumLowering.Double.Shortest
/-!
# The text of a double

In program text a double is written in positional notation at any size,
with the digits of its shortest decimal, ties away from zero. A whole
number has no point, and a negative zero keeps its sign.
-/


namespace QuantumLowering

namespace Decimal

/-- The digits before and after the point, positionally. -/
def positional (d : Decimal) : List Nat × List Nat :=
  if 0 ≤ d.scale then (d.digits ++ List.replicate d.scale.toNat 0, [])
  else if 0 < d.point then d.digits.splitAt d.point.toNat
  else ([0], List.replicate (-d.point).toNat 0 ++ d.digits)

/-- The positional text of a decimal. -/
def text (d : Decimal) : String :=
  match d.positional with
  | (whole, []) => digitText whole
  | (whole, fraction) => digitText whole ++ "." ++ digitText fraction

end Decimal

namespace Double

/-- The text of a double inside program text. -/
def text (d : Double) : String :=
  let sign := if d.isNegative then "-" else ""
  if d.isFinite then sign ++ (d.shortest .away).text
  else if d.magnitude = infinite then sign ++ "inf"
  else "NaN"

end Double

end QuantumLowering
