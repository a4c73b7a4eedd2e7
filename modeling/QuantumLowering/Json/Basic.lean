import QuantumLowering.Double.Shortest
/-!
# JSON values

A `Json` value keeps what a decoder may ask for: a number is kept as it
is spelled, so that an integer can be told from a fraction, and an object
lists its members in order, repeated names included.
-/


namespace QuantumLowering

/-- A number as it is spelled. -/
structure NumberLiteral where
  /-- Whether a minus sign stands in front. -/
  negative : Bool
  /-- The digits before the point, as a number. -/
  whole : Nat
  /-- The digits after the point; none when there is no point. -/
  fraction : List Nat
  /-- The power of ten after an exponent mark. -/
  exponent : Option Int
deriving DecidableEq

/-- A JSON value. -/
inductive Json where
  | null
  | bool (b : Bool)
  | number (n : NumberLiteral)
  | string (s : String)
  /-- A string with a surrogate escape that stands alone, or an object with
  such a name. It can be skipped but has no text. -/
  | textless
  | array (items : List Json)
  | object (members : List (String × Json))

namespace NumberLiteral

/-- Whether the literal is spelled as an integer. -/
def isInteger (n : NumberLiteral) : Bool := n.fraction.isEmpty && n.exponent.isNone

/-- The literal of an integer. -/
def ofInt (i : Int) : NumberLiteral := ⟨decide (i < 0), i.natAbs, [], none⟩

/-- The natural number below a limit that the literal spells. -/
def nat? (limit : Nat) (n : NumberLiteral) : Option Nat :=
  if n.isInteger && !n.negative && decide (n.whole < limit) then some n.whole else none

/-- The 64-bit integer that the literal spells. A negative zero is not an
integer. -/
def int? (n : NumberLiteral) : Option Int :=
  if !n.isInteger then none
  else if n.negative then
    if 0 < n.whole ∧ n.whole ≤ Nat.pow 2 63 then some (-n.whole) else none
  else if n.whole < Nat.pow 2 63 then some n.whole else none

/-! ## Reading a double -/

/-- The limit of the significand that is kept of a literal's digits: it has
64 bits. -/
def significandLimit : Nat := 18446744073709551616

/-- Takes up digits before the point. Once one does not fit, it and those
after it only scale the number. -/
def takeWhole : List Nat → Nat → Nat × Int
  | [], significand => (significand, 0)
  | d :: ds, significand =>
    if significand * 10 + d < significandLimit then takeWhole ds (significand * 10 + d)
    else (significand, ds.length + 1)

/-- Takes up digits after the point, as long as they fit. -/
def takeFraction : List Nat → Nat × Int → Nat × Int
  | [], s => s
  | d :: ds, (significand, scale) =>
    if significand * 10 + d < significandLimit then
      takeFraction ds (significand * 10 + d, scale - 1)
    else (significand, scale)

/-- The double that the literal spells, or `none` when it is beyond the
finite doubles. -/
def double? (n : NumberLiteral) : Option Double := do
  let (significand, scale) := takeFraction n.fraction (takeWhole (Decimal.digitsOf n.whole) 0)
  let magnitude ← Double.readScaled significand (scale + n.exponent.getD 0)
  pure (Double.ofMagnitude n.negative magnitude)

/-- The literal of a finite double: its shortest decimal, ties to the even
digit, positional when the point falls among or near the digits, always
with a point or an exponent. -/
def ofDouble (d : Double) : NumberLiteral :=
  let s := d.shortest .even
  let digits := s.digits
  if 0 ≤ s.scale ∧ s.point ≤ 16 then
    ⟨d.isNegative, Decimal.ofDigits digits * Nat.pow 10 s.scale.toNat, [0], none⟩
  else if 0 < s.point ∧ s.point ≤ 16 then
    let (whole, fraction) := digits.splitAt s.point.toNat
    ⟨d.isNegative, Decimal.ofDigits whole, fraction, none⟩
  else if -5 < s.point ∧ s.point ≤ 0 then
    ⟨d.isNegative, 0, List.replicate (-s.point).toNat 0 ++ digits, none⟩
  else
    ⟨d.isNegative, digits.headD 0, digits.tail, some (s.point - 1)⟩

end NumberLiteral

namespace Json

/-- Whether the value is the absent one. -/
def isNull : Json → Bool
  | null => true
  | _ => false

/-- An integer. -/
def int (i : Int) : Json := .number (.ofInt i)

/-- A natural number. -/
def nat (n : Nat) : Json := .int n

/-- A double. -/
def double (d : Double) : Json := .number (.ofDouble d)

/-- A value that may be absent, `null` when it is. -/
def ofOption {α : Type} (encode : α → Json) : Option α → Json
  | some a => encode a
  | none => .null

/-- A list of values. -/
def ofList {α : Type} (encode : α → Json) (l : List α) : Json := .array (l.map encode)

end Json

end QuantumLowering
