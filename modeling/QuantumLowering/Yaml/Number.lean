import QuantumLowering.Double.Basic
import QuantumLowering.Text.Digits
/-!
# Plain scalars that are no text

A plain scalar may spell an absent value, a truth value or a number.
Integers are decimal, or hexadecimal, octal or binary after a mark; they
have at most 128 bits. Digits after a leading zero are no number. A
decimal fraction is one as long as some finite double is nearest to it.
-/


namespace QuantumLowering

namespace Yaml

/-! ## Words -/

/-- Whether a word stands for an absent value. -/
def isNullWord (s : String) : Bool := ["~", "null", "Null", "NULL"].contains s

/-- The truth value that a word stands for. -/
def truth? (s : String) : Option Bool :=
  if ["true", "True", "TRUE"].contains s then some true
  else if ["false", "False", "FALSE"].contains s then some false
  else none

/-! ## Integers -/

/-- The characters after a sign, if there is one. -/
def unsignedPart : List Char → List Char
  | '+' :: cs => cs
  | '-' :: cs => cs
  | cs => cs

/-- Whether text without a sign is a zero with digits after it, which is
no number. -/
def isPadded : List Char → Bool
  | '0' :: c :: cs => (c :: cs).all Text.isDigit
  | _ => false

/-- The natural number that text without a sign spells. -/
def unsigned? : List Char → Option Nat
  | '0' :: 'x' :: cs => Text.number? 16 cs
  | '0' :: 'o' :: cs => Text.number? 8 cs
  | '0' :: 'b' :: cs => Text.number? 2 cs
  | cs => if isPadded cs then none else Text.number? 10 cs

/-- The natural number that a plain scalar spells. -/
def natural? (s : String) : Option Nat :=
  match s.toList with
  | '+' :: cs => unsigned? cs
  | cs => unsigned? cs

/-- Whether text spells an integer of 128 bits, with or without a sign. -/
def isInteger (cs : List Char) : Bool :=
  match cs with
  | '+' :: cs => (unsigned? cs).any fun n => n < Nat.pow 2 128
  | '-' :: cs => (unsigned? cs).any fun n => n ≤ Nat.pow 2 127
  | cs => (unsigned? cs).any fun n => n < Nat.pow 2 128

/-! ## Fractions -/

/-- The power of ten that an exponent after its mark spells. -/
def power? : List Char → Option Int
  | '+' :: cs => (Text.number? 10 cs).map Int.ofNat
  | '-' :: cs => (Text.number? 10 cs).map fun n => -Int.ofNat n
  | cs => (Text.number? 10 cs).map Int.ofNat

/-- The digits, as one number, and the power of ten that scales them, of
text without a sign: digits with a point among them or not, and an
exponent or not. -/
def decimal? (cs : List Char) : Option (Nat × Int) := do
  let isMark (c : Char) : Bool := c = 'e' || c = 'E'
  let mantissa := cs.takeWhile fun c => !isMark c
  let power ← match cs.dropWhile fun c => !isMark c with
    | [] => some 0
    | _ :: cs => power? cs
  let whole := mantissa.takeWhile Text.isDigit
  let fraction ← match mantissa.dropWhile Text.isDigit with
    | [] => some []
    | '.' :: cs => some cs
    | _ => none
  let digits ← Text.number? 10 (whole ++ fraction)
  pure (digits, power - fraction.length)

/-- Whether some finite double is nearest to a scaled number. Beyond
`10 ^ 309` there is none, and below `10 ^ 308` there is always one. -/
def isFiniteScaled (digits : Nat) (scale : Int) : Bool :=
  let size : Int := (Nat.toDigits 10 digits).length + scale
  if digits = 0 || size ≤ 308 then true
  else if 309 < size then false
  else
    (Double.roundRatio (digits * Nat.pow 10 scale.toNat) (Nat.pow 10 (-scale).toNat)).isSome

/-- Whether text spells a number that is no integer: a fraction, an
infinity, or what is no number at all. -/
def isFraction (s : String) : Bool :=
  let cs := unsignedPart s.toList
  [".nan", ".NaN", ".NAN"].contains s ||
    [".inf", ".Inf", ".INF"].contains (String.ofList cs) ||
    (decimal? cs).any fun d => isFiniteScaled d.1 d.2

/-- Whether text is taken for something else when it is plain: for a word,
for a number, or for digits after a leading zero, which other readers
take for a number. -/
def isAmbiguous (s : String) : Bool :=
  s.isEmpty || isNullWord s || (truth? s).isSome || isInteger s.toList ||
    isPadded (unsignedPart s.toList) || isFraction s

end Yaml

end QuantumLowering
