/-!
# Digits

Numbers are spelled with digits of a base up to sixteen. A count is spelled
with decimal digits and may have a plus sign in front.
-/


namespace QuantumLowering

namespace Text

/-- Whether a character is a decimal digit. -/
def isDigit (c : Char) : Bool := '0' ≤ c && c ≤ '9'

/-- The value of a digit of a base. -/
def digitValue? (base : Nat) (c : Char) : Option Nat :=
  let value :=
    if '0' ≤ c ∧ c ≤ '9' then c.toNat - '0'.toNat
    else if 'a' ≤ c ∧ c ≤ 'f' then c.toNat - 'a'.toNat + 10
    else if 'A' ≤ c ∧ c ≤ 'F' then c.toNat - 'A'.toNat + 10
    else base
  if value < base then some value else none

/-- The number that digits of a base spell; there is at least one. -/
def number? (base : Nat) : List Char → Option Nat
  | [] => none
  | cs => (cs.mapM (digitValue? base)).map fun ds => ds.foldl (fun n d => n * base + d) 0

/-- The number below a limit that a count spells. -/
def count? (limit : Nat) (cs : List Char) : Option Nat :=
  let digits := match cs with
    | '+' :: rest => rest
    | _ => cs
  (number? 10 digits).filter fun n => n < limit

end Text

end QuantumLowering
