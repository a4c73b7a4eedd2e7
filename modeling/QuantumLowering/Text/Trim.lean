/-!
# Blanks and letter case

`trim` drops the characters with the property White_Space from both ends.
`lower` is the lower case of text as far as comparisons with words of
plain Latin letters can see it.
-/


namespace QuantumLowering

namespace Text

/-- The characters with the property White_Space. -/
def isBlank (c : Char) : Bool :=
  let n := c.toNat
  (0x9 ≤ n && n ≤ 0xd) || n = 0x20 || n = 0x85 || n = 0xa0 || n = 0x1680 ||
    (0x2000 ≤ n && n ≤ 0x200a) || n = 0x2028 || n = 0x2029 || n = 0x202f || n = 0x205f ||
    n = 0x3000

/-- Drops the blanks at both ends. -/
def trim (cs : List Char) : List Char :=
  ((cs.dropWhile isBlank).reverse.dropWhile isBlank).reverse

/-- The lower case of a character. Beyond the Latin capitals only the
Kelvin sign and the dotted capital I have a plain Latin letter in their
lower case; the other characters stay as they are. -/
def lowerChar (c : Char) : List Char :=
  if 'A' ≤ c ∧ c ≤ 'Z' then [Char.ofNat (c.toNat + 32)]
  else if c = '\u212a' then ['k']
  else if c = '\u0130' then ['i', '\u0307']
  else [c]

/-- The lower case of text. -/
def lower (cs : List Char) : List Char := cs.flatMap lowerChar

end Text

end QuantumLowering
