import QuantumLowering.Json.Basic
import QuantumLowering.Text.Digits
/-!
# Reading JSON text

`Json.read?` accepts one JSON value with blanks around it and nothing
else. Nested values are read with a fuel that the length of the text
bounds.
-/


namespace QuantumLowering

namespace Json

/-- The characters that may stand between tokens. -/
def isSpace (c : Char) : Bool := c = ' ' || c = '\n' || c = '\t' || c = '\r'

/-- Drops the blanks in front. -/
def skip (cs : List Char) : List Char := cs.dropWhile isSpace

/-! ## Strings -/

/-- The unit that four hexadecimal digits spell. -/
def unit? (a b c d : Char) : Option Nat := Text.number? 16 [a, b, c, d]

/-- The character of a one-letter escape. -/
def escape? : Char → Option Char
  | '"' => some '"'
  | '\\' => some '\\'
  | '/' => some '/'
  | 'b' => some '\x08'
  | 'f' => some '\x0c'
  | 'n' => some '\n'
  | 'r' => some '\r'
  | 't' => some '\t'
  | _ => none

/-- What has been read of a string. -/
structure Reading where
  /-- The characters so far, the latest first. -/
  chars : List Char := []
  /-- A high surrogate that waits for its low one. -/
  high : Option Nat := none
  /-- Whether every surrogate so far had its partner. -/
  sound : Bool := true

/-- Takes up a character; a waiting surrogate stays alone. -/
def Reading.push (r : Reading) (c : Char) : Reading :=
  ⟨c :: r.chars, none, r.sound && r.high.isNone⟩

/-- Takes up an escaped unit. -/
def Reading.pushUnit (r : Reading) (u : Nat) : Reading :=
  if 0xD800 ≤ u ∧ u < 0xDC00 then ⟨r.chars, some u, r.sound && r.high.isNone⟩
  else if 0xDC00 ≤ u ∧ u < 0xE000 then
    match r.high with
    | some h =>
      ⟨Char.ofNat ((h - 0xD800) * 0x400 + (u - 0xDC00) + 0x10000) :: r.chars, none, r.sound⟩
    | none => { r with sound := false }
  else r.push (Char.ofNat u)

/-- Reads a string up to its closing quote. -/
def readString (r : Reading) : List Char → Option (Reading × List Char)
  | [] => none
  | '"' :: rest => some ({ r with sound := r.sound && r.high.isNone }, rest)
  | '\\' :: 'u' :: a :: b :: c :: d :: rest => do
    let u ← unit? a b c d
    readString (r.pushUnit u) rest
  | '\\' :: c :: rest => do
    let c ← escape? c
    readString (r.push c) rest
  | c :: rest => if c.toNat < 32 ∨ c = '\\' then none else readString (r.push c) rest

/-- The string that has been read, if it has a text. -/
def Reading.text? (r : Reading) : Option String :=
  if r.sound then some (String.ofList r.chars.reverse) else none

/-! ## Numbers -/

/-- The digits in front and what follows them. -/
def takeDigits (cs : List Char) : List Nat × List Char :=
  ((cs.takeWhile Text.isDigit).map fun c => c.toNat - '0'.toNat, cs.dropWhile Text.isDigit)

/-- Reads the digits after a point, at least one. -/
def readFraction : List Char → Option (List Nat × List Char)
  | '.' :: rest =>
    match takeDigits rest with
    | ([], _) => none
    | found => some found
  | cs => some ([], cs)

/-- Reads an exponent after its mark: a sign and at least one digit. -/
def readPower (cs : List Char) : Option (Int × List Char) :=
  let (negative, cs) := match cs with
    | '+' :: rest => (false, rest)
    | '-' :: rest => (true, rest)
    | _ => (false, cs)
  match takeDigits cs with
  | ([], _) => none
  | (ds, rest) =>
    let n : Int := Decimal.ofDigits ds
    some (if negative then -n else n, rest)

/-- Reads an exponent if there is one. -/
def readExponent : List Char → Option (Option Int × List Char)
  | 'e' :: rest => do let (n, rest) ← readPower rest; pure (some n, rest)
  | 'E' :: rest => do let (n, rest) ← readPower rest; pure (some n, rest)
  | cs => some (none, cs)

/-- Reads a number without its sign. No digit may follow a leading zero. -/
def readNumber (negative : Bool) (cs : List Char) : Option (NumberLiteral × List Char) := do
  let (ds, rest) := takeDigits cs
  if ds.isEmpty || (ds.head? = some 0 && ds.length != 1) then none
  else
    let (fraction, rest) ← readFraction rest
    let (exponent, rest) ← readExponent rest
    pure (⟨negative, Decimal.ofDigits ds, fraction, exponent⟩, rest)

/-! ## Values -/

/-- Reads a word after its first letter. -/
def readWord (word : List Char) (value : Json) (cs : List Char) : Option (Json × List Char) :=
  if word.isPrefixOf cs then some (value, cs.drop word.length) else none

/-- The object of some members. A name without a text leaves the whole
object without one. -/
def ofMembers (members : List (Option String × Json)) : Json :=
  match members.mapM fun m => m.1.map fun name => (name, m.2) with
  | some members => .object members
  | none => .textless

mutual

/-- Reads a value in front. -/
def readValue : Nat → List Char → Option (Json × List Char)
  | 0, _ => none
  | fuel + 1, cs =>
    match skip cs with
    | 'n' :: rest => readWord ['u', 'l', 'l'] .null rest
    | 't' :: rest => readWord ['r', 'u', 'e'] (.bool true) rest
    | 'f' :: rest => readWord ['a', 'l', 's', 'e'] (.bool false) rest
    | '"' :: rest => do
      let (r, rest) ← readString {} rest
      match r.text? with
      | some s => pure (.string s, rest)
      | none => pure (.textless, rest)
    | '[' :: rest =>
      match skip rest with
      | ']' :: rest => some (.array [], rest)
      | rest => do
        let (items, rest) ← readItems fuel rest
        pure (.array items, rest)
    | '\x7b' :: rest =>
      match skip rest with
      | '\x7d' :: rest => some (.object [], rest)
      | rest => do
        let (members, rest) ← readMembers fuel rest
        pure (ofMembers members, rest)
    | '-' :: rest => do
      let (n, rest) ← readNumber true rest
      pure (.number n, rest)
    | rest => do
      let (n, rest) ← readNumber false rest
      pure (.number n, rest)

/-- Reads the items of an array up to its closing bracket. -/
def readItems : Nat → List Char → Option (List Json × List Char)
  | 0, _ => none
  | fuel + 1, cs => do
    let (item, rest) ← readValue fuel cs
    match skip rest with
    | ',' :: rest =>
      let (items, rest) ← readItems fuel rest
      pure (item :: items, rest)
    | ']' :: rest => pure ([item], rest)
    | _ => none

/-- Reads the members of an object up to its closing brace. A name may lack
a text. -/
def readMembers : Nat → List Char → Option (List (Option String × Json) × List Char)
  | 0, _ => none
  | fuel + 1, cs =>
    match skip cs with
    | '"' :: rest => do
      let (r, rest) ← readString {} rest
      match skip rest with
      | ':' :: rest =>
        let (value, rest) ← readValue fuel rest
        match skip rest with
        | ',' :: rest =>
          let (members, rest) ← readMembers fuel rest
          pure ((r.text?, value) :: members, rest)
        | '\x7d' :: rest => pure ([(r.text?, value)], rest)
        | _ => none
      | _ => none
    | _ => none

end

/-- Reads JSON text: one value, with blanks around it. -/
def read? (text : String) : Option Json := do
  let cs := text.toList
  let (value, rest) ← readValue (cs.length + 1) cs
  if (skip rest).isEmpty then pure value else none

end Json

end QuantumLowering
