import QuantumLowering.Text.Digits
import QuantumLowering.Yaml.Token.Basic
/-!
# Anchors, tags and directives of YAML text

An anchor names a node, a tag names its kind, and a directive in front of
a document says how to read it. The functions here take the cells after
the character that announces each of them.
-/


namespace QuantumLowering

namespace Yaml

/-- Splits off the characters in front of which a property holds. -/
def spanChars (p : Char → Bool) (cs : List Cell) : List Char × List Cell :=
  ((cs.takeWhile fun c => p c.char).map Cell.char, cs.dropWhile fun c => p c.char)

/-- Reads the name of an anchor. -/
def readName (cs : List Cell) : Option (String × List Cell) :=
  let (name, rest) := spanChars isWordChar cs
  let ends := atGap rest ||
    rest.head?.any fun c => ['?', ':', ',', ']', '\x7d', '%', '@', '\x60'].contains c.char
  if !name.isEmpty && ends then some (String.ofList name, rest) else none

/-! ## Tags -/

/-- The characters that may stand in a tag, besides the flow marks that a
verbatim tag may hold. -/
def isTagChar (verbatim : Bool) (c : Char) : Bool :=
  isWordChar c ||
    [';', '/', '?', ':', '@', '&', '=', '+', '$', '.', '!', '~', '*', '\'', '(', ')'].contains c ||
    (verbatim && [',', '[', ']'].contains c)

/-- The bits that an octet adds to those before it. -/
def continuation? (n : Nat) : Option Nat := if 0x80 ≤ n && n < 0xc0 then some (n - 0x80) else none

/-- How many octets follow the first one of an escaped character, and the
bits that it holds. -/
def leadingOctet? (n : Nat) : Option (Nat × Nat) :=
  if n < 0x80 then some (0, n)
  else if 0xc0 ≤ n && n < 0xe0 then some (1, n - 0xc0)
  else if 0xe0 ≤ n && n < 0xf0 then some (2, n - 0xe0)
  else if 0xf0 ≤ n && n < 0xf8 then some (3, n - 0xf0)
  else none

/-- An escaped character that has been begun. -/
structure Escaped where
  /-- How many octets it has. -/
  size : Nat := 0
  /-- How many of them are missing. -/
  missing : Nat := 0
  /-- The bits so far. -/
  bits : Nat := 0

namespace Escaped

/-- Takes up an octet. -/
def octet? (e : Escaped) (n : Nat) : Option Escaped :=
  if e.missing = 0 then (leadingOctet? n).map fun (missing, bits) => ⟨missing + 1, missing, bits⟩
  else (continuation? n).map fun low => ⟨e.size, e.missing - 1, e.bits * 64 + low⟩

/-- The character that the octets encode. There is none unless they are as
few as they can be. -/
def char? (e : Escaped) : Option Char :=
  if h : e.bits.isValidChar then
    let c := Char.ofNatAux e.bits h
    if c.utf8Size = e.size then some c else none
  else none

end Escaped

/-- The characters of a tag. An escaped one may be none. -/
abbrev TagChars : Type := List (Option Char)

/-- The text of the characters of a tag, which a null character ends. -/
def tagText? (chars : TagChars) : Option String :=
  ((chars.takeWhile fun c => c != some '\x00').mapM id).map String.ofList

/-- Reads the characters of a tag, of which the latest comes first in
`chars`. A percent sign and two digits are an octet of an escaped
character. -/
def readTagChars (verbatim : Bool) (escaped : Escaped) (chars : TagChars) :
    List Cell → Option (TagChars × List Cell)
  | ⟨'%', _, _, _⟩ :: a :: b :: cs => do
    let escaped ← escaped.octet? (← Text.number? 16 [a.char, b.char])
    let chars := if escaped.missing = 0 then escaped.char? :: chars else chars
    readTagChars verbatim escaped chars cs
  | ⟨'%', _, _, _⟩ :: _ => none
  | c :: cs =>
    if escaped.missing != 0 then none
    else if isTagChar verbatim c.char then readTagChars verbatim {} (some c.char :: chars) cs
    else some (chars.reverse, c :: cs)
  | [] => if escaped.missing != 0 then none else some (chars.reverse, [])

/-- Reads a tag after its exclamation mark: a verbatim one in angle
brackets, one with a handle, or one without. -/
def readTag (inFlow : Bool) (cs : List Cell) : Option (Token × List Cell) := do
  let (token, rest) ← match cs with
    | ⟨'<', _, _, _⟩ :: cs => do
      let (chars, rest) ← readTagChars true {} [] cs
      match chars, rest with
      | [], _ => none
      | chars, ⟨'>', _, _, _⟩ :: rest => pure (Token.tag "" (tagText? chars), rest)
      | _, _ => none
    | cs => do
      let (word, rest) := spanChars isWordChar cs
      match rest with
      | ⟨'!', _, _, _⟩ :: rest =>
        let (chars, rest) ← readTagChars false {} [] rest
        if chars.isEmpty then none
        else pure (.tag (String.ofList ('!' :: word ++ ['!'])) (tagText? chars), rest)
      | rest =>
        let (chars, rest) ← readTagChars false {} [] rest
        match tagText? (word.map some ++ chars) with
        | some "" => pure (.tag "" (some "!"), rest)
        | name => pure (.tag "!" name, rest)
  if atGap rest || (inFlow && rest.head?.any fun c => c.char = ',') then pure (token, rest)
  else none

/-! ## Directives -/

/-- Reads a part of a version: one to nine digits. -/
def readVersionNumber (cs : List Cell) : Option (Nat × List Cell) := do
  let (digits, rest) := spanChars Text.isDigit cs
  if 9 < digits.length then none else pure (← Text.number? 10 digits, rest)

/-- Reads a version: two numbers and a point between them. -/
def readVersion (cs : List Cell) : Option (Token × List Cell) := do
  let (major, rest) ← readVersionNumber cs
  match rest with
  | ⟨'.', _, _, _⟩ :: rest =>
    let (minor, rest) ← readVersionNumber rest
    pure (.version major minor, rest)
  | _ => none

/-- Reads a handle of tags and what it stands for. -/
def readTagHandle : List Cell → Option (Token × List Cell)
  | ⟨'!', _, _, _⟩ :: cs => do
    let (word, rest) := spanChars isWordChar cs
    let (handle, rest) ← match rest with
      | ⟨'!', _, _, _⟩ :: rest => pure ('!' :: word ++ ['!'], rest)
      | rest => if word.isEmpty then pure (['!'], rest) else none
    if !rest.head?.any fun c => isBlank c.char then none
    else do
      let (chars, rest) ← readTagChars true {} [] (dropBlanks rest)
      if chars.isEmpty || !atGap rest then none
      else pure (.tagHandle (String.ofList handle) (tagText? chars), rest)
  | _ => none

/-- Reads a directive after its percent sign, with its line. -/
def readDirective (cs : List Cell) : Option (Token × List Cell) := do
  let (name, rest) := spanChars isWordChar cs
  if !atGap rest then none
  else
    let (token, rest) ← match String.ofList name with
      | "YAML" => readVersion (dropBlanks rest)
      | "TAG" => readTagHandle (dropBlanks rest)
      | _ => none
    pure (token, ← finishLine? rest)

end Yaml

end QuantumLowering
