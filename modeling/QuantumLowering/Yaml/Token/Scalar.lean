import QuantumLowering.Text.Digits
import QuantumLowering.Yaml.Folding
/-!
# Scalars of YAML text

A scalar is plain, in single quotes, in double quotes, or a block of
lines below its header. The functions here take the cells after the
opening mark and return the text of the scalar with the cells after it.
-/


namespace QuantumLowering

namespace Yaml

/-! ## Quoted scalars -/

/-- The text of some characters, the latest of which comes first. -/
def textOf (chars : List Char) : String := String.ofList chars.reverse

/-- Reads up to the closing single quote; two of them stand for one. -/
def readSingle (gap : Gap) (text : List Char) : List Cell → Option (String × List Cell)
  | [] => none
  | c :: cs =>
    if isBlank c.char then readSingle (gap.blank c.char) text cs
    else if isBreak c.char then readSingle (gap.lineBreak c.char) text cs
    else if atAnyDocumentMark (c :: cs) then none
    else if c.char = '\'' then
      match cs with
      | [] => some (textOf (gap.onto text), [])
      | d :: rest =>
        if d.char = '\'' then readSingle .empty ('\'' :: gap.onto text) rest
        else some (textOf (gap.onto text), d :: rest)
    else readSingle .empty (c.char :: gap.onto text) cs

/-- The character of a one-letter escape. -/
def escape? : Char → Option Char
  | '0' => some '\x00'
  | 'a' => some '\x07'
  | 'b' => some '\x08'
  | 't' => some '\t'
  | '\t' => some '\t'
  | 'n' => some '\n'
  | 'v' => some '\x0b'
  | 'f' => some '\x0c'
  | 'r' => some '\r'
  | 'e' => some '\x1b'
  | ' ' => some ' '
  | '"' => some '"'
  | '/' => some '/'
  | '\\' => some '\\'
  | 'N' => some '\u0085'
  | '_' => some '\u00a0'
  | 'L' => some '\u2028'
  | 'P' => some '\u2029'
  | _ => none

/-- The character that hexadecimal digits name. -/
def codePoint? (digits : List Cell) : Option Char :=
  (Text.number? 16 (digits.map Cell.char)).bind fun n =>
    if h : n.isValidChar then some (Char.ofNatAux n h) else none

/-- Reads up to the closing double quote. An escaped line break goes away
with the blanks after it. -/
def readDouble (gap : Gap) (text : List Char) : List Cell → Option (String × List Cell)
  | [] => none
  | ⟨'\\', _, _, _⟩ :: ⟨'x', _, _, _⟩ :: a :: b :: cs => do
    readDouble .empty ((← codePoint? [a, b]) :: gap.onto text) cs
  | ⟨'\\', _, _, _⟩ :: ⟨'u', _, _, _⟩ :: a :: b :: c :: d :: cs => do
    readDouble .empty ((← codePoint? [a, b, c, d]) :: gap.onto text) cs
  | ⟨'\\', _, _, _⟩ :: ⟨'U', _, _, _⟩ :: a :: b :: c :: d :: e :: f :: g :: h :: cs => do
    readDouble .empty ((← codePoint? [a, b, c, d, e, f, g, h]) :: gap.onto text) cs
  | ⟨'\\', _, _, _⟩ :: c :: cs =>
    if isBreak c.char then readDouble (.breaks none []) (gap.onto text) cs
    else do readDouble .empty ((← escape? c.char) :: gap.onto text) cs
  | c :: cs =>
    if isBlank c.char then readDouble (gap.blank c.char) text cs
    else if isBreak c.char then readDouble (gap.lineBreak c.char) text cs
    else if atAnyDocumentMark (c :: cs) then none
    else if c.char = '"' then some (textOf (gap.onto text), cs)
    else readDouble .empty (c.char :: gap.onto text) cs

/-! ## Plain scalars -/

/-- Whether a plain scalar can start here. A dash can start one, and
outside flow collections a question mark and a colon, if something
follows it. -/
def startsPlain (inFlow : Bool) : List Cell → Bool
  | [] => false
  | c :: cs =>
    if c.char = '-' then !atGap cs
    else if c.char = '?' || c.char = ':' then !inFlow && !atGap cs
    else !(isBlank c.char || isBreak c.char || isIndicator c.char)

/-- A plain scalar that has been read. -/
structure PlainScalar where
  text : String
  /-- Whether the white space after it holds a line break. -/
  broken : Bool
  rest : List Cell

/-- Reads a plain scalar, of which further lines stand in the given column
or to the right of it. It ends before a comment, before a colon and a gap
and, in a flow collection, before what structures it. -/
def readPlain (inFlow : Bool) (column : Nat) (gap : Gap) (text : List Char) :
    List Cell → Option PlainScalar
  | [] => some ⟨textOf text, gap.isBroken, []⟩
  | c :: cs =>
    if c.char = '\t' && gap.isBroken && c.column < column then none
    else if isBlank c.char then readPlain inFlow column (gap.blank c.char) text cs
    else if isBreak c.char then readPlain inFlow column (gap.lineBreak c.char) text cs
    else if !gap.isEmpty &&
        ((!inFlow && c.column < column) || atAnyDocumentMark (c :: cs) || c.char = '#') then
      some ⟨textOf text, gap.isBroken, c :: cs⟩
    else if inFlow && c.char = ':' && cs.head?.any (fun d => d.char = '?' || isFlowMark d.char) then
      none
    else if (c.char = ':' && atGap cs) || (inFlow && isFlowMark c.char) then
      some ⟨textOf text, gap.isBroken, c :: cs⟩
    else readPlain inFlow column .empty (c.char :: gap.onto text) cs

/-! ## Blocks of lines -/

/-- What becomes of the line breaks at the end of a block. -/
inductive Chomping where
  /-- All go away. -/
  | strip
  /-- One stays. -/
  | clip
  /-- All stay. -/
  | keep
deriving DecidableEq

/-- The chomping that a character of the header asks for. -/
def chomping? (c : Cell) : Option Chomping :=
  if c.char = '+' then some .keep else if c.char = '-' then some .strip else none

/-- The indentation that a character of the header asks for. -/
def indentation? (c : Cell) : Option Nat :=
  if Text.isDigit c.char && c.char != '0' then some (c.char.toNat - '0'.toNat) else none

/-- Reads the header of a block: its chomping and its indentation, if
they are given, in either order. -/
def readHeader (cs : List Cell) : Chomping × Option Nat × List Cell :=
  match cs with
  | [] => (.clip, none, [])
  | a :: rest =>
    match chomping? a, indentation? a with
    | some chomping, _ =>
      match rest.head?.bind indentation? with
      | some n => (chomping, some n, rest.drop 1)
      | none => (chomping, none, rest)
    | none, some n =>
      match rest.head?.bind chomping? with
      | some chomping => (chomping, some n, rest.drop 1)
      | none => (.clip, some n, rest)
    | none, none => (.clip, none, a :: rest)

/-- Reads line breaks and indentation up to the next line with content.
Returns the breaks, the latest first, and the widest indentation. With no
column given all spaces count as indentation, which no tab may follow. -/
def readEmptyLines (column : Option Nat) (breaks : List Char) (widest : Nat) :
    List Cell → Option (List Char × Nat × List Cell)
  | [] => some (breaks, widest, [])
  | c :: cs =>
    let indenting := column.all fun n => c.column < n
    if indenting && c.char = ' ' then readEmptyLines column breaks widest cs
    else if indenting && c.char = '\t' then none
    else if isBreak c.char then
      readEmptyLines column (c.char :: breaks) (max widest c.column) cs
    else some (breaks, max widest c.column, c :: cs)

/-- The part of a block that has been read. -/
structure BlockText where
  /-- The characters, the latest first, without the last line break. -/
  chars : List Char := []
  /-- The line break after them. -/
  ending : Option Char := none
  /-- The further breaks, the latest first. -/
  later : List Char
  /-- Whether the last line starts with a blank. -/
  indented : Bool := false

namespace BlockText

/-- The text with what stands between its lines, before a line that starts
with a blank or not. Where lines are folded a break between two lines
without one becomes a space. -/
def join (b : BlockText) (isFolded indented : Bool) : List Char :=
  let chars :=
    if isFolded && b.ending = some '\n' && !b.indented && !indented then
      if b.later.isEmpty then ' ' :: b.chars else b.chars
    else b.ending.toList ++ b.chars
  b.later ++ chars

/-- The text, chomped. -/
def text (b : BlockText) : Chomping → String
  | .strip => textOf b.chars
  | .clip => textOf (b.ending.toList ++ b.chars)
  | .keep => textOf (b.later ++ (b.ending.toList ++ b.chars))

end BlockText

/-- Reads the lines of a block, which start in a column. -/
def readLines (isFolded : Bool) (column : Nat) :
    Nat → BlockText → List Cell → Option (BlockText × List Cell)
  | 0, _, _ => none
  | _, b, [] => some (b, [])
  | fuel + 1, b, c :: cs =>
    if c.column != column then some (b, c :: cs)
    else do
      let indented := isBlank c.char
      let line := (c :: cs).takeWhile fun d => !isBreak d.char
      let rest := dropToBreak (c :: cs)
      let ending := rest.head?.map Cell.char
      let (later, _, rest) ← readEmptyLines (some column) [] 0 (rest.drop 1)
      let chars := (line.map Cell.char).reverse ++ b.join isFolded indented
      readLines isFolded column fuel ⟨chars, ending, later, indented⟩ rest

/-- Reads a block after its mark. Its lines stand to the right of the
column of the enclosing collection, if there is one. -/
def readBlock (isFolded : Bool) (enclosing : Option Nat) (cs : List Cell) :
    Option (String × List Cell) := do
  let (chomping, indentation, rest) := readHeader cs
  let below ← finishLine? rest
  let given := indentation.map fun n => enclosing.getD 0 + n
  let (later, widest, rest) ← readEmptyLines given [] 0 below
  let least := enclosing.elim 1 fun n => n + 1
  let column := given.getD (max widest least)
  let (b, rest) ← readLines isFolded column (cs.length + 1) ⟨[], none, later, false⟩ rest
  pure (b.text chomping, rest)

end Yaml

end QuantumLowering
