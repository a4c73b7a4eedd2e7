/-!
# The characters of a YAML text

Where a token stands decides what it means, so every character is kept
with its place. A line break is one character: the pairs and the single
controls that end a line all become a newline, while the line and the
paragraph separator stay what they are.
-/


namespace QuantumLowering

namespace Yaml

/-! ## Classes of characters -/

/-- The blanks inside a line. -/
def isBlank (c : Char) : Bool := c = ' ' || c = '\t'

/-- The characters that end a line. -/
def isBreak (c : Char) : Bool :=
  c = '\n' || c = '\r' || c = '\u0085' || c = '\u2028' || c = '\u2029'

/-- The characters that may stand in a text at all: no control but the
tab and those that end a line, and no code point that is none. -/
def isReadable (c : Char) : Bool :=
  c = '\t' || isBreak c || (' ' ≤ c && c ≤ '~') || ('\u00a0' ≤ c && c ≤ '\ufffd') || '\uffff' < c

/-- The characters of names of anchors and of tag handles. -/
def isWordChar (c : Char) : Bool := c.isAlphanum || c = '_' || c = '-'

/-- The characters that structure flow collections. -/
def isFlowMark (c : Char) : Bool := [',', '[', ']', '\x7b', '\x7d'].contains c

/-- The characters that never start a plain scalar in a block. -/
def isIndicator (c : Char) : Bool :=
  isFlowMark c || ['#', '&', '*', '!', '|', '>', '\'', '"', '%', '@', '\x60'].contains c

/-! ## Characters in their places -/

/-- A character and its place: the line, the column in it and the number
of octets before it, when the text is encoded in UTF-8. -/
structure Cell where
  char : Char
  line : Nat
  column : Nat
  offset : Nat

/-- The cells of some characters, the first of which stands in the given
place. -/
def locate (line column offset : Nat) : List Char → List Cell
  | [] => []
  | '\r' :: '\n' :: cs => ⟨'\n', line, column, offset⟩ :: locate (line + 1) 0 (offset + 2) cs
  | c :: cs =>
    if isBreak c then
      let ending := if c = '\r' || c = '\u0085' then '\n' else c
      ⟨ending, line, column, offset⟩ :: locate (line + 1) 0 (offset + c.utf8Size) cs
    else ⟨c, line, column, offset⟩ :: locate line (column + 1) (offset + c.utf8Size) cs

/-- The cells of a text, if all its characters may stand in one. -/
def cells? (text : String) : Option (List Cell) :=
  let chars := text.toList
  if chars.all isReadable then some (locate 0 0 0 chars) else none

/-- Whether the line or a word ends here: with a blank, a line break or
the text. -/
def atGap : List Cell → Bool
  | [] => true
  | c :: _ => isBlank c.char || isBreak c.char

/-- Whether the line ends here. -/
def atLineEnd : List Cell → Bool
  | [] => true
  | c :: _ => isBreak c.char

/-- Whether a mark that separates documents stands here: three dashes or
three dots at the start of a line, and nothing that continues them. -/
def atDocumentMark (dot : Char) (cs : List Cell) : Bool :=
  match cs with
  | a :: b :: c :: rest =>
    a.column = 0 && a.char = dot && b.char = dot && c.char = dot && atGap rest
  | _ => false

/-- Whether either mark that separates documents stands here. -/
def atAnyDocumentMark (cs : List Cell) : Bool := atDocumentMark '-' cs || atDocumentMark '.' cs

/-- Drops the blanks in front. -/
def dropBlanks (cs : List Cell) : List Cell := cs.dropWhile fun c => isBlank c.char

/-- Drops the rest of the line but not its break. -/
def dropToBreak (cs : List Cell) : List Cell := cs.dropWhile fun c => !isBreak c.char

/-- The text after the line if nothing but a comment is left on it. -/
def finishLine? (cs : List Cell) : Option (List Cell) :=
  let cs := dropBlanks cs
  let cs := if cs.head?.any fun c => c.char = '#' then dropToBreak cs else cs
  if atLineEnd cs then some (cs.drop 1) else none

end Yaml

end QuantumLowering
