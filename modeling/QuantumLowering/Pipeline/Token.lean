/-!
# Tokens of pipeline text

Pipeline text is made of words, the separators comma and semicolon, and
two kinds of brackets; blanks stand between tokens. `lex` lists every
token with the byte offset at which it starts. A character that no token
can start with becomes a lexeme of its own, and lexing goes on after it.
-/


namespace QuantumLowering

namespace Pipeline

/-- A token of pipeline text. -/
inductive Token where
  /-- A pass name or a parameter. -/
  | word (text : String)
  | comma
  | semicolon
  | leftParen
  | rightParen
  | leftAngle
  | rightAngle
deriving DecidableEq

/-- How a token is named in messages. -/
def Token.text : Token → String
  | .word w => "'" ++ w ++ "'"
  | .comma => "','"
  | .semicolon => "';'"
  | .leftParen => "'('"
  | .rightParen => "')'"
  | .leftAngle => "'<'"
  | .rightAngle => "'>'"

/-- What stands at some place of the text: a token, or a character that
belongs to none. -/
structure Lexeme where
  /-- The byte offset of its first character. -/
  position : Nat
  /-- The token or the stray character. -/
  content : Except Char Token

/-- The blanks between tokens. -/
def isBlank (c : Char) : Bool := c = ' ' || c = '\t' || c = '\r' || c = '\n'

/-- The characters a word may start with. -/
def isWordStart (c : Char) : Bool :=
  ('a' ≤ c && c ≤ 'z') || ('A' ≤ c && c ≤ 'Z') || ('0' ≤ c && c ≤ '9') || c = '_'

/-- The characters a word may go on with. -/
def isWordPart (c : Char) : Bool := isWordStart c || c = '-' || c = '.' || c = '='

/-- The token that a single character makes. -/
def mark? : Char → Option Token
  | ',' => some .comma
  | ';' => some .semicolon
  | '(' => some .leftParen
  | ')' => some .rightParen
  | '<' => some .leftAngle
  | '>' => some .rightAngle
  | _ => none

/-- The lexeme of a character outside words: none for a blank. -/
def lexMark (position : Nat) (c : Char) : List Lexeme :=
  if isBlank c then []
  else match mark? c with
    | some t => [⟨position, .ok t⟩]
    | none => [⟨position, .error c⟩]

/-- A word being read: where it starts and its characters, the latest
first. -/
structure OpenWord where
  /-- The byte offset of its first character. -/
  start : Nat
  /-- Its characters, the latest first. -/
  chars : List Char

/-- The lexeme of a word that ends. -/
def OpenWord.close (w : OpenWord) : Lexeme :=
  ⟨w.start, .ok (.word (String.ofList w.chars.reverse))⟩

/-- Lexes the rest of a text from a byte offset, with the word that is
being read, if any. A word is as long as it can be. -/
def lexFrom (position : Nat) (word : Option OpenWord) : List Char → List Lexeme
  | [] => (word.map OpenWord.close).toList
  | c :: cs =>
    let next := position + c.utf8Size
    match word with
    | some w =>
      if isWordPart c then lexFrom next (some { w with chars := c :: w.chars }) cs
      else w.close :: (lexMark position c ++ lexFrom next none cs)
    | none =>
      if isWordStart c then lexFrom next (some ⟨position, [c]⟩) cs
      else lexMark position c ++ lexFrom next none cs

/-- The lexemes of a text. -/
def lex (text : String) : List Lexeme := lexFrom 0 none text.toList

end Pipeline

end QuantumLowering
