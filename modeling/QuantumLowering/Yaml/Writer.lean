import QuantumLowering.Yaml.Number
import QuantumLowering.Yaml.Token.Basic
/-!
# Writing YAML

Collections are written in block style, two columns further in for each
mapping; the items of a sequence stand in the column of the member they
belong to. Text is written without quotes if it then reads as the same
text, text of several lines as a block of them. What the chosen style
cannot hold goes into single quotes, and into double quotes what those
cannot hold.
-/


namespace QuantumLowering

namespace Yaml

/-- A document to be written. -/
inductive Outline where
  /-- A word that is written as it is. -/
  | word (s : String)
  | text (s : String)
  | items (items : List Outline)
  | members (members : List (String × Outline))

/-! ## The style of a text -/

/-- Whether a character can stand in a text as it is: all but controls,
the mark of the byte order, and code points that are no character. The
newline counts as one that can. -/
def isPrintable (c : Char) : Bool :=
  c = '\n' || (' ' ≤ c && c ≤ '~') ||
    ('\u00a0' ≤ c && c ≤ '\ufffd' && c != '\ufeff') || '\uffff' < c

/-- Whether a character or the end of the text separates words. -/
def isSeparator (c : Option Char) : Bool := c.all fun c => isBlank c || isBreak c || c = '\x00'

/-- Whether a plain scalar outside flow collections can start with these
characters. -/
def canStart : List Char → Bool
  | [] => true
  | c :: cs =>
    !isIndicator c && !((c = '?' || c = ':' || c = '-') && isSeparator cs.head?) &&
      !(['-', '-', '-'].isPrefixOf (c :: cs) || ['.', '.', '.'].isPrefixOf (c :: cs))

/-- Whether no character of a plain scalar ends it: no colon before a gap
and no number sign after one. -/
def canContinue (before : Char) : List Char → Bool
  | [] => true
  | c :: cs =>
    !(c = ':' && isSeparator cs.head?) && !(c = '#' && isSeparator (some before)) &&
      canContinue c cs

/-- Whether two characters with these properties follow each other. -/
def hasPair (p q : Char → Bool) : List Char → Bool
  | c :: d :: cs => (p c && q d) || hasPair p q (d :: cs)
  | _ => false

/-- Whether single quotes can hold the characters: all stand for
themselves, and no space stands beside a line break. -/
def canQuote (cs : List Char) : Bool :=
  cs.all isPrintable && !hasPair (· = ' ') isBreak cs && !hasPair isBreak (· = ' ') cs

/-- Whether a block of lines can hold the characters: all stand for
themselves, and no line but the last ends with a space; nor does the
text. -/
def canBlock (cs : List Char) : Bool :=
  cs.all isPrintable && !hasPair (· = ' ') isBreak cs && cs.getLast? != some ' '

/-- Whether a plain scalar can hold the characters. -/
def canBePlain (cs : List Char) : Bool :=
  canStart cs && canContinue 'x' (cs.drop 1) && cs.all isPrintable && !cs.any isBreak &&
    cs.head? != some ' ' && cs.getLast? != some ' '

/-- The style in which a text is written. -/
def styleOf (s : String) : Style :=
  let cs := s.toList
  if cs.contains '\n' then if canBlock cs then .literal else .double
  else if !isAmbiguous s && canBePlain cs then .plain
  else if canQuote cs then .single
  else .double

/-! ## Scalars -/

/-- The letter of an escape, for the characters that have one. -/
def escapeLetter? : Char → Option Char
  | '\x00' => some '0'
  | '\x07' => some 'a'
  | '\x08' => some 'b'
  | '\t' => some 't'
  | '\n' => some 'n'
  | '\x0b' => some 'v'
  | '\x0c' => some 'f'
  | '\r' => some 'r'
  | '\x1b' => some 'e'
  | '"' => some '"'
  | '\\' => some '\\'
  | '\u0085' => some 'N'
  | '\u2028' => some 'L'
  | '\u2029' => some 'P'
  | _ => none

/-- A number in at least so many hexadecimal digits. -/
def hexDigits (width n : Nat) : List Char :=
  let digits := (Nat.toDigits 16 n).map Char.toUpper
  List.replicate (width - digits.length) '0' ++ digits

/-- A character in double quotes. -/
def escapeChar (c : Char) : List Char :=
  match escapeLetter? c with
  | some letter => ['\\', letter]
  | none =>
    if isPrintable c then [c]
    else if c.toNat < 0x100 then '\\' :: 'x' :: hexDigits 2 c.toNat
    else if c.toNat < 0x10000 then '\\' :: 'u' :: hexDigits 4 c.toNat
    else '\\' :: 'U' :: hexDigits 8 c.toNat

/-- Blanks up to a column. -/
def blanksTo (column : Nat) : List Char := List.replicate column ' '

/-- The characters in single quotes, with what starts a line in a column:
a quote is doubled, and so is the first newline of several. -/
def singleChars (column : Nat) (broken : Bool) : List Char → List Char
  | [] => if broken then blanksTo column else []
  | c :: cs =>
    if isBreak c then
      let ending := if c = '\n' && !broken then ['\n', '\n'] else [c]
      ending ++ singleChars column true cs
    else
      (if broken then blanksTo column else []) ++ (if c = '\'' then [c, c] else [c]) ++
        singleChars column false cs

/-- The characters of a block of lines, which start in a column. -/
def blockChars (column : Nat) (broken : Bool) : List Char → List Char
  | [] => if broken then [] else ['\n']
  | c :: cs =>
    if isBreak c then c :: blockChars column true cs
    else (if broken then blanksTo column else []) ++ c :: blockChars column false cs

/-- The header of a block: its indentation if the first line does not show
it, and what becomes of the line breaks at its end. -/
def blockHeader (cs : List Char) : List Char :=
  let indentation := if cs.head?.any fun c => c = ' ' || isBreak c then ['2'] else []
  let chomping := match cs.reverse with
    | [] => ['-']
    | [c] => if isBreak c then ['+'] else ['-']
    | c :: d :: _ => if !isBreak c then ['-'] else if isBreak d then ['+'] else []
  '|' :: indentation ++ chomping

/-- The lines of a text whose further lines start in a column. -/
def textChars (column : Nat) (s : String) : List Char :=
  let cs := s.toList
  match styleOf s with
  | .plain => cs ++ ['\n']
  | .single => '\'' :: singleChars column false cs ++ ['\'', '\n']
  | .double => '"' :: cs.flatMap escapeChar ++ ['"', '\n']
  | .literal | .folded => blockHeader cs ++ '\n' :: blockChars column true cs

/-! ## Collections -/

/-- The blanks in front of a line in a column. -/
def indentation (column : Nat) : String := String.ofList (blanksTo column)

mutual

/-- What follows the colon of a member or the dash of an item in a
column. -/
def textAfter (column : Nat) : Outline → String
  | .word s => " " ++ s ++ "\n"
  | .text s => " " ++ String.ofList (textChars (column + 2) s)
  | .items [] => " []\n"
  | .items (item :: items) => "\n" ++ itemLines column (item :: items)
  | .members [] => " \x7b\x7d\n"
  | .members (m :: members) => "\n" ++ memberLines (column + 2) (m :: members)

/-- The lines of the items of a sequence in a column. -/
def itemLines (column : Nat) : List Outline → String
  | [] => ""
  | item :: items =>
    indentation column ++ "-" ++ textAfter column item ++ itemLines column items

/-- The lines of the members of a mapping in a column. -/
def memberLines (column : Nat) : List (String × Outline) → String
  | [] => ""
  | (name, value) :: members =>
    indentation column ++ name ++ ":" ++ textAfter column value ++ memberLines column members

end

/-- The text of a mapping with these members. -/
def render (members : List (String × Outline)) : String := memberLines 0 members

end Yaml

end QuantumLowering
