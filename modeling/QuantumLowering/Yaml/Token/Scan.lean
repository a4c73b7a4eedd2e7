import QuantumLowering.Yaml.Token.Property
import QuantumLowering.Yaml.Token.Scalar
/-!
# Splitting YAML text into tokens

Block collections are structured by columns. The columns of those that
are open form a stack: a token further to the left closes collections,
and one further to the right may open one. A node turns out to be the
name of a member when a colon follows, so the place where it could start
is remembered as a candidate, and the token that announces a name is put
there afterwards. A candidate has to be followed by its colon on the same
line and within 1024 octets.
-/


namespace QuantumLowering

namespace Yaml

/-- A place where the name of a member may have started. -/
structure Candidate where
  /-- Whether nothing but a name can stand there. -/
  required : Bool
  /-- How many tokens stand before it. -/
  index : Nat
  /-- The first character of it. -/
  start : Cell

namespace Candidate

/-- Whether a colon here comes too late for the candidate. -/
def isStale (k : Candidate) (here : Cell) : Bool :=
  k.start.line < here.line || k.start.offset + 1024 < here.offset

end Candidate

/-- What is known of a text up to some point. -/
structure Scan where
  /-- The tokens so far, the latest first. -/
  tokens : List Token := []
  /-- How many they are. -/
  count : Nat := 0
  /-- The columns of the open block collections, the innermost first. -/
  columns : List Nat := []
  /-- The candidate of the innermost flow collection, or outside them. -/
  candidate : Option Candidate := none
  /-- The candidates of what encloses it, the innermost first. -/
  outer : List (Option Candidate) := []
  /-- Whether the name of a member may start here. -/
  keyAllowed : Bool := true

namespace Scan

/-- Whether a flow collection is open. -/
def inFlow (s : Scan) : Bool := !s.outer.isEmpty

/-- Adds a token. -/
def push (s : Scan) (t : Token) : Scan := { s with tokens := t :: s.tokens, count := s.count + 1 }

/-- Adds a token in front of those after the first `index` ones. -/
def insert (s : Scan) (index : Nat) (t : Token) : Scan :=
  let (after, before) := s.tokens.splitAt (s.count - index)
  { s with tokens := after ++ t :: before, count := s.count + 1 }

/-! ## Candidates -/

/-- Drops the candidate here, which must not be a required one. -/
def dropCandidate? (s : Scan) : Option Scan :=
  if s.candidate.any Candidate.required then none else some { s with candidate := none }

/-- Remembers that the name of a member may start here. -/
def saveCandidate? (s : Scan) (here : Cell) : Option Scan :=
  if s.keyAllowed then do
    let s ← s.dropCandidate?
    let required := !s.inFlow && s.columns.head? = some here.column
    pure { s with candidate := some ⟨required, s.count, here⟩ }
  else some s

/-- Drops the candidate here, which must not be a required one, if a colon
comes too late for it. The candidates of what encloses a flow collection
can wait until it ends: one that is stale stays so. -/
def dropStale? (s : Scan) (here : Cell) : Option Scan :=
  if s.candidate.any fun k => k.isStale here then s.dropCandidate? else some s

/-! ## Block collections -/

/-- Closes the innermost block collections, so many of them. -/
def closeBlocks (s : Scan) (n : Nat) : Scan :=
  { s with
    tokens := List.replicate n .blockEnd ++ s.tokens
    count := s.count + n
    columns := s.columns.drop n }

/-- Closes the block collections to the right of a column. -/
def closeRightOf (s : Scan) (column : Nat) : Scan :=
  if s.inFlow then s else s.closeBlocks (s.columns.takeWhile fun c => column < c).length

/-- Closes all block collections. -/
def closeAll (s : Scan) : Scan := if s.inFlow then s else s.closeBlocks s.columns.length

/-- Opens a block collection in a column, in front of the tokens after
the first `index` ones, unless one is open there. -/
def openBlock (s : Scan) (column index : Nat) (t : Token) : Scan :=
  if !s.inFlow && s.columns.head?.all fun c => c < column then
    let s := s.insert index t
    { s with columns := column :: s.columns }
  else s

/-! ## Single tokens -/

/-- Adds the mark of a document or a directive. -/
def addMark? (s : Scan) (t : Token) : Option Scan := do
  let s ← s.closeAll.dropCandidate?
  pure ({ s with keyAllowed := false }.push t)

/-- Adds the start of a flow collection. -/
def openFlow? (s : Scan) (here : Cell) (t : Token) : Option Scan := do
  let s ← s.saveCandidate? here
  pure ({ s with candidate := none, outer := s.candidate :: s.outer, keyAllowed := true }.push t)

/-- Adds the end of a flow collection. -/
def closeFlow? (s : Scan) (t : Token) : Option Scan := do
  let s ← s.dropCandidate?
  let s := match s.outer with
    | k :: outer => { s with candidate := k, outer := outer }
    | [] => s
  pure ({ s with keyAllowed := false }.push t)

/-- Adds a comma. -/
def addComma? (s : Scan) : Option Scan := do
  let s ← s.dropCandidate?
  pure ({ s with keyAllowed := true }.push .comma)

/-- Adds the dash of an item. -/
def addItem? (s : Scan) (here : Cell) : Option Scan :=
  if !s.inFlow && !s.keyAllowed then none
  else do
    let s ← (s.openBlock here.column s.count .blockSequence).dropCandidate?
    pure ({ s with keyAllowed := true }.push .item)

/-- Adds the question mark in front of a name. -/
def addKey? (s : Scan) (here : Cell) : Option Scan :=
  if !s.inFlow && !s.keyAllowed then none
  else do
    let s ← (s.openBlock here.column s.count .blockMapping).dropCandidate?
    pure ({ s with keyAllowed := !s.inFlow }.push .key)

/-- Adds the colon in front of a value. A candidate turns out to be a
name. -/
def addValue? (s : Scan) (here : Cell) : Option Scan :=
  match s.candidate with
  | some k =>
    let s := (s.insert k.index .key).openBlock k.start.column k.index .blockMapping
    some ({ s with candidate := none, keyAllowed := false }.push .value)
  | none =>
    if !s.inFlow && !s.keyAllowed then none
    else
      let s := s.openBlock here.column s.count .blockMapping
      some ({ s with keyAllowed := !s.inFlow }.push .value)

/-- Adds a token that a name may start with. -/
def addNode? (s : Scan) (here : Cell) (read : Option (Token × List Cell)) :
    Option (Scan × List Cell) := do
  let s ← s.saveCandidate? here
  let (t, rest) ← read
  pure ({ s with keyAllowed := false }.push t, rest)

/-- Adds a plain scalar. After a line break a name may follow. -/
def addPlain? (s : Scan) (here : Cell) (cs : List Cell) : Option (Scan × List Cell) := do
  let s ← s.saveCandidate? here
  let column := s.columns.head?.elim 0 fun c => c + 1
  let scalar ← readPlain s.inFlow column .empty [] cs
  pure ({ s with keyAllowed := scalar.broken }.push (.scalar .plain scalar.text), scalar.rest)

/-- Adds a block of lines. -/
def addBlock? (s : Scan) (style : Style) (cs : List Cell) : Option (Scan × List Cell) := do
  let s ← s.dropCandidate?
  let (text, rest) ← readBlock (style = .folded) s.columns.head? cs
  pure ({ s with keyAllowed := true }.push (.scalar style text), rest)

/-- Reads the token that starts with a character, given what follows it. -/
def addToken? (s : Scan) (here : Cell) (cs : List Cell) : Option (Scan × List Cell) :=
  let quoted (style : Style) (read : Option (String × List Cell)) :=
    s.addNode? here (read.map fun r => (.scalar style r.1, r.2))
  if here.column = 0 && here.char = '%' then do
    let (t, rest) ← readDirective cs
    pure (← s.addMark? t, rest)
  else if atDocumentMark '-' (here :: cs) then do pure (← s.addMark? .documentStart, cs.drop 2)
  else if atDocumentMark '.' (here :: cs) then do pure (← s.addMark? .documentEnd, cs.drop 2)
  else match here.char with
    | '[' => do pure (← s.openFlow? here .flowSequence, cs)
    | '\x7b' => do pure (← s.openFlow? here .flowMapping, cs)
    | ']' => do pure (← s.closeFlow? .flowSequenceEnd, cs)
    | '\x7d' => do pure (← s.closeFlow? .flowMappingEnd, cs)
    | ',' => do pure (← s.addComma?, cs)
    | '*' => s.addNode? here ((readName cs).map fun r => (.reference r.1, r.2))
    | '&' => s.addNode? here ((readName cs).map fun r => (.anchor r.1, r.2))
    | '!' => s.addNode? here (readTag s.inFlow cs)
    | '\'' => quoted .single (readSingle .empty [] cs)
    | '"' => quoted .double (readDouble .empty [] cs)
    | c =>
      if c = '|' && !s.inFlow then s.addBlock? .literal cs
      else if c = '>' && !s.inFlow then s.addBlock? .folded cs
      else if c = '-' && atGap cs then do pure (← s.addItem? here, cs)
      else if c = '?' && (s.inFlow || atGap cs) then do pure (← s.addKey? here, cs)
      else if c = ':' && (s.inFlow || atGap cs) then do pure (← s.addValue? here, cs)
      else if startsPlain s.inFlow (here :: cs) then s.addPlain? here (here :: cs)
      else none

end Scan

/-! ## Whole texts -/

/-- Skips blanks, comments and line breaks up to the next token, and tells
whether the name of a member may start there. A tab is no blank where one
may; a mark of the byte order may start a line. -/
def skipToToken (inFlow keyAllowed comment : Bool) : List Cell → Bool × List Cell
  | [] => (keyAllowed, [])
  | c :: cs =>
    if isBreak c.char then skipToToken inFlow (keyAllowed || !inFlow) false cs
    else if comment then skipToToken inFlow keyAllowed true cs
    else if c.char = '#' then skipToToken inFlow keyAllowed true cs
    else if c.char = ' ' || (c.char = '\t' && (inFlow || !keyAllowed)) ||
        (c.char = '\ufeff' && c.column = 0) then
      skipToToken inFlow keyAllowed false cs
    else (keyAllowed, c :: cs)

/-- Splits the rest of a text into tokens. Every token has a character, so
the number of characters bounds the steps. -/
def scanRest : Nat → Scan → List Cell → Option (List Token)
  | 0, _, _ => none
  | fuel + 1, s, cs =>
    let (keyAllowed, cs) := skipToToken s.inFlow s.keyAllowed false cs
    let s := { s with keyAllowed := keyAllowed }
    match cs with
    | [] => s.closeAll.dropCandidate?.map fun s => s.tokens.reverse
    | here :: cs => do
      let s ← s.dropStale? here
      let (s, rest) ← (s.closeRightOf here.column).addToken? here cs
      scanRest fuel s rest

/-- The tokens of a text. -/
def tokens? (text : String) : Option (List Token) := do
  let cs ← cells? text
  scanRest (cs.length + 1) {} cs

end Yaml

end QuantumLowering
