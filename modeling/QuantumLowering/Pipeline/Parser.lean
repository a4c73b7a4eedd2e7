import QuantumLowering.Pipeline.Token
import QuantumLowering.Pipeline.Element
/-!
# Reading pipeline text

The grammar of pipelines is

    pipeline := element (',' element)*
    element  := word ('<' word (';' word)* '>')? ('(' pipeline? ')')?

and blank text is the empty pipeline. `parse` reads the tokens one by one
and keeps the elements that are still open on a stack, so that the first
token it refuses is the first one with which no pipeline can begin.
-/


namespace QuantumLowering

namespace Pipeline

/-- Why a text is no pipeline. -/
inductive SyntaxError where
  /-- A character belongs to no token. -/
  | stray (position : Nat) (c : Char)
  /-- A token stands where another was due. -/
  | unexpected (position : Nat) (expected : String) (found : Token)
  /-- The text ends too early. -/
  | unfinished (expected : String)
deriving DecidableEq

/-- The message of a syntax error. -/
def SyntaxError.message : SyntaxError → String
  | .stray position c =>
    "Invalid pipeline text at position " ++ toString position ++ ": '" ++ String.singleton c ++ "'"
  | .unexpected position expected found =>
    "Unexpected " ++ found.text ++ " at position " ++ toString position ++ ", expected " ++ expected
  | .unfinished expected => "Unexpected end of pipeline, expected " ++ expected

/-- An element whose nested pipeline is being read. -/
structure OpenElement where
  /-- The elements before it, the latest first. -/
  before : List Element
  /-- Its name. -/
  name : String
  /-- Its parameters. -/
  params : List String

/-- What may follow. -/
inductive Expectation where
  /-- A name. -/
  | name
  /-- A name, or the end of a nested pipeline just opened. -/
  | nameOrClose
  /-- Anything after an element's name. -/
  | afterName (name : String)
  /-- A parameter; those before it are listed latest first. -/
  | param (name : String) (params : List String)
  /-- Another parameter or the end of the parameters. -/
  | afterParam (name : String) (params : List String)
  /-- Anything after an element's parameters. -/
  | afterParams (name : String) (params : List String)
  /-- Anything after a nested pipeline. -/
  | afterClose

/-- A pipeline being read. -/
structure Reading where
  /-- The elements still open, the innermost first. -/
  stack : List OpenElement := []
  /-- The elements complete at the innermost level, the latest first. -/
  done : List Element := []
  /-- What may follow. -/
  expectation : Expectation := .name

namespace Reading

/-- What is due after a complete element. -/
def closing (r : Reading) : String :=
  if r.stack.isEmpty then "',' or end of pipeline" else "')'"

/-- Adds a complete element. -/
def add (r : Reading) (e : Element) : Reading := { r with done := e :: r.done }

/-- Opens the nested pipeline of an element. -/
def openNested (r : Reading) (name : String) (params : List String) : Reading :=
  ⟨⟨r.done, name, params⟩ :: r.stack, [], .nameOrClose⟩

/-- Closes the innermost nested pipeline, if one is open. -/
def closeNested (r : Reading) : Option Reading :=
  match r.stack with
  | [] => none
  | o :: stack => some ⟨stack, .mk o.name o.params r.done.reverse :: o.before, .afterClose⟩

/-- Goes on after a complete element: with another one or with the end of
a nested pipeline. -/
def separate (r : Reading) : Token → Except String Reading
  | .comma => .ok { r with expectation := .name }
  | .rightParen =>
    match r.closeNested with
    | some r => .ok r
    | none => .error r.closing
  | _ => .error r.closing

/-- Takes up a token, or says what was due instead. -/
def step (r : Reading) (t : Token) : Except String Reading :=
  match r.expectation, t with
  | .name, .word w => .ok { r with expectation := .afterName w }
  | .name, _ => .error "pass name"
  | .nameOrClose, .word w => .ok { r with expectation := .afterName w }
  | .nameOrClose, .rightParen =>
    match r.closeNested with
    | some r => .ok r
    | none => .error "pass name"
  | .nameOrClose, _ => .error "pass name"
  | .afterName n, .leftAngle => .ok { r with expectation := .param n [] }
  | .afterName n, .leftParen => .ok (r.openNested n [])
  | .afterName n, t => (r.add (.mk n [] [])).separate t
  | .param n ps, .word w => .ok { r with expectation := .afterParam n (w :: ps) }
  | .param _ _, _ => .error "parameter"
  | .afterParam n ps, .semicolon => .ok { r with expectation := .param n ps }
  | .afterParam n ps, .rightAngle => .ok { r with expectation := .afterParams n ps.reverse }
  | .afterParam _ _, _ => .error Token.rightAngle.text
  | .afterParams n ps, .leftParen => .ok (r.openNested n ps)
  | .afterParams n ps, t => (r.add (.mk n ps [])).separate t
  | .afterClose, t => r.separate t

/-- The complete elements, unless one is still open. -/
def elements (r : Reading) : Except String (List Element) :=
  if r.stack.isEmpty then .ok r.done.reverse else .error r.closing

/-- The pipeline once all tokens are taken up, or what was still due. -/
def finish (r : Reading) : Except String (List Element) :=
  match r.expectation with
  | .name => .error "pass name"
  | .nameOrClose => .error "pass name"
  | .param _ _ => .error "parameter"
  | .afterParam _ _ => .error Token.rightAngle.text
  | .afterName n => (r.add (.mk n [] [])).elements
  | .afterParams n ps => (r.add (.mk n ps [])).elements
  | .afterClose => r.elements

/-- Takes up the rest of the tokens. -/
def run (r : Reading) : List (Nat × Token) → Except SyntaxError (List Element)
  | [] => r.finish.mapError .unfinished
  | (position, t) :: rest =>
    match r.step t with
    | .ok r => r.run rest
    | .error expected => .error (.unexpected position expected t)

end Reading

/-- The tokens of some lexemes with their positions, or the first stray
character. -/
def tokens : List Lexeme → Except SyntaxError (List (Nat × Token))
  | [] => .ok []
  | l :: ls =>
    match l.content with
    | .ok t => (tokens ls).map ((l.position, t) :: ·)
    | .error c => .error (.stray l.position c)

/-- Reads a pipeline from its text. A stray character anywhere is
reported before any misplaced token. -/
def parse (text : String) : Except SyntaxError (List Element) :=
  match tokens (lex text) with
  | .error e => .error e
  | .ok [] => .ok []
  | .ok ts => Reading.run {} ts

end Pipeline

end QuantumLowering
