import QuantumLowering.Document
import QuantumLowering.Yaml.Number
import QuantumLowering.Yaml.Token.Basic
/-!
# YAML documents

A document is made of scalars, sequences and mappings. A plain scalar may
stand for an absent value, a truth value or a number; any other is text.
A record is a mapping and never a sequence.
-/


namespace QuantumLowering

/-- A YAML document. -/
inductive Yaml where
  /-- A scalar: how it is written, its tag if it has one, and its text. -/
  | scalar (style : Yaml.Style) (tag : Option String) (text : String)
  | sequence (items : List Yaml)
  /-- A mapping with its members in order, repeated names included. -/
  | mapping (members : List (Yaml × Yaml))
  /-- An alias to the node in a slot. -/
  | reference (slot : Nat)

namespace Yaml

/-- The value left out. -/
def absent : Yaml := scalar .plain none ""

/-- The tag of a kind of value. -/
def tagOf (kind : String) : String := "tag:yaml.org,2002:" ++ kind

/-- The text of a scalar. -/
def text? : Yaml → Option String
  | scalar _ _ s => some s
  | sequence _ | mapping _ | reference _ => none

/-- The text of a plain scalar. -/
def plain? : Yaml → Option String
  | scalar .plain _ s => some s
  | _ => none

/-- The text that may spell a value of a kind: that of a plain scalar, or of
a block of lines with the tag of the kind. -/
def spelling? (kind : String) : Yaml → Option String
  | scalar .plain _ s => some s
  | scalar .literal (some tag) s => if tag = tagOf kind then some s else none
  | _ => none

/-- Whether nothing is written for the value. -/
def isBlankValue (y : Yaml) : Bool := y.plain? = some ""

/-- The choice that a scalar names: by its text, or by a tag of the
document's own on an absent value. -/
def choiceOf? : Yaml → Option String
  | scalar style (some tag) s =>
    match tag.toList with
    | '!' :: name =>
      if style = .plain && (s.isEmpty || isNullWord s) then some (String.ofList name) else none
    | _ => some s
  | y => y.text?

/-- Whether a scalar stands for an absent value, unless it is tagged as one
and is none. A plain scalar without a tag does so if nothing is written
or a word for it, and one with another tag never. -/
def isAbsent? : Yaml → Option Bool
  | scalar .plain none s => some (s.isEmpty || isNullWord s)
  | scalar .plain (some tag) s =>
    if tag = tagOf "null" then if isNullWord s then some true else none else some false
  | _ => some false

/-- A place in a document: the node there, and the nodes that aliases in
it refer to. -/
structure Place where
  /-- The nodes in the slots. -/
  slots : List (Nat × Yaml)
  node : Yaml

namespace Place

/-- The node itself, or what it is an alias to. -/
def target (p : Place) : Yaml :=
  match p.node with
  | reference slot => (p.slots.lookup slot).getD absent
  | y => y

/-- The places of the items of a sequence. A blank value has none. -/
def items? (p : Place) : Option (List Place) :=
  match p.target with
  | sequence items => some (items.map fun y => ⟨p.slots, y⟩)
  | y => if y.isBlankValue then some [] else none

/-- The places of the members of a mapping, each under the text that
`read` finds for its name. A blank value has none. -/
def membersBy? (read : Yaml → Option String) (p : Place) : Option (List (String × Place)) :=
  match p.target with
  | mapping members =>
    members.mapM fun m =>
      (read (target ⟨p.slots, m.1⟩)).map fun name => (name, ⟨p.slots, m.2⟩)
  | y => if y.isBlankValue then some [] else none

end Place

instance : Document Place where
  isAbsent? p := p.target.isAbsent?
  bool? p := (p.target.spelling? "bool").bind truth?
  nat? limit p := ((p.target.spelling? "int").bind natural?).filter fun n => n < limit
  string? p := p.target.text?
  choice? p := p.target.choiceOf?
  items? := Place.items?
  positions? _ := none
  members? := Place.membersBy? text?
  choices? := Place.membersBy? choiceOf?

end Yaml

end QuantumLowering
