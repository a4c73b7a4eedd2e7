import QuantumLowering.Yaml.Source
/-!
# Folding

A scalar in one piece may be spread over several lines. The blanks around
a line break then go away: one break becomes a space, and of more breaks
all but the first stay. A first break that is a separator of lines or
paragraphs stays as well.
-/


namespace QuantumLowering

namespace Yaml

/-- The white space between two parts of a scalar. -/
inductive Gap where
  /-- Blanks inside a line, the latest first. -/
  | blanks (chars : List Char)
  /-- Line breaks: the first one unless it is escaped, and those after it,
  the latest first. -/
  | breaks (first : Option Char) (later : List Char)

namespace Gap

/-- No white space. -/
def empty : Gap := blanks []

/-- Whether there is none. -/
def isEmpty : Gap → Bool
  | blanks cs => cs.isEmpty
  | breaks _ _ => false

/-- Whether a line ends in it. -/
def isBroken : Gap → Bool
  | blanks _ => false
  | breaks _ _ => true

/-- Takes up a blank; those at the start of a line go away. -/
def blank (g : Gap) (c : Char) : Gap :=
  match g with
  | blanks cs => blanks (c :: cs)
  | breaks first later => breaks first later

/-- Takes up a line break; the blanks before the first go away. -/
def lineBreak (g : Gap) (c : Char) : Gap :=
  match g with
  | blanks _ => breaks (some c) []
  | breaks first later => breaks first (c :: later)

/-- Puts what the white space becomes onto some text, the latest
characters first. -/
def onto (text : List Char) : Gap → List Char
  | blanks cs => cs ++ text
  | breaks (some '\n') [] => ' ' :: text
  | breaks (some '\n') later => later ++ text
  | breaks first later => later ++ (first.toList ++ text)

end Gap

end Yaml

end QuantumLowering
