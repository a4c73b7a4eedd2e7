import QuantumLowering.Yaml.Source
/-!
# Tokens of YAML text

The tokens say how a document is put together: where block collections
start and end, which the text shows by indentation only, and what is the
name of a member, which it shows by a colon after it.
-/


namespace QuantumLowering

namespace Yaml

/-- How a scalar is written. -/
inductive Style where
  /-- Without quotes. -/
  | plain
  /-- In single quotes. -/
  | single
  /-- In double quotes. -/
  | double
  /-- As a block of lines that are kept. -/
  | literal
  /-- As a block of lines that are folded. -/
  | folded
deriving DecidableEq

/-- A token. The text of a tag is missing where octets are escaped in it
that are no character. -/
inductive Token where
  /-- A directive about the version of the format. -/
  | version (major minor : Nat)
  /-- A directive that gives a handle of tags its meaning. -/
  | tagHandle (handle : String) (meaning : Option String)
  /-- The mark in front of a document. -/
  | documentStart
  /-- The mark after a document. -/
  | documentEnd
  | blockSequence
  | blockMapping
  /-- The end of a block collection. -/
  | blockEnd
  | flowSequence
  | flowSequenceEnd
  | flowMapping
  | flowMappingEnd
  /-- The dash of an item. -/
  | item
  /-- The comma of a flow collection. -/
  | comma
  /-- What follows is the name of a member. -/
  | key
  /-- What follows is the value of a member. -/
  | value
  | anchor (name : String)
  | reference (name : String)
  /-- A tag: its handle and the rest of it. -/
  | tag (handle : String) (rest : Option String)
  | scalar (style : Style) (text : String)
deriving DecidableEq

end Yaml

end QuantumLowering
