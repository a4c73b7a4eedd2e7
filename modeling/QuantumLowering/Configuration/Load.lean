import QuantumLowering.Configuration.Document
import QuantumLowering.Text.Trim
/-!
# Loading configurations

A configuration comes from a file, or is the one of the base profile. The
file's extension decides how it is read. A switch in the environment may
override whether the program is verified after every pass.
-/


namespace QuantumLowering

namespace Configuration

/-- Why a configuration could not be loaded. -/
inductive LoadError where
  /-- The file could not be read. -/
  | unreadable
  /-- The file's text is no configuration. -/
  | undecodable
deriving DecidableEq

/-- A file: its name and, if it can be read, its text. -/
structure File where
  /-- The name of the file. -/
  name : String
  /-- The text of the file. -/
  text : Option String

/-- The characters after the last point of a file name. A point in front
belongs to the name. -/
def extension (name : List Char) : List Char :=
  let last := (name.reverse.takeWhile fun c => c != '/').reverse
  let stem := last.reverse.dropWhile fun c => c != '.'
  if stem.length ≤ 1 then [] else last.drop stem.length

/-- Whether a file name says that the file holds JSON. -/
def isJsonName (name : String) : Bool :=
  Text.lower (extension name.toList) = ['j', 's', 'o', 'n']

/-- The configuration in a file: JSON if its name says so, else YAML. -/
def ofFile (f : File) : Except LoadError Configuration :=
  match f.text with
  | none => .error .unreadable
  | some text =>
    match if isJsonName f.name then ofJsonText? text else ofYamlText? text with
    | some c => .ok c
    | none => .error .undecodable

/-- What a switch says, if it is a word for on or off. -/
def switch? (s : String) : Option Bool :=
  let word := String.ofList (Text.lower (Text.trim s.toList))
  if ["1", "true", "yes", "on"].contains word then some true
  else if ["0", "false", "no", "off"].contains word then some false
  else none

/-- Overrides whether the program is verified after every pass. -/
def withSwitch (c : Configuration) (switch : Option String) : Configuration :=
  match switch.bind switch? with
  | some debug => { c with debug }
  | none => c

/-- The configuration of a file, or of the base profile without a file,
with the switch in the environment. -/
def load (file : Option File) (switch : Option String) : Except LoadError Configuration :=
  match file with
  | some f => (ofFile f).map fun c => c.withSwitch switch
  | none => .ok (base.withSwitch switch)

end Configuration

end QuantumLowering
