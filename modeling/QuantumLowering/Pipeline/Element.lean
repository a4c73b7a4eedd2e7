/-!
# Pipeline elements

A pipeline is a list of elements. An element names a pass and may carry
parameters and a pipeline of its own. `format` writes a pipeline so that
reading it gives the same elements.
-/


namespace QuantumLowering

namespace Pipeline

/-- An element of a pipeline. -/
inductive Element where
  /-- An element with its name, its parameters and its nested pipeline. -/
  | mk (name : String) (params : List String) (nested : List Element)

namespace Element

/-- The name of an element. -/
def name : Element → String
  | mk name _ _ => name

/-- The parameters of an element. -/
def params : Element → List String
  | mk _ params _ => params

/-- The pipeline inside an element. -/
def nested : Element → List Element
  | mk _ _ nested => nested

end Element

/-- The text of parameters; without any there is none. -/
def formatParams (params : List String) : String :=
  if params.isEmpty then "" else "<" ++ ";".intercalate params ++ ">"

/-- The text of a nested pipeline given its elements' texts; an empty one
has none. -/
def formatNested (texts : List String) : String :=
  if texts.isEmpty then "" else "(" ++ ",".intercalate texts ++ ")"

mutual

/-- The text of an element. -/
def formatElement : Element → String
  | .mk name params nested => name ++ formatParams params ++ formatNested (formatEach nested)

/-- The texts of the elements of a pipeline. -/
def formatEach : List Element → List String
  | [] => []
  | e :: es => formatElement e :: formatEach es

end

/-- The text of a pipeline. -/
def format (es : List Element) : String := ",".intercalate (formatEach es)

mutual

/-- An element and those inside it, each with its depth, outermost
first. -/
def outlineElement (depth : Nat) : Element → List (Nat × Element)
  | .mk name params nested =>
    (depth, .mk name params nested) :: outline (depth + 1) nested

/-- The elements of a pipeline and those inside them, each with its
depth. -/
def outline (depth : Nat) : List Element → List (Nat × Element)
  | [] => []
  | e :: es => outlineElement depth e ++ outline depth es

end

end Pipeline

end QuantumLowering
