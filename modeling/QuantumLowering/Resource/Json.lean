import QuantumLowering.Document
import QuantumLowering.Resource.Basic
/-!
# Resources as JSON

A kind is written by its name, a resource as a record of its kind, its
handle and its width.
-/


namespace QuantumLowering

namespace ResourceKind

/-- The JSON form of a kind. -/
def toJson (k : ResourceKind) : Json := .string k.text

/-- The kind of a name. -/
def ofText? (s : String) : Option ResourceKind := [qubit, result].find? fun k => k.text = s

/-- The kind of a JSON form. -/
def ofJson? (j : Json) : Option ResourceKind := (Document.choice? j).bind ofText?

end ResourceKind

namespace Resource

/-- The JSON form of a resource. -/
def toJson (r : Resource) : Json :=
  .object [("kind", r.kind.toJson), ("handle", .nat r.handle), ("width", .nat r.width)]

/-- The resource of a JSON form. -/
def ofJson? (j : Json) : Option Resource := do
  let fields ← Fields.read? ["kind", "handle", "width"] j
  let kind ← fields.required? "kind" ResourceKind.ofJson?
  let handle ← fields.required? "handle" (Document.nat? addressLimit)
  let width ← fields.required? "width" (Document.nat? addressLimit)
  pure ⟨kind, handle, width⟩

end Resource

end QuantumLowering
