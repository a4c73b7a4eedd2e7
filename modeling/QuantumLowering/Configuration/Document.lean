import QuantumLowering.Configuration.Basic
import QuantumLowering.Json.Reader
import QuantumLowering.Yaml.Reader
import QuantumLowering.Yaml.Writer
/-!
# Configurations as documents

A configuration is read from JSON or YAML in one and the same way. Every
field has a default; what is not known is ignored, except for the names
of hooks.
-/


namespace QuantumLowering

variable {δ : Type} [Document δ]

namespace ReusePolicy

/-- The policy of a document. -/
def ofDocument? (d : δ) : Option ReusePolicy := (Document.choice? d).bind ofName?

end ReusePolicy

namespace Target

/-- The target of a document. -/
def ofDocument? (d : δ) : Option Target := do
  let fields ← Fields.read? ["name", "max-qubits", "max-results"] d
  let count := Document.nullable? (Document.nat? addressLimit)
  let name ← fields.withDefault? "name" "" Document.string?
  let maxQubits ← fields.withDefault? "max-qubits" none count
  let maxResults ← fields.withDefault? "max-results" none count
  pure ⟨name, maxQubits, maxResults⟩

/-- The JSON form of a target. -/
def toJson (t : Target) : Json :=
  .object [("name", .string t.name), ("max-qubits", .ofOption .nat t.maxQubits),
    ("max-results", .ofOption .nat t.maxResults)]

/-- The YAML form of a target. -/
def outline (t : Target) : Yaml.Outline :=
  let count (n : Option Nat) : Yaml.Outline := .word (n.elim "null" toString)
  .members [("name", .text t.name), ("max-qubits", count t.maxQubits),
    ("max-results", count t.maxResults)]

end Target

namespace Policies

/-- The policies of a document. -/
def ofDocument? (d : δ) : Option Policies := do
  let fields ← Fields.read? ["qubits", "results"] d
  let qubits ← fields.withDefault? "qubits" .noReuse ReusePolicy.ofDocument?
  let results ← fields.withDefault? "results" .noReuse ReusePolicy.ofDocument?
  pure ⟨qubits, results⟩

/-- The JSON form of policies. -/
def toJson (p : Policies) : Json :=
  .object [("qubits", .string p.qubits.name), ("results", .string p.results.name)]

/-- The YAML form of policies. -/
def outline (p : Policies) : Yaml.Outline :=
  .members [("qubits", .text p.qubits.name), ("results", .text p.results.name)]

end Policies

namespace Configuration

/-- The pipeline text of a hook's member. -/
def pipelineOfMember? (m : String × δ) : Option (Hook × String) := do
  pure (← Hook.ofName? m.1, ← Document.string? m.2)

/-- The pipeline texts of a document. Of a repeated hook the last text
counts. -/
def pipelinesOfDocument? (d : δ) : Option (Hook → Option String) := do
  let texts ← (← Document.choices? d).mapM pipelineOfMember?
  pure fun h => texts.reverse.lookup h

/-- The configuration of a document. -/
def ofDocument? (d : δ) : Option Configuration := do
  let fields ← Fields.read? ["debug", "target", "allocation", "extension-points", "rules"] d
  let debug ← fields.withDefault? "debug" false Document.bool?
  let target ← fields.withDefault? "target" none (Document.nullable? Target.ofDocument?)
  let policies ← fields.withDefault? "allocation" empty.policies Policies.ofDocument?
  let pipelines ← fields.withDefault? "extension-points" empty.pipelines pipelinesOfDocument?
  let rules ← fields.withDefault? "rules" [] (Document.listOf? Document.string?)
  pure ⟨debug, target, policies, pipelines, rules⟩

/-- The configuration of a JSON text. -/
def ofJsonText? (text : String) : Option Configuration := (Json.read? text).bind ofDocument?

/-- The configuration of a YAML text. -/
def ofYamlText? (text : String) : Option Configuration := (Yaml.read? text).bind ofDocument?

/-- The JSON form of a configuration. -/
def toJson (c : Configuration) : Json :=
  .object [("debug", .bool c.debug), ("target", .ofOption Target.toJson c.target),
    ("allocation", c.policies.toJson),
    ("extension-points", .object (c.hookTexts.map fun e => (e.1.name, .string e.2))),
    ("rules", .ofList .string c.rules)]

/-- The YAML text of a configuration. -/
def yamlText (c : Configuration) : String :=
  Yaml.render
    [("debug", .word (Text.truth c.debug)),
      ("target", c.target.elim (.word "null") Target.outline),
      ("allocation", c.policies.outline),
      ("extension-points", .members (c.hookTexts.map fun e => (e.1.name, .text e.2))),
      ("rules", .items (c.rules.map .text))]

end Configuration

end QuantumLowering
