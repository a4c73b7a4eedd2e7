import QuantumLowering.Compliance.Rules
import QuantumLowering.Pass.Hook
/-!
# Configurations

A `Configuration` describes a profile: the limits of its target, what its
pools do with released handles, the pipeline text at each hook and the
names of its rules.
-/


namespace QuantumLowering

/-- What a target can hold. -/
structure Target where
  /-- The name of the target. -/
  name : String
  /-- The number of qubits it has, if that is bounded. -/
  maxQubits : Option Nat
  /-- The number of results it has, if that is bounded. -/
  maxResults : Option Nat
deriving DecidableEq

namespace Target

/-- The number of resources of a kind that a target has. -/
def capacity (t : Target) : ResourceKind → Option Nat
  | .qubit => t.maxQubits
  | .result => t.maxResults

/-- The inspection text of a target. -/
def inspect (t : Target) : String :=
  Text.record "TargetDescriptor"
    [("name", Text.quoted t.name),
      ("max_qubits", Text.optional toString t.maxQubits),
      ("max_results", Text.optional toString t.maxResults)]

end Target

/-- A pool with the capacity that a target has for a kind. -/
def Pool.forTarget (target : Option Target) (kind : ResourceKind) (policy : ReusePolicy) : Pool :=
  .fresh policy (target.bind fun t => t.capacity kind)

/-- The policies of the pools. -/
structure Policies where
  /-- The policy for qubits. -/
  qubits : ReusePolicy
  /-- The policy for results. -/
  results : ReusePolicy
deriving DecidableEq

/-- The description of a profile. -/
structure Configuration where
  /-- Whether the program is verified after every pass. -/
  debug : Bool
  /-- The target, if there is one. -/
  target : Option Target
  /-- The policies of the pools. -/
  policies : Policies
  /-- The pipeline text at each hook. -/
  pipelines : Hook → Option String
  /-- The names of the rules. -/
  rules : List String

namespace Configuration

/-- The configuration of a profile that does nothing. -/
def empty : Configuration := ⟨false, none, ⟨.noReuse, .noReuse⟩, fun _ => none, []⟩

/-- The configuration of the base profile: every address is made static,
and all rules apply. -/
def base : Configuration :=
  { empty with
    pipelines := fun
      | .pipelineStart => some "qubit-allocation,result-allocation"
      | .optimizerLast => some "resource-annotation"
      | _ => none
    rules := Rules.base.map Rule.name }

/-- The hooks with a pipeline text, in order. -/
def hookTexts (c : Configuration) : List (Hook × String) :=
  Hook.all.filterMap fun h => (c.pipelines h).map fun text => (h, text)

end Configuration

end QuantumLowering
