import QuantumLowering.Pass.Registry
import QuantumLowering.Profile.Basic
/-!
# Building profiles

A `ProfileBuilder` holds the parts of a profile. Building it never fails:
a pipeline text for which there are no passes adds none, and the profile
keeps a diagnostic instead. Only a configuration may name rules that do
not exist.
-/


namespace QuantumLowering

/-- The parts of a profile. -/
structure ProfileBuilder where
  /-- Whether the program is verified after every pass. -/
  debug : Bool
  /-- The target, if there is one. -/
  target : Option Target
  /-- The pool of qubits, if it is not left to the target. -/
  qubits : Option Pool
  /-- The pool of results, if it is not left to the target. -/
  results : Option Pool
  /-- The tracker. -/
  tracker : Tracker
  /-- The pipeline text at each hook. -/
  pipelines : Hook → Option String
  /-- The passes before those of the pipeline texts. -/
  schedule : Schedule
  /-- The rules. -/
  validator : Validator
  /-- The passes that pipeline texts may name. -/
  registry : Registry

namespace ProfileBuilder

/-- The parts of a profile without passes and rules. -/
def start : ProfileBuilder where
  debug := false
  target := none
  qubits := none
  results := none
  tracker := .empty
  pipelines := fun _ => none
  schedule := .empty
  validator := .empty
  registry := .builtin

/-- Sets the pipeline text at a hook, in place of an earlier one. -/
def setPipeline (b : ProfileBuilder) (hook : Hook) (text : String) : ProfileBuilder :=
  { b with pipelines := fun h => if h = hook then some text else b.pipelines h }

/-! ## Building -/

/-- The passes of the text at a hook; without a text there are none. -/
def passesAt (b : ProfileBuilder) (hook : Hook) : Except Failure (List Pass) :=
  match b.pipelines hook with
  | some text => b.registry.parse text
  | none => .ok []

/-- The diagnostic for the text at a hook, if there are no passes for it. -/
def diagnosticAt? (b : ProfileBuilder) (hook : Hook) : Option HookDiagnostic :=
  match b.pipelines hook, b.passesAt hook with
  | some text, .error failure => some ⟨hook, text, failure⟩
  | _, _ => none

/-- The passes of the profile: at each hook those installed and then those
of the text there. -/
def assemble (b : ProfileBuilder) : Schedule where
  slots hook :=
    b.schedule.slots hook ++
      match b.passesAt hook with
      | .ok passes => passes
      | .error _ => []
  verifyEach := b.debug || b.schedule.verifyEach

/-- The pipeline texts that the profile does without. -/
def diagnostics (b : ProfileBuilder) : List HookDiagnostic := Hook.all.filterMap b.diagnosticAt?

/-- What is said of a text that the profile does without. -/
def diagnosticEntry (d : HookDiagnostic) : LogEntry :=
  ⟨.warn, "Ignoring " ++ d.hook.name ++ " pipeline '" ++ d.text ++ "': " ++ d.failure.message⟩

/-- The profile. -/
def profile (b : ProfileBuilder) : Profile where
  debug := b.debug
  target := b.target
  context := .start (b.qubits.getD (.forTarget b.target .qubit .noReuse))
    (b.results.getD (.forTarget b.target .result .noReuse)) b.tracker
  schedule := b.assemble
  validator := b.validator
  stage := .configured
  diagnostics := b.diagnostics

/-- Builds the profile. -/
def build (b : ProfileBuilder) : Profile × Log :=
  (b.profile, b.diagnostics.map diagnosticEntry)

/-! ## From a configuration -/

/-- Adds the rule of a name. A repeated name is passed over. -/
def addRule (name : String) (v : Validator) : Except Failure Validator × Log :=
  if v.contains name then
    (.ok v, [⟨.warn, "Compliance rule " ++ name ++ " listed twice, ignoring repeat"⟩])
  else (v.registerName name, [])

/-- Adds the rules of some names up to the first that does not exist. -/
def addRules (v : Validator) : List String → Except Failure Validator × Log
  | [] => (.ok v, [])
  | name :: names =>
    match addRule name v with
    | (.ok v, log) =>
      let (result, rest) := addRules v names
      (result, log ++ rest)
    | (.error e, log) => (.error e, log)

/-- The parts of the profile that a configuration describes. -/
def ofConfiguration (c : Configuration) : Except Failure ProfileBuilder × Log :=
  let (validator, log) := addRules .empty c.rules
  (validator.map fun validator =>
    { start with
      debug := c.debug
      target := c.target
      qubits := some (.forTarget c.target .qubit c.policies.qubits)
      results := some (.forTarget c.target .result c.policies.results)
      pipelines := c.pipelines
      validator }, log)

end ProfileBuilder

/-- Builds the profile that a configuration describes. -/
def Configuration.build (c : Configuration) : Except Failure Profile × Log :=
  match ProfileBuilder.ofConfiguration c with
  | (.error e, log) => (.error e, log)
  | (.ok b, log) =>
    let (profile, rest) := b.build
    (.ok profile, log ++ rest)

end QuantumLowering
