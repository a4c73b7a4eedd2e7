import QuantumLowering.Lowering.Qubits
import QuantumLowering.Lowering.Requirements
import QuantumLowering.Lowering.Results
import QuantumLowering.Pass.Checks
/-!
# Registries

A `Registry` knows how passes are made from the elements of a pipeline.
The names of adaptors only group elements: what is nested in them takes
their place.
-/


namespace QuantumLowering

/-- Makes a pass from parameters. -/
abbrev PassFactory : Type := List String → Except Failure Pass

/-- Makes a pass that takes no parameters. -/
def PassFactory.plain (name : String) (pass : Pass) : PassFactory
  | [] => .ok pass
  | params =>
    .error (.configuration ("pass '" ++ name ++ "' takes no parameters, got <" ++
      ";".intercalate params ++ ">"))

/-- The passes known by name. -/
structure Registry where
  /-- How the passes are made. -/
  factories : SortedMap String PassFactory

namespace Registry

/-- The registry that knows no pass. -/
def empty : Registry := ⟨.empty⟩

/-- Makes a pass known, in place of another one of that name. -/
def register (r : Registry) (name : String) (factory : PassFactory) : Registry :=
  ⟨r.factories.insert name factory⟩

/-- Makes a pass known that takes no parameters. -/
def registerPlain (r : Registry) (name : String) (pass : Pass) : Registry :=
  r.register name (.plain name pass)

/-- The registry of the passes of this library. -/
def builtin : Registry :=
  [Pass.qubitLowering, Pass.resultLowering, Pass.requirements, Pass.verify, Pass.print].foldl
    (fun r pass => r.registerPlain pass.name pass) empty

/-- Whether there is a pass of a name. -/
def contains (r : Registry) (name : String) : Bool := r.factories.contains name

/-- The names of the passes, in order. -/
def names (r : Registry) : List String := r.factories.keys

/-- The inspection text of a registry. -/
def inspect (r : Registry) : String := Text.inBrackets (r.names.map Text.quoted)

/-! ## Resolving pipelines -/

/-- The names that group elements. -/
def adaptors : List String := ["module", "function"]

/-- Makes the pass of an element that has nothing nested in it. -/
def make (r : Registry) (name : String) (params : List String) : Except Failure Pass :=
  match r.factories.find? name with
  | some factory => factory params
  | none => .error (.unknownPass name)

mutual

/-- Makes the passes of an element. -/
def resolveElement (r : Registry) : Pipeline.Element → Except Failure (List Pass)
  | .mk name params nested =>
    if adaptors.contains name then r.resolve nested
    else if !nested.isEmpty then
      .error (.configuration ("pass '" ++ name ++ "' cannot contain a nested pipeline"))
    else (r.make name params).map fun pass => [pass]

/-- Makes the passes of a pipeline, or tells what is wrong with its first
element that has none. -/
def resolve (r : Registry) : List Pipeline.Element → Except Failure (List Pass)
  | [] => .ok []
  | e :: es => do
    let passes ← r.resolveElement e
    let rest ← r.resolve es
    pure (passes ++ rest)

end

/-- Makes the passes of a pipeline from its text. -/
def parse (r : Registry) (text : String) : Except Failure (List Pass) :=
  match Pipeline.parse text with
  | .ok elements => r.resolve elements
  | .error e => .error (.pipeline e)

end Registry

end QuantumLowering
