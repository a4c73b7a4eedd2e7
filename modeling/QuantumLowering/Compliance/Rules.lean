import QuantumLowering.Compliance.Report
import QuantumLowering.Intrinsics
import QuantumLowering.Text.Digits
/-!
# The rules of the base profile

A program complies with the base profile if it manages no qubits and
results at run time, passes only addresses to calls, has one entry point
that states what it needs, calls only allowed intrinsics and says all this
in its flags.
-/


namespace QuantumLowering

namespace Rules

/-! ## Dynamic management -/

/-- No call acquires or releases qubits. -/
def noDynamicQubits (p : Program) : Verdict :=
  match p.instructions.find? fun e => e.2.managesQubits with
  | some (f, i) => .fail ("`" ++ f.name ++ "` calls `" ++ i.name ++ "`")
  | none => .pass

/-- No instruction computes a result. -/
def noDynamicResults (p : Program) : Verdict :=
  match p.instructions.find? fun e => e.2.result.isSome && e.2.type = .result with
  | some (f, i) => .fail ("`" ++ f.name ++ "` produces a dynamic result with `" ++ i.name ++ "`")
  | none => .pass

/-! ## Operands -/

/-- The type of a value in a function. The last definition counts. -/
def typeOf? (f : Function) (v : ValueId) : Option Ty :=
  let params := f.params.map fun p => (p.value, p.type)
  let results := f.instructions.filterMap fun i => i.result.map fun r => (r, i.type)
  (params ++ results).reverse.lookup v

/-- Whether an operand is a value that names a qubit or a result. -/
def isDynamicOperand (f : Function) (op : Operand) : Bool :=
  match op with
  | .value v => (typeOf? f v).any Ty.isResource
  | _ => false

/-- The complaints about the arguments of a call. -/
def dynamicArguments (f : Function) (i : Instruction) : List String :=
  (i.args.filter (isDynamicOperand f)).map fun op =>
    op.text ++ " in call to `" ++ i.name ++ "` in `" ++ f.name ++ "`"

/-- Every qubit and result that is passed to a call is an address. -/
def staticOperands (p : Program) : Verdict :=
  .passIfNone (fun l => "dynamic resource operands: " ++ ", ".intercalate l)
    (p.instructions.flatMap fun e => dynamicArguments e.1 e.2)

/-! ## The entry point -/

/-- One definition is marked as entry point. -/
def singleEntry (p : Program) : Verdict :=
  match p.definitions.filter Function.isEntryPoint with
  | [_] => .pass
  | [] => .fail "no entry point"
  | entries => .fail ("multiple entry points: " ++ ", ".intercalate (entries.map Function.name))

/-- Whether an attribute states a number. -/
def statesCount (f : Function) (key : String) : Bool :=
  ((f.attribute? key).bind fun s => Text.count? addressLimit s.toList).isSome

/-- The entry point states how many qubits and results it needs. -/
def statedNeeds (p : Program) : Verdict :=
  match p.entryPoint? with
  | none => .fail "no entry point"
  | some f =>
    .passIfNone
      (fun l => "`" ++ f.name ++ "` is missing numeric attributes: " ++ ", ".intercalate l)
      ([Intrinsics.requiredQubits, Intrinsics.requiredResults].filter fun key => !statesCount f key)

/-! ## Intrinsics and flags -/

/-- Some names in order, each once. -/
def sortedNames (names : List String) : List String :=
  (SortedMap.ofList (names.map fun n => (n, ()))).keys

/-- The profile allows every intrinsic that is called. -/
def allowedIntrinsics (p : Program) : Verdict :=
  .passIfNone (fun l => "intrinsics outside the profile: " ++ ", ".intercalate l)
    (sortedNames ((p.instructions.filterMap fun e => e.2.callee?).filter fun n =>
      !Intrinsics.isBaseCallee n))

/-- The flags of a program that complies. -/
def expectedFlags : List (String × FlagValue) :=
  [(Intrinsics.majorVersion, .int 1), (Intrinsics.dynamicQubits, .bool false),
    (Intrinsics.dynamicResults, .bool false)]

/-- The complaint about a flag. -/
def flagComplaint? (p : Program) (key : String) (expected : FlagValue) : Option String :=
  match p.flag? key with
  | some actual =>
    if actual = expected then none
    else some (key ++ " is " ++ actual.text ++ ", expected " ++ expected.text)
  | none => some (key ++ " is missing, expected " ++ expected.text)

/-- The flags say that the program complies. -/
def declaredFlags (p : Program) : Verdict :=
  .passIfNone (fun l => "; ".intercalate l)
    (expectedFlags.filterMap fun e => flagComplaint? p e.1 e.2)

/-! ## The rules by name -/

/-- The rules of the base profile, in order. -/
def base : List Rule :=
  [⟨"no-dynamic-qubit-management", noDynamicQubits⟩,
    ⟨"no-dynamic-result-management", noDynamicResults⟩,
    ⟨"static-resource-operands", staticOperands⟩,
    ⟨"single-entry-point", singleEntry⟩,
    ⟨"required-resource-attributes", statedNeeds⟩,
    ⟨"allowed-intrinsics", allowedIntrinsics⟩,
    ⟨"module-flags", declaredFlags⟩]

/-- The rule of a name. -/
def find? (name : String) : Option Rule := base.find? fun r => r.name = name

end Rules

end QuantumLowering
