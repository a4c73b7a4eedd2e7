import QuantumLowering.Program.Basic
/-!
# Intrinsics

Intrinsics are the functions that a quantum runtime and an instruction
set provide. Some acquire and release qubits at run time, or return a
measurement result that has no address; lowering replaces calls of these
by static addresses. The base profile allows a fixed list of the others.
-/


namespace QuantumLowering

namespace Intrinsics

/-! ## Names -/

/-- How the names of instructions start. -/
def instructionStart : String := "__quantum__qis__"

/-- How the names of runtime functions start. -/
def runtimeStart : String := "__quantum__rt__"

/-- How the names of functions that manage qubits start. -/
def managementStart : String := "__quantum__rt__qubit_"

/-- Acquires a qubit. -/
def acquireQubit : String := "__quantum__rt__qubit_allocate"

/-- Acquires an array of qubits. -/
def acquireArray : String := "__quantum__rt__qubit_allocate_array"

/-- Releases a qubit. -/
def releaseQubit : String := "__quantum__rt__qubit_release"

/-- Releases an array of qubits. -/
def releaseArray : String := "__quantum__rt__qubit_release_array"

/-- The element of an array of qubits at an index. -/
def arrayElement : String := "__quantum__rt__array_get_element_ptr_1d"

/-- Measures a qubit and returns a result acquired at run time. -/
def measure : String := "__quantum__qis__m__body"

/-- Measures a qubit into a result given by its address. -/
def measureInto : String := "__quantum__qis__mz__body"

/-! ## Attributes and flags -/

/-- The entry point's attribute with the number of qubits it needs. -/
def requiredQubits : String := "required_num_qubits"

/-- The entry point's attribute with the number of results it needs. -/
def requiredResults : String := "required_num_results"

/-- The flag with the major version of the representation. -/
def majorVersion : String := "qir_major_version"

/-- The flag with the minor version of the representation. -/
def minorVersion : String := "qir_minor_version"

/-- The flag that tells whether qubits are managed at run time. -/
def dynamicQubits : String := "dynamic_qubit_management"

/-- The flag that tells whether results are managed at run time. -/
def dynamicResults : String := "dynamic_result_management"

/-! ## The base profile -/

/-- The instructions that the base profile allows. -/
def baseInstructions : List String :=
  ["__quantum__qis__h__body",
    "__quantum__qis__x__body",
    "__quantum__qis__y__body",
    "__quantum__qis__z__body",
    "__quantum__qis__s__body",
    "__quantum__qis__s__adj",
    "__quantum__qis__t__body",
    "__quantum__qis__t__adj",
    "__quantum__qis__rx__body",
    "__quantum__qis__ry__body",
    "__quantum__qis__rz__body",
    "__quantum__qis__rxy__body",
    "__quantum__qis__rzz__body",
    "__quantum__qis__cz__body",
    "__quantum__qis__cx__body",
    "__quantum__qis__cnot__body",
    "__quantum__qis__ccx__body",
    "__quantum__qis__reset__body",
    "__quantum__qis__mz__body",
    "__quantum__qis__mresetz__body"]

/-- The runtime functions that the base profile allows. -/
def baseRuntime : List String :=
  ["__quantum__rt__initialize",
    "__quantum__rt__result_record_output",
    "__quantum__rt__array_record_output",
    "__quantum__rt__tuple_record_output",
    "__quantum__rt__bool_record_output",
    "__quantum__rt__int_record_output",
    "__quantum__rt__double_record_output"]

/-- Whether a name starts like another. -/
def startsLike (start name : String) : Bool := start.toList.isPrefixOf name.toList

/-- Whether a name is an intrinsic's. -/
def isIntrinsic (name : String) : Bool :=
  startsLike instructionStart name || startsLike runtimeStart name

/-- Whether the base profile allows calls of a function. Functions that are
no intrinsics may always be called. -/
def isBaseCallee (name : String) : Bool :=
  if startsLike instructionStart name then baseInstructions.contains name
  else if startsLike runtimeStart name then baseRuntime.contains name
  else true

/-- Whether a function acquires or releases qubits. -/
def isQubitManagement (name : String) : Bool := startsLike managementStart name

end Intrinsics

/-- Whether an instruction acquires or releases qubits. -/
def Instruction.managesQubits (i : Instruction) : Bool :=
  i.callee?.any Intrinsics.isQubitManagement

/-- Whether a function acquires or releases qubits. -/
def Function.managesQubits (f : Function) : Bool := f.instructions.any Instruction.managesQubits

/-- Whether a program acquires or releases qubits. -/
def Program.managesQubits (p : Program) : Bool :=
  p.instructions.any fun e => e.2.managesQubits

/-- Declares the intrinsics that lowering replaces. -/
def Program.declareRuntime (p : Program) : Program :=
  p |>.declare Intrinsics.acquireQubit [] .qubit
    |>.declare Intrinsics.acquireArray [.int] .array
    |>.declare Intrinsics.releaseQubit [.qubit] .void
    |>.declare Intrinsics.releaseArray [.array] .void
    |>.declare Intrinsics.arrayElement [.array, .int] .qubit
    |>.declare Intrinsics.measure [.qubit] .result

end QuantumLowering
