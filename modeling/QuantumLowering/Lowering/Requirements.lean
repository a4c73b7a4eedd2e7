import QuantumLowering.Intrinsics
import QuantumLowering.Pass.Basic
/-!
# Requirements of a program

A program states at its entry point how many qubits and results it needs,
and in its flags whether it still manages any at run time. Addresses
count from zero, so a program needs one more than its highest address,
and at least as many as the pools have handed out.
-/


namespace QuantumLowering

namespace Requirements

/-- The number of resources needed for an address. There are no more than
addresses can count. -/
def needed (h : Handle) : Nat := min (h + 1) (addressLimit - 1)

/-- The number of resources of a kind that a program needs. -/
def extent (p : Program) (c : Context) (kind : ResourceKind) : Nat :=
  let addresses := p.instructions.flatMap fun e => e.2.operands.filterMap kind.handle?
  addresses.foldl (fun n h => max n (needed h)) (c.pool kind).highWater

/-- Whether an instruction acquires a result. -/
def acquiresResult (i : Instruction) : Bool := i.result.isSome && i.type = .result

/-- Whether a program acquires results. -/
def acquiresResults (p : Program) : Bool := p.instructions.any fun e => acquiresResult e.2

/-- States at the entry point what is needed. -/
def stateNeeds (p : Program) (qubits results : Nat) : Program :=
  p.updateEntryPoint fun f =>
    (f.setAttribute Intrinsics.requiredQubits (toString qubits)).setAttribute
      Intrinsics.requiredResults (toString results)

/-- Sets the flags. Versions that are stated already stay. -/
def stateFlags (p : Program) (dynamicQubits dynamicResults : Bool) : Program :=
  p |>.setFlag Intrinsics.dynamicQubits (.bool dynamicQubits)
    |>.setFlag Intrinsics.dynamicResults (.bool dynamicResults)
    |>.setFlagIfNew Intrinsics.majorVersion (.int 1)
    |>.setFlagIfNew Intrinsics.minorVersion (.int 0)

/-- States what a program needs. -/
def run (p : Program) (c : Context) : Outcome :=
  let qubits := extent p c .qubit
  let results := extent p c .result
  let entry : LogEntry := match p.entryPoint? with
    | some f =>
      ⟨.debug, f.name ++ ": " ++ toString qubits ++ " qubits, " ++ toString results ++ " results"⟩
    | none =>
      ⟨.warn, "Module " ++ p.name ++ " has no entry point, skipping resource attributes"⟩
  ⟨stateFlags (stateNeeds p qubits results) p.managesQubits (acquiresResults p), c, none, [entry]⟩

end Requirements

/-- The pass that states what a program needs. -/
def Pass.requirements : Pass where
  name := "resource-annotation"
  kind := .transformation
  shouldRun _ _ := true
  run := Requirements.run

end QuantumLowering
