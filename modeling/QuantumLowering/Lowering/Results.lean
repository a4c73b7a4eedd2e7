import QuantumLowering.Intrinsics
import QuantumLowering.Lowering.Sweep
/-!
# Lowering results

A measurement that returns a result becomes one that writes into a result
given by its address. Copies and phis stand for what their operands stand
for, and uses of known results become addresses.
-/


namespace QuantumLowering

namespace ResultLowering

/-! ## What an instruction means for results -/

/-- What an instruction means for results. -/
inductive Role where
  /-- It measures a qubit. -/
  | measure (value : ValueId) (qubit : Operand)
  /-- It copies a result. -/
  | copy (value : ValueId) (source : Operand)
  /-- It joins results. -/
  | phi (value : ValueId) (sources : List Operand)
  /-- It means nothing for results. -/
  | other
deriving DecidableEq

/-- The role of an operation that computes a result. -/
def operationRole (value : ValueId) : Operation → Role
  | .call callee [qubit] => if callee = Intrinsics.measure then .measure value qubit else .other
  | .call _ _ => .other
  | .copy source => .copy value source
  | .phi incoming => .phi value (incoming.map Prod.snd)

/-- The role of an instruction. -/
def role (i : Instruction) : Role :=
  match i.type, i.result with
  | .result, some value => operationRole value i.operation
  | _, _ => .other

/-! ## Decisions -/

/-- What lowering decides for an instruction. -/
inductive Decision where
  /-- It measures a qubit into the result with this address. -/
  | measured (value : ValueId) (qubit : Operand) (handle : Handle)
  /-- Its value stands for a known result. -/
  | known
  /-- It stays as it is. -/
  | stays
deriving DecidableEq

namespace Decision

/-- The instruction that stands in place of a measurement. -/
def replacement? : Decision → Option Instruction
  | measured _ qubit h => some (.call Intrinsics.measureInto [qubit, .result h])
  | known | stays => none

/-- What is said of a decision. -/
def message? : Decision → Option String
  | measured v _ h => some (v.text ++ " -> result " ++ Handle.text h)
  | known | stays => none

end Decision

/-- Decides an instruction by its role. -/
def judgeRole (s : Stock) : Role → Draw Decision
  | .measure v qubit => (s.acquire .result v).map (.measured v qubit)
  | .copy v source =>
    (s.derive v (s.tracker.resolveAs? .result source)).map fun found =>
      if found then .known else .stays
  | .phi v sources =>
    (s.derive v (s.tracker.joinAs? .result sources)).map fun found =>
      if found then .known else .stays
  | .other => (s, .ok .stays)

/-- Decides an instruction. -/
def judge (s : Stock) (i : Instruction) : Draw Decision := judgeRole s (role i)

/-! ## Functions and programs -/

/-- The decisions for a function. -/
def plan (s : Stock) (f : Function) : Lowering.Plan Decision :=
  Lowering.decideAll judge s f.visited

/-- The operand for a value that stands for one result. -/
def address? (t : Tracker) (v : ValueId) : Option Operand :=
  ((t.resolve? v).filter fun r => r.kind = .result).bind Resource.operand?

/-- Lowers a function. -/
def lower (s : Stock) (f : Function) : Lowering.Lowered :=
  let plan := plan s f
  let log := plan.decisions.filterMap fun d => d.2.message?.map fun m => ⟨.debug, m⟩
  match plan.failure with
  | some e => ⟨f, plan.stock, some e, log⟩
  | none =>
    let replacements := plan.decisions.filterMap fun d => d.2.replacement?.map fun i => (d.1, i)
    let droppable := (plan.decisions.filter fun d => d.2 = .known).map Prod.fst
    let (g, entry) := Lowering.finish .result (address? plan.stock.tracker) droppable
      (f.replaceAt replacements)
    ⟨g, plan.stock, none, log ++ [entry]⟩

/-- Whether an instruction is a measurement that lowering replaces. -/
def isMeasurement (i : Instruction) : Bool :=
  match role i with
  | .measure _ _ => true
  | _ => false

/-- Whether lowering replaces a measurement somewhere in a program. -/
def measures (p : Program) : Bool := p.instructions.any fun e => isMeasurement e.2

/-- Lowers a program. What now measures into addresses gets a declaration. -/
def run (p : Program) (c : Context) : Outcome :=
  let outcome := Lowering.run .result lower p c
  if measures p ∧ outcome.failure.isNone then
    { outcome with
      program := outcome.program.declare Intrinsics.measureInto [.qubit, .result] .void }
  else outcome

end ResultLowering

/-- The pass that gives addresses to results. -/
def Pass.resultLowering : Pass where
  name := "result-allocation"
  kind := .transformation
  shouldRun p _ := p.instructions.any fun e => e.2.isCallTo Intrinsics.measure
  run := ResultLowering.run

end QuantumLowering
