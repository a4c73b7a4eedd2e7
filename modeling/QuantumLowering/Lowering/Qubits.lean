import QuantumLowering.Intrinsics
import QuantumLowering.Lowering.Sweep
/-!
# Lowering qubits

Qubits acquired at run time get addresses. Acquisitions draw on the pool
of qubits; elements of arrays, copies and phis stand for what their
operands stand for. A release gives its qubits back to the pool if no
address can then be in use twice at a time: only one function manages
qubits, and it neither branches nor calls itself. Acquisitions, releases
and whatever else is known then goes away.
-/


namespace QuantumLowering

namespace QubitLowering

/-! ## What an instruction means for qubits -/

/-- What an instruction means for qubits. -/
inductive Role where
  /-- It acquires a qubit. -/
  | acquire (value : ValueId)
  /-- It acquires an array, of a size if the size is constant. -/
  | acquireArray (value : ValueId) (size : Option Nat)
  /-- It projects an element of an array, known if the index is constant. -/
  | project (value : ValueId) (element : Option (Operand × Nat))
  /-- It releases a qubit or an array. -/
  | release (target : Operand)
  /-- It copies a qubit or an array. -/
  | copy (value : ValueId) (source : Operand)
  /-- It joins qubits or arrays. -/
  | phi (value : ValueId) (sources : List Operand)
  /-- It means nothing for qubits. -/
  | other
deriving DecidableEq

/-- Whether values of a type name qubits. -/
def carriesQubits : Ty → Bool
  | .qubit | .array => true
  | _ => false

/-- The natural number that an operand is, if it is a constant. -/
def constant? (op : Operand) : Option Nat :=
  op.int?.bind fun i => if 0 ≤ i then some i.toNat else none

/-- The array and the index of a projection. -/
def element? : List Operand → Option (Operand × Nat)
  | array :: index :: _ => (constant? index).map fun n => (array, n)
  | _ => none

/-- The role of a call that computes a value. -/
def valueCallRole (value : ValueId) (callee : String) (args : List Operand) : Role :=
  if callee = Intrinsics.acquireQubit then .acquire value
  else if callee = Intrinsics.acquireArray then .acquireArray value (args.head?.bind constant?)
  else if callee = Intrinsics.arrayElement then .project value (element? args)
  else .other

/-- The role of a call that computes no value. -/
def plainCallRole (callee : String) (args : List Operand) : Role :=
  if callee = Intrinsics.releaseQubit ∨ callee = Intrinsics.releaseArray then
    match args with
    | target :: _ => .release target
    | [] => .other
  else .other

/-- The role of an instruction. -/
def role (i : Instruction) : Role :=
  match i.operation, i.result with
  | .call callee args, some value => valueCallRole value callee args
  | .call callee args, none => plainCallRole callee args
  | .copy source, some value => if carriesQubits i.type then .copy value source else .other
  | .phi incoming, some value =>
    if carriesQubits i.type then .phi value (incoming.map Prod.snd) else .other
  | _, none => .other

/-! ## Decisions -/

/-- What lowering decides for an instruction. -/
inductive Decision where
  /-- It acquired a qubit with this address. -/
  | acquired (value : ValueId) (handle : Handle)
  /-- It acquired an array whose addresses start here. -/
  | acquiredArray (value : ValueId) (base : Handle) (size : Nat)
  /-- It acquires an array of unknown size. -/
  | unsized (value : ValueId)
  /-- It released qubits; whether their addresses went back to the pool is
  decided for the function. -/
  | released (resource : Resource)
  /-- Its value stands for known qubits. -/
  | known
  /-- It is a phi whose sources are not all the same known qubits. -/
  | divergent (value : ValueId)
  /-- It stays as it is. -/
  | stays
deriving DecidableEq

namespace Decision

/-- Whether the instruction may go once its value is not used. -/
def isDroppable : Decision → Bool
  | acquired _ _ | acquiredArray _ _ _ | released _ | known => true
  | unsized _ | divergent _ | stays => false

/-- What is said of a decision in a function. -/
def message? (function : String) : Decision → Option String
  | acquired v h => some (v.text ++ " -> qubit " ++ Handle.text h)
  | acquiredArray v base size =>
    some (v.text ++ " -> qubits " ++ Handle.text base ++ ".." ++ toString (base + size))
  | unsized v => some (function ++ ": qubit array " ++ v.text ++ " has no constant size")
  | divergent v => some (function ++ ": phi " ++ v.text ++ " joins different qubits")
  | released _ | known | stays => none

end Decision

/-- The element of a known block of qubits. -/
def elementOf? (t : Tracker) : Option (Operand × Nat) → Option Resource
  | some (array, index) =>
    ((t.resolveAs? .qubit array).filter Resource.isBlock).bind fun r => r.element? index
  | none => none

/-- Decides an instruction by its role. -/
def judgeRole (honored : Bool) (s : Stock) : Role → Draw Decision
  | .acquire v => (s.acquire .qubit v).map (.acquired v)
  | .acquireArray v (some size) =>
    (s.acquireBlock .qubit v size).map fun base => .acquiredArray v base size
  | .acquireArray v none => (s.derive v none).map fun _ => .unsized v
  | .project v element =>
    (s.derive v (elementOf? s.tracker element)).map fun found => if found then .known else .stays
  | .release target =>
    match s.tracker.resolveAs? .qubit target with
    | some r => if honored then (s.release r).map fun _ => .released r else (s, .ok (.released r))
    | none => (s, .ok .stays)
  | .copy v source =>
    (s.derive v (s.tracker.resolveAs? .qubit source)).map fun found =>
      if found then .known else .stays
  | .phi v sources =>
    (s.derive v (s.tracker.joinAs? .qubit sources)).map fun found =>
      if found then .known else .divergent v
  | .other => (s, .ok .stays)

/-- Decides an instruction. -/
def judge (honored : Bool) (s : Stock) (i : Instruction) : Draw Decision :=
  judgeRole honored s (role i)

/-! ## Functions and programs -/

/-- Whether a function never takes one of two ways. -/
def isStraight (f : Function) : Bool :=
  !f.blocks.any fun b => b.terminator.any Terminator.isConditional

/-- Whether a function calls itself. -/
def callsItself (f : Function) : Bool := f.instructions.any fun i => i.isCallTo f.name

/-- Whether releases in a function give qubits back to the pool. -/
def honors (soleManager : Bool) (pool : Pool) (f : Function) : Bool :=
  pool.reuses && soleManager && isStraight f && !callsItself f

/-- The decisions for a function. -/
def plan (soleManager : Bool) (s : Stock) (f : Function) : Lowering.Plan Decision :=
  Lowering.decideAll (judge (honors soleManager s.pool f)) s f.visited

/-- What is said before a function is lowered. -/
def preamble (soleManager : Bool) (s : Stock) (f : Function) : Log :=
  if s.pool.reuses && soleManager && !honors soleManager s.pool f then
    [⟨.debug, f.name ++
      ": branching or recursive control flow, qubit releases will not be reused"⟩]
  else []

/-- The operand for a value that stands for one resource. -/
def address? (t : Tracker) (v : ValueId) : Option Operand :=
  (t.resolve? v).bind Resource.operand?

/-- Lowers a function. -/
def lower (soleManager : Bool) (s : Stock) (f : Function) : Lowering.Lowered :=
  let plan := plan soleManager s f
  let log := preamble soleManager s f ++
    plan.decisions.filterMap fun d => (d.2.message? f.name).map fun m => ⟨.debug, m⟩
  match plan.failure with
  | some e => ⟨f, plan.stock, some e, log⟩
  | none =>
    let droppable := (plan.decisions.filter fun d => d.2.isDroppable).map Prod.fst
    let (g, entry) := Lowering.finish .qubit (address? plan.stock.tracker) droppable f
    ⟨g, plan.stock, none, log ++ [entry]⟩

/-- The number of functions of a program that manage qubits. -/
def managers (p : Program) : Nat := p.definitions.countP Function.managesQubits

/-- Lowers a program. -/
def run (p : Program) (c : Context) : Outcome :=
  let outcome := Lowering.run .qubit (lower (managers p ≤ 1)) p c
  if 1 < managers p ∧ c.qubits.reuses then
    let entry : LogEntry := ⟨.debug, toString (managers p) ++
      " functions manage qubits, releases will not be reused"⟩
    { outcome with log := entry :: outcome.log }
  else outcome

end QubitLowering

/-- The pass that gives addresses to qubits. -/
def Pass.qubitLowering : Pass where
  name := "qubit-allocation"
  kind := .transformation
  shouldRun p _ := p.managesQubits
  run := QubitLowering.run

end QuantumLowering
