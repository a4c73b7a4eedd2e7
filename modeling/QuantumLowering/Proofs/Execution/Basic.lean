import QuantumLowering.Intrinsics
import QuantumLowering.Proofs.ControlFlow.Walk
/-!
# Executing a walk

What a function does on a walk through its blocks: which calls it makes, in
order, and with what. Constants stand for themselves; what a call computes
is named by its value and by how many blocks the walk went through before,
since a cycle may compute a value again. Copies and phis compute nothing
new, and the phis of a block read what was there when control came to it.
An execution is stuck where a value is read that was not computed before,
or where a phi does not list the block that control came from.
-/


namespace QuantumLowering

/-- What an operand stands for during an execution. -/
inductive Datum where
  /-- A constant. -/
  | constant (o : Operand)
  /-- What was passed for a parameter. -/
  | param (v : ValueId)
  /-- What a call computed in a visit of its block. -/
  | computed (v : ValueId) (visit : ℕ)
deriving DecidableEq

namespace Execution

/-- A call that was made. -/
structure Event where
  /-- The function that was called. -/
  callee : String
  /-- What was passed. -/
  args : List Datum
  /-- The value that the call computed, if any. -/
  result : Option ValueId
deriving DecidableEq

/-- What values stand for, where they were computed. -/
abbrev Values : Type := ValueId → Option Datum

/-- What an operand stands for. -/
def eval (values : Values) : Operand → Option Datum
  | .value v => values v
  | o => some (.constant o)

/-- How far an execution came. -/
structure State where
  /-- What values stand for. -/
  values : Values
  /-- The calls made, in order. -/
  events : List Event

/-- Computes a value, if there is one to compute. -/
def State.set (s : State) (result : Option ValueId) (d : ValueId → Datum) : State :=
  match result with
  | some v => { s with values := fun u => if u = v then some (d v) else s.values u }
  | none => s

/-- Makes a call. -/
def State.record (s : State) (e : Event) : State := { s with events := s.events ++ [e] }

/-- How control came to a block. -/
structure Arrival where
  /-- The block it came from. -/
  source : Option BlockId
  /-- The number of blocks it went through before. -/
  visit : ℕ
  /-- What values stood for. -/
  values : Values

/-- Executes an instruction. -/
def step (a : Arrival) (s : State) (i : Instruction) : Option State :=
  match i.operation with
  | .call callee args =>
    (args.mapM (eval s.values)).map fun ds =>
      (s.set i.result fun v => .computed v a.visit).record ⟨callee, ds, i.result⟩
  | .copy source => (eval s.values source).map fun d => s.set i.result fun _ => d
  | .phi incoming =>
    ((a.source.bind fun b => incoming.lookup b).bind (eval a.values)).map fun d =>
      s.set i.result fun _ => d

end Execution

namespace Function

open Execution

/-- The name of the block at a position. -/
def idAt? (f : Function) (k : ℕ) : Option BlockId := (f.blocks[k]?).map Block.id

/-- Where an execution starts: only parameters stand for something. -/
def start (f : Function) : State :=
  ⟨fun v => if v ∈ f.params.map Param.value then some (.param v) else none, []⟩

/-- How control comes to a block at the end of a walk. -/
def arrival (f : Function) (w : List ℕ) (s : State) : Arrival :=
  ⟨w.head?.bind f.idAt?, w.length, s.values⟩

/-- **Executes a walk**, given by positions, the latest first. -/
def execute (f : Function) : List ℕ → Option State
  | [] => some f.start
  | k :: w =>
    (f.execute w).bind fun s =>
      (f.blocks[k]?).bind fun b => b.instructions.foldlM (step (f.arrival w s)) s

/-- What the terminator at the end of a walk reads. -/
def exitData (f : Function) (w : List ℕ) (s : State) : Option (List Datum) :=
  (w.head?.bind fun k => f.blocks[k]?).bind fun b => b.exitOperands.mapM (eval s.values)

end Function

end QuantumLowering
