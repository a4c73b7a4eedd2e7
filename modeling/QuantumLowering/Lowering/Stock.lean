import QuantumLowering.Context
import QuantumLowering.Failure
/-!
# Drawing on a stock

Lowering acquires, derives and releases resources by drawing on a stock.
A draw that fails still leaves a stock: what happened before it failed
stays.
-/


namespace QuantumLowering

/-- The stock after a draw, and what was drawn or why nothing was. -/
abbrev Draw (α : Type) : Type := Stock × Except Failure α

/-- What an operand stands for, if it is a resource of a kind. -/
def Tracker.resolveAs? (t : Tracker) (kind : ResourceKind) (op : Operand) : Option Resource :=
  (t.resolveOperand? op).filter fun r => r.kind = kind

/-- What all of some operands stand for, if it is one resource of a
kind. -/
def Tracker.joinAs? (t : Tracker) (kind : ResourceKind) (ops : List Operand) : Option Resource :=
  (Resource.join (ops.map t.resolveOperand?)).filter fun r => r.kind = kind

namespace Stock

/-- Records handles that a pool handed out, or why it did not. -/
def keep (s : Stock) (kind : ResourceKind) (record : Handle → Tracker.Reply Unit) :
    Pool.Reply Handle → Draw Handle
  | (pool, .error e) => (⟨pool, s.tracker⟩, .error (.allocation kind e))
  | (pool, .ok h) =>
    match record h with
    | (tracker, .ok ()) => (⟨pool, tracker⟩, .ok h)
    | (tracker, .error e) => (⟨pool, tracker⟩, .error (.redefinition e))

/-- Acquires a resource for a value. -/
def acquire (s : Stock) (kind : ResourceKind) (v : ValueId) : Draw Handle :=
  s.keep kind (s.tracker.recordSingle v kind) s.pool.allocate

/-- Acquires a block of resources for a value. -/
def acquireBlock (s : Stock) (kind : ResourceKind) (v : ValueId) (size : Nat) : Draw Handle :=
  s.keep kind (fun base => s.tracker.recordBlock v kind base size) (s.pool.allocateBlock size)

/-- Binds a value to a resource that another value acquired, or marks it
unknown; tells whether there is a resource. -/
def derive (s : Stock) (v : ValueId) (r : Option Resource) : Draw Bool :=
  match s.tracker.bind v r with
  | (tracker, .ok ()) => (⟨s.pool, tracker⟩, .ok r.isSome)
  | (tracker, .error e) => (⟨s.pool, tracker⟩, .error (.redefinition e))

/-- Gives the handles of a resource back. -/
def release (s : Stock) (r : Resource) : Draw Unit :=
  match s.pool.releaseBlock r.handle r.count with
  | (pool, .ok ()) => (⟨pool, s.tracker⟩, .ok ())
  | (pool, .error e) => (⟨pool, s.tracker⟩, .error (.allocation r.kind e))

end Stock

/-- Goes on with what was drawn. -/
def Draw.map {α β : Type} (g : α → β) (d : Draw α) : Draw β := (d.1, d.2.map g)

end QuantumLowering
