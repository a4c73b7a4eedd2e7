import QuantumLowering.Resource.Basic
import QuantumLowering.Text.Quoted
import Std.Data.TreeSet
/-!
# Pools

A `Pool` hands out the handles of one kind. It counts up and, if its
policy is to reuse, hands out released handles again, the smallest first.
-/


namespace QuantumLowering

/-- What a pool does with released handles. -/
inductive ReusePolicy where
  /-- Every handle is a new one; none can be released. -/
  | noReuse
  /-- Released handles are handed out again, the smallest first. -/
  | reuse
deriving DecidableEq

namespace ReusePolicy

/-- The name of a policy. -/
def name : ReusePolicy → String
  | noReuse => "no-reuse"
  | reuse => "reuse"

/-- The policy of a name. -/
def ofName? (s : String) : Option ReusePolicy := [noReuse, reuse].find? fun p => p.name = s

/-- The inspection text of a policy. -/
def inspect : ReusePolicy → String
  | noReuse => "NoReuse"
  | reuse => "Reuse"

end ReusePolicy

/-- Why a pool refuses. -/
inductive PoolError where
  /-- The handle was never handed out. -/
  | neverIssued (handle : Handle)
  /-- The handle is free already. -/
  | alreadyReleased (handle : Handle)
  /-- As many handles as the pool may hold were handed out. -/
  | exhausted (capacity : Nat)
  /-- The pool takes no handles back. -/
  | releaseUnsupported (handle : Handle)
deriving DecidableEq

/-- The message of a refusal. -/
def PoolError.message : PoolError → String
  | neverIssued h => "Handle " ++ Handle.text h ++ " was never issued"
  | alreadyReleased h => "Handle " ++ Handle.text h ++ " is already released"
  | exhausted capacity =>
    "Resource pool exhausted: capacity of " ++ toString capacity ++ " handles reached"
  | releaseUnsupported h =>
    "Handle " ++ Handle.text h ++ " cannot be released: this manager never reuses handles"

/-- The order of handles. -/
def Handle.order : Handle → Handle → Ordering := @compare Nat instOrdNat

instance : Std.TransCmp Handle.order := inferInstanceAs (Std.TransCmp (@compare Nat instOrdNat))

instance : Std.LawfulEqCmp Handle.order :=
  inferInstanceAs (Std.LawfulEqCmp (@compare Nat instOrdNat))

/-- A set of handles. -/
abbrev Handles : Type := Std.TreeSet Handle Handle.order

/-- A pool of handles. -/
structure Pool where
  /-- What happens to released handles. -/
  policy : ReusePolicy
  /-- The number of handles the pool may hold, if it is bounded. -/
  capacity : Option Nat
  /-- The number of handles that were ever handed out. -/
  highWater : Nat
  /-- The released handles. -/
  free : Handles

/-- A pool after a call, and what it answers or why it refuses. -/
abbrev Pool.Reply (α : Type) : Type := Pool × Except PoolError α

namespace Pool

/-- A pool that has not handed out anything. -/
def fresh (policy : ReusePolicy) (capacity : Option Nat) : Pool := ⟨policy, capacity, 0, ∅⟩

/-- Whether released handles are handed out again. -/
def reuses (p : Pool) : Bool := p.policy = .reuse

/-- The number of handles that the pool can hold. It is counted in a word, so
a pool stops before the addresses end, bounded or not. -/
def limit (p : Pool) : Nat := min (p.capacity.getD (addressLimit - 1)) (addressLimit - 1)

/-- The number of handles that are handed out and not released. -/
def live (p : Pool) : Nat := p.highWater - p.free.size

/-- Hands out a block of new handles and names the first. An empty block
takes none. -/
def allocateBlock (p : Pool) (size : Nat) : Reply Handle :=
  if p.highWater + size ≤ p.limit then
    ({ p with highWater := p.highWater + size }, .ok p.highWater)
  else (p, .error (.exhausted p.limit))

/-- Hands out a handle: the smallest free one, else a new one. -/
def allocate (p : Pool) : Reply Handle :=
  match p.policy, p.free.min? with
  | .reuse, some h => ({ p with free := p.free.erase h }, .ok h)
  | _, _ => p.allocateBlock 1

/-- Takes a handle back. -/
def release (p : Pool) (h : Handle) : Reply Unit :=
  if p.highWater ≤ h then (p, .error (.neverIssued h))
  else if p.free.contains h then (p, .error (.alreadyReleased h))
  else
    match p.policy with
    | .noReuse => (p, .error (.releaseUnsupported h))
    | .reuse => ({ p with free := p.free.insert h }, .ok ())

/-- Takes a block of handles back one by one, up to the first that is
refused. -/
def releaseBlock (p : Pool) (base : Handle) : Nat → Reply Unit
  | 0 => (p, .ok ())
  | size + 1 =>
    match p.release base with
    | (p, .ok ()) => p.releaseBlock (base + 1) size
    | (p, .error e) => (p, .error e)

/-- Forgets every handle. -/
def reset (p : Pool) : Pool := { p with highWater := 0, free := ∅ }

/-- The inspection text of a pool. -/
def inspect (p : Pool) : String :=
  Text.record "BasicAllocationManager"
    [("policy", p.policy.inspect),
      ("capacity", Text.optional toString p.capacity),
      ("high_water", toString p.highWater),
      ("free", Text.inBraces (p.free.toList.map fun h => "Handle(" ++ toString h ++ ")"))]

end Pool

end QuantumLowering
