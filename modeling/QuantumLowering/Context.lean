import QuantumLowering.Resource.Pool
import QuantumLowering.Resource.Tracker
/-!
# Contexts

A `Context` is what the passes of a pipeline share: a pool for each kind
of resource, the tracker of values, and properties in which a pass leaves
data for later ones.
-/


namespace QuantumLowering

/-- Data that passes leave for later passes, one slot for each kind of
data. -/
structure Properties where
  /-- A number. -/
  number : Option Nat
  /-- A text. -/
  text : Option String
  /-- A list of notes. -/
  notes : Option (List String)
deriving DecidableEq

namespace Properties

/-- No property. -/
def none : Properties := ⟨.none, .none, .none⟩

/-- The number of slots in use. -/
def size (p : Properties) : Nat :=
  p.number.isSome.toNat + p.text.isSome.toNat + p.notes.isSome.toNat

end Properties

/-- A pool of one kind together with the tracker: what a pass draws on
when it lowers resources of the kind. -/
structure Stock where
  /-- The pool. -/
  pool : Pool
  /-- The tracker. -/
  tracker : Tracker

/-- What the passes of a pipeline share. -/
structure Context where
  /-- The pool of qubits. -/
  qubits : Pool
  /-- The pool of results. -/
  results : Pool
  /-- The tracker. -/
  tracker : Tracker
  /-- What passes left for later ones. -/
  properties : Properties

namespace Context

/-- A context before any pass, with its pools and tracker. -/
def start (qubits results : Pool) (tracker : Tracker) : Context :=
  ⟨qubits, results, tracker, .none⟩

/-- The context with unbounded pools that reuse nothing. -/
def default : Context := start (.fresh .noReuse none) (.fresh .noReuse none) .empty

/-- The pool of a kind. -/
def pool (c : Context) : ResourceKind → Pool
  | .qubit => c.qubits
  | .result => c.results

/-- Puts a pool in place of the one of a kind. -/
def withPool (c : Context) (kind : ResourceKind) (pool : Pool) : Context :=
  match kind with
  | .qubit => { c with qubits := pool }
  | .result => { c with results := pool }

/-- What a pass draws on for a kind. -/
def stock (c : Context) (kind : ResourceKind) : Stock := ⟨c.pool kind, c.tracker⟩

/-- Puts back what a pass drew on. -/
def withStock (c : Context) (kind : ResourceKind) (s : Stock) : Context :=
  { c.withPool kind s.pool with tracker := s.tracker }

/-- The inspection text of a context. -/
def inspect (c : Context) : String :=
  Text.record "PassContext"
    [("qubits", c.qubits.inspect),
      ("results", c.results.inspect),
      ("tracked_values", toString c.tracker.size),
      ("custom_properties", toString c.properties.size)]

end Context

end QuantumLowering
