import QuantumLowering.SortedMap
import QuantumLowering.Resource.Basic
/-!
# Tracking values

A `Tracker` remembers which value stands for which resource. A value may
also be marked as unknown: it was looked at, and no single resource could
be found. Recording never puts a resource in place of another one, but
marking a value unknown and propagating to it go over what was known.
-/


namespace QuantumLowering

/-- What is remembered of a value. -/
inductive Association where
  /-- The value stands for a resource. -/
  | known (r : Resource)
  /-- The value stands for no single resource. -/
  | unknown
deriving DecidableEq

/-- The resource of an association. -/
def Association.resource? : Association → Option Resource
  | known r => some r
  | unknown => none

/-- A value bound to one resource would be bound to another. -/
structure Redefinition where
  /-- The value. -/
  value : ValueId
  /-- What it stands for. -/
  existing : Resource
  /-- What it cannot be bound to. -/
  rejected : Resource
deriving DecidableEq

/-- The message of a redefinition. -/
def Redefinition.message (r : Redefinition) : String :=
  "Value " ++ r.value.text ++ " already tracks " ++ r.existing.text ++
    ", cannot redefine it as " ++ r.rejected.text

/-- A value that acquired handles. -/
structure Acquisition where
  /-- The kind of the handles. -/
  kind : ResourceKind
  /-- The first handle. -/
  first : Handle
  /-- The number of handles. -/
  count : Nat
  /-- The value that names them. -/
  value : ValueId
deriving DecidableEq

/-- Whether an acquisition covers a handle. -/
def Acquisition.covers (a : Acquisition) (kind : ResourceKind) (h : Handle) : Bool :=
  a.kind = kind && a.first ≤ h && h < a.first + a.count

/-- What is known of values. -/
structure Tracker where
  /-- The values looked at. -/
  values : SortedMap ValueId Association
  /-- The acquisitions, the latest first. -/
  acquisitions : List Acquisition
deriving DecidableEq

/-- A tracker after a change, and what comes of the change or why it is
refused. -/
abbrev Tracker.Reply (α : Type) : Type := Tracker × Except Redefinition α

namespace Tracker

/-- The tracker that knows of no value. -/
def empty : Tracker := ⟨.empty, []⟩

/-- The number of values looked at. -/
def size (t : Tracker) : Nat := t.values.size

/-! ## Looking up -/

/-- The resource that a value stands for, if it is known. -/
def resolve? (t : Tracker) (v : ValueId) : Option Resource :=
  (t.values.find? v).bind Association.resource?

/-- The resource that an operand stands for: addresses stand for
themselves. -/
def resolveOperand? (t : Tracker) : Operand → Option Resource
  | .value v => t.resolve? v
  | .qubit h => some (.single .qubit h)
  | .result h => some (.single .result h)
  | _ => none

/-- Whether a value is marked unknown. -/
def isUnknown (t : Tracker) (v : ValueId) : Bool := t.values.find? v = some .unknown

/-- The resource that all of some values stand for. -/
def merge? (t : Tracker) (vs : List ValueId) : Option Resource := Resource.join (vs.map t.resolve?)

/-- The value that acquired a handle last. -/
def definingValue? (t : Tracker) (kind : ResourceKind) (h : Handle) : Option ValueId :=
  (t.acquisitions.find? fun a => a.covers kind h).map Acquisition.value

/-- The values that stand for a resource, in order. -/
def known (t : Tracker) : List (ValueId × Resource) :=
  t.values.entries.filterMap fun e => e.2.resource?.map fun r => (e.1, r)

/-! ## Recording -/

/-- Remembers what a value stands for. -/
def associate (t : Tracker) (v : ValueId) (a : Association) : Tracker :=
  { t with values := t.values.insert v a }

/-- Binds a value to a resource that it did not acquire. -/
def assign (t : Tracker) (v : ValueId) (r : Resource) : Reply Unit :=
  match t.resolve? v with
  | some existing =>
    if existing = r then (t.associate v (.known r), .ok ()) else (t, .error ⟨v, existing, r⟩)
  | none => (t.associate v (.known r), .ok ())

/-- Binds a value to a resource, of which it acquires that many handles. -/
def record (t : Tracker) (v : ValueId) (r : Resource) (count : Nat) : Reply Unit :=
  match t.assign v r with
  | (t, .ok ()) =>
    ({ t with acquisitions := ⟨r.kind, r.handle, count, v⟩ :: t.acquisitions }, .ok ())
  | (t, .error e) => (t, .error e)

/-- Binds a value to a single resource that it acquires. -/
def recordSingle (t : Tracker) (v : ValueId) (kind : ResourceKind) (h : Handle) : Reply Unit :=
  t.record v (.single kind h) 1

/-- Binds a value to a block that it acquires. -/
def recordBlock (t : Tracker) (v : ValueId) (kind : ResourceKind) (base : Handle) (width : Nat) :
    Reply Unit :=
  t.record v (.block kind base width) (Resource.block kind base width).count

/-- Marks a value as standing for no single resource. -/
def markUnknown (t : Tracker) (v : ValueId) : Tracker := t.associate v .unknown

/-- Remembers of one value what is remembered of another; a value never
looked at counts as unknown. -/
def propagate (t : Tracker) (source target : ValueId) : Tracker :=
  t.associate target ((t.values.find? source).getD .unknown)

/-- Binds a value to a resource if there is one, else marks it unknown. -/
def bind (t : Tracker) (v : ValueId) : Option Resource → Reply Unit
  | some r => t.assign v r
  | none => (t.markUnknown v, .ok ())

/-- Binds a value to the resource that all of some values stand for, if
there is one, else marks it unknown. -/
def joinInto (t : Tracker) (target : ValueId) (vs : List ValueId) : Reply (Option Resource) :=
  match t.bind target (t.merge? vs) with
  | (u, .ok ()) => (u, .ok (t.merge? vs))
  | (u, .error e) => (u, .error e)

/-- Forgets everything. -/
def clear (_ : Tracker) : Tracker := empty

end Tracker

end QuantumLowering
