import QuantumLowering.Program.Value
/-!
# Resources

Qubits and results are the resources of a quantum machine. Each kind has
its own addresses, called handles. A `Resource` is one of them or a block
of neighbours, such as an array of qubits.

Handles are words, so a sum of them that does not fit starts again from
zero. No block that a pool hands out reaches that far, but the last address
may stand in a program, and a block may be bound to a value from outside.
-/


namespace QuantumLowering

/-- An address among the resources of one kind. -/
abbrev Handle := Nat

/-- The text of a handle. -/
def Handle.text (h : Handle) : String := "#" ++ toString h

/-- The kinds of resources. -/
inductive ResourceKind where
  | qubit
  | result
deriving DecidableEq

namespace ResourceKind

/-- The text of a kind. -/
def text : ResourceKind → String
  | qubit => "qubit"
  | result => "result"

/-- The type of a value that names a resource of the kind. -/
def valueType : ResourceKind → Ty
  | qubit => .qubit
  | result => .result

/-- The operand that addresses a resource. -/
def operand : ResourceKind → Handle → Operand
  | qubit => .qubit
  | result => .result

/-- The resource of the kind that an operand addresses. -/
def handle? : ResourceKind → Operand → Option Handle
  | qubit, .qubit h => some h
  | result, .result h => some h
  | _, _ => none

end ResourceKind

/-- A resource or a block of neighbouring resources. -/
structure Resource where
  /-- The kind of the resource. -/
  kind : ResourceKind
  /-- The first handle. -/
  handle : Handle
  /-- The number of handles. -/
  width : Nat
deriving DecidableEq

namespace Resource

/-- One resource. -/
def single (kind : ResourceKind) (handle : Handle) : Resource := ⟨kind, handle, 1⟩

/-- A block of resources. -/
def block (kind : ResourceKind) (base : Handle) (width : Nat) : Resource := ⟨kind, base, width⟩

/-- Whether the resource is a block. A block of one cannot be told from a
single resource. -/
def isBlock (r : Resource) : Bool := r.width != 1

/-- The resource at an index of a block. -/
def element? (r : Resource) (index : Nat) : Option Resource :=
  if index < r.width then some (single r.kind ((r.handle + index) % addressLimit)) else none

/-- The addresses that the resource covers. -/
def addresses (r : Resource) : List Handle := List.range' r.handle r.width

/-- How many handles there are from the first one up to where the resource
ends. The end is a word as well: if it does not fit, it comes before the
first handle, and there are none. (A build that checks its sums stops
there.) -/
def count (r : Resource) : Nat := (r.handle + r.width) % addressLimit - r.handle

/-- The handles of the resource, one after the other. -/
def handles (r : Resource) : List Handle := List.range' r.handle r.count

/-- The operand that addresses a single resource. -/
def operand? (r : Resource) : Option Operand :=
  if r.isBlock then none else some (r.kind.operand r.handle)

/-- The text of a resource. -/
def text (r : Resource) : String :=
  if r.isBlock then r.kind.text ++ " block " ++ Handle.text r.handle ++ "+" ++ toString r.width
  else r.kind.text ++ " " ++ Handle.text r.handle

/-- The resource that all of some sources stand for, if every source is
known and there is only one. -/
def join : List (Option Resource) → Option Resource
  | some r :: rest => if rest.all fun s => s = some r then some r else none
  | _ => none

end Resource

end QuantumLowering
