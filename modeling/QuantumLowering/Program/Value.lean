import QuantumLowering.Double.Text
/-!
# Values, blocks and operands

Values and blocks are named by numbers. An operand is a value or a
constant; the addresses of qubits and results are constants too, which is
the form that lowered programs use in place of values acquired at run
time.
-/


namespace QuantumLowering

/-- The name of a value. Values are named apart in a whole program, so one
table can follow the values of every function. -/
structure ValueId where
  /-- The number of the value. -/
  number : Nat
deriving DecidableEq

/-- The name of a block within its function. -/
structure BlockId where
  /-- The number of the block. -/
  number : Nat
deriving DecidableEq

/-- The numbers of values and blocks have 32 bits: they stay below this
bound. -/
def numberLimit : Nat := 4294967296

/-- Addresses, sizes and counts of qubits and results have 64 bits: they
stay below this bound. -/
def addressLimit : Nat := 18446744073709551616

namespace ValueId

instance : Ord ValueId := ⟨compareOn number⟩

instance : Std.TransOrd ValueId :=
  inferInstanceAs (Std.TransCmp (compareOn (α := ValueId) (β := Nat) number))

/-- The text of a value. -/
def text (v : ValueId) : String := "%" ++ toString v.number

end ValueId

/-- The text of a block name. -/
def BlockId.text (b : BlockId) : String := "bb" ++ toString b.number

/-- The type of a value. -/
inductive Ty where
  | void
  | qubit
  | result
  | array
  | int
  | bool
  | double
deriving DecidableEq

namespace Ty

/-- Whether values of the type name a qubit or a result. -/
def isResource : Ty → Bool
  | qubit | result => true
  | _ => false

/-- The text of a type inside program text. -/
def text : Ty → String
  | void => "void"
  | qubit => "qubit"
  | result => "result"
  | array => "array"
  | int => "i64"
  | bool => "i1"
  | double => "double"

end Ty

/-- What an instruction or a terminator acts on. -/
inductive Operand where
  /-- A value computed by an instruction or bound to a parameter. -/
  | value (v : ValueId)
  /-- The qubit at an address. -/
  | qubit (address : Nat)
  /-- The result at an address. -/
  | result (address : Nat)
  | int (i : Int)
  | bool (b : Bool)
  | double (d : Double)
  | null
deriving DecidableEq

namespace Operand

/-- The value that the operand reads, if it is one. -/
def value? : Operand → Option ValueId
  | value v => some v
  | _ => none

/-- The integer constant that the operand is, if it is one. -/
def int? : Operand → Option Int
  | int i => some i
  | _ => none

/-- Whether the operand reads no value. -/
def isConstant (o : Operand) : Bool := o.value?.isNone

/-- The text of an operand. -/
def text : Operand → String
  | value v => v.text
  | qubit a => "qubit " ++ toString a
  | result a => "result " ++ toString a
  | int i => toString i
  | bool b => if b then "true" else "false"
  | double d => d.text
  | null => "null"

end Operand

end QuantumLowering
