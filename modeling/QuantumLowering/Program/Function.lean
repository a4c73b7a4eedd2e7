import QuantumLowering.SortedMap
import QuantumLowering.Program.Instruction
/-!
# Functions

A function with blocks is a definition, one without is a declaration; the
intrinsics of a program appear as declarations.
-/


namespace QuantumLowering

/-- A block: instructions in order and the terminator, absent only while
the block is being built. -/
structure Block where
  /-- The name of the block within its function. -/
  id : BlockId
  /-- A label for readers. -/
  label : String
  /-- The instructions before the terminator. -/
  instructions : List Instruction
  /-- The end of the block. -/
  terminator : Option Terminator
deriving DecidableEq

namespace Block

/-- A block without instructions and terminator. -/
def fresh (id : BlockId) (label : String) : Block := ⟨id, label, [], none⟩

/-- The blocks that control may go on with. -/
def successors (b : Block) : List BlockId :=
  match b.terminator with
  | some t => t.successors
  | none => []

/-- The operands of the terminator. -/
def exitOperands (b : Block) : List Operand :=
  match b.terminator with
  | some t => t.operands
  | none => []

/-- Changes every operand of the block. -/
def mapOperands (g : Operand → Operand) (b : Block) : Block :=
  { b with
    instructions := b.instructions.map (Instruction.mapOperands g)
    terminator := b.terminator.map (Terminator.mapOperands g) }

end Block

/-- A parameter of a definition. -/
structure Param where
  /-- The value bound to it in the body. -/
  value : ValueId
  /-- Its type. -/
  type : Ty
deriving DecidableEq

/-- A function. -/
structure Function where
  /-- The name of the function. -/
  name : String
  /-- The parameters of a definition. -/
  params : List Param
  /-- The parameter types. -/
  signature : List Ty
  /-- The type of what the function returns. -/
  returnType : Ty
  /-- The body. -/
  blocks : List Block
  /-- Attributes of the function. -/
  attributes : SortedMap String String
deriving DecidableEq

namespace Function

/-- The attribute that marks where a program starts. -/
def entryPointAttribute : String := "entry_point"

/-- A declaration. -/
def declaration (name : String) (signature : List Ty) (returnType : Ty) : Function :=
  ⟨name, [], signature, returnType, [], .empty⟩

/-- Whether the function has no body. -/
def isDeclaration (f : Function) : Bool := f.blocks.isEmpty

/-- Whether the function is marked as the place where the program starts. -/
def isEntryPoint (f : Function) : Bool := f.attributes.contains entryPointAttribute

/-- The number of arguments that a call passes. -/
def arity (f : Function) : Nat :=
  if f.isDeclaration then f.signature.length else f.params.length

/-- The value of an attribute. -/
def attribute? (f : Function) (key : String) : Option String := f.attributes.find? key

/-- Sets an attribute. -/
def setAttribute (f : Function) (key value : String) : Function :=
  { f with attributes := f.attributes.insert key value }

/-- The first block of a name. -/
def block? (f : Function) (id : BlockId) : Option Block := f.blocks.find? fun b => b.id = id

/-- The instructions in the order of the blocks. -/
def instructions (f : Function) : List Instruction := f.blocks.flatMap Block.instructions

/-- The operands of the terminators in the order of the blocks. -/
def exitOperands (f : Function) : List Operand := f.blocks.flatMap Block.exitOperands

/-- Every operand of the function. -/
def operands (f : Function) : List Operand :=
  f.blocks.flatMap fun b => b.instructions.flatMap Instruction.operands ++ b.exitOperands

/-- The values that the function defines: its parameters and the results
of its instructions. -/
def definedValues (f : Function) : List ValueId :=
  f.params.map Param.value ++ f.instructions.filterMap Instruction.result

/-- Changes every operand of the function. -/
def mapOperands (g : Operand → Operand) (f : Function) : Function :=
  { f with blocks := f.blocks.map (Block.mapOperands g) }

end Function

end QuantumLowering
