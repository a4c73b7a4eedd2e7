import QuantumLowering.Program.Basic
/-!
# Building functions

A `FunctionBuilder` fills a function block by block, taking the names of
new values from the program. It starts in a block `entry`. The function
joins the program when it is finished; a builder that is dropped leaves
only the value names it took.
-/


namespace QuantumLowering

/-- A function under construction. -/
structure FunctionBuilder where
  /-- The program that the function will join. -/
  program : Program
  /-- The function so far. -/
  function : Function
  /-- The position of the block being filled. -/
  current : Nat
  /-- The number of the next block. -/
  nextBlock : Nat

namespace FunctionBuilder

/-- Starts a definition. -/
def start (program : Program) (name : String) (returnType : Ty) : FunctionBuilder :=
  let declaration := Function.declaration name [] returnType
  ⟨program, { declaration with blocks := [.fresh ⟨0⟩ "entry"] }, 0, 1⟩

/-- Names a new value. -/
def freshValue (b : FunctionBuilder) : ValueId × FunctionBuilder :=
  let (v, program) := b.program.freshValue
  (v, { b with program })

/-- Adds a parameter and names its value. -/
def param (b : FunctionBuilder) (type : Ty) : ValueId × FunctionBuilder :=
  let (v, b) := b.freshValue
  let function := { b.function with
    params := b.function.params ++ [⟨v, type⟩]
    signature := b.function.signature ++ [type] }
  (v, { b with function })

/-- Sets an attribute. -/
def setAttribute (b : FunctionBuilder) (key value : String) : FunctionBuilder :=
  { b with function := b.function.setAttribute key value }

/-- Marks the function as the place where the program starts. -/
def entryPoint (b : FunctionBuilder) : FunctionBuilder :=
  b.setAttribute Function.entryPointAttribute ""

/-- Adds a block without going on in it. -/
def block (b : FunctionBuilder) (label : String) : BlockId × FunctionBuilder :=
  let id : BlockId := ⟨b.nextBlock⟩
  let function := { b.function with blocks := b.function.blocks ++ [.fresh id label] }
  (id, { b with function, nextBlock := b.nextBlock + 1 })

/-- Goes on in a block. An unknown block changes nothing. -/
def switchTo (b : FunctionBuilder) (id : BlockId) : FunctionBuilder :=
  match b.function.blocks.findIdx? fun c => c.id = id with
  | some i => { b with current := i }
  | none => b

/-- The block being filled. -/
def currentBlock? (b : FunctionBuilder) : Option Block := b.function.blocks[b.current]?

/-- Changes the block being filled. -/
def updateCurrent (b : FunctionBuilder) (change : Block → Block) : FunctionBuilder :=
  { b with function := { b.function with blocks := b.function.blocks.modify b.current change } }

/-- Appends an instruction. -/
def push (b : FunctionBuilder) (i : Instruction) : FunctionBuilder :=
  b.updateCurrent fun c => { c with instructions := c.instructions ++ [i] }

/-- Appends an instruction that computes a new value. -/
def pushValue (b : FunctionBuilder) (type : Ty) (operation : Operation) :
    ValueId × FunctionBuilder :=
  let (v, b) := b.freshValue
  (v, b.push ⟨some v, type, operation⟩)

/-- Appends a call that computes no value. -/
def call (b : FunctionBuilder) (callee : String) (args : List Operand) : FunctionBuilder :=
  b.push (.call callee args)

/-- Appends a call that computes a value. -/
def callValue (b : FunctionBuilder) (type : Ty) (callee : String) (args : List Operand) :
    ValueId × FunctionBuilder :=
  b.pushValue type (.call callee args)

/-- Appends a copy. -/
def copy (b : FunctionBuilder) (type : Ty) (source : Operand) : ValueId × FunctionBuilder :=
  b.pushValue type (.copy source)

/-- Appends a phi. -/
def phi (b : FunctionBuilder) (type : Ty) (incoming : List (BlockId × Operand)) :
    ValueId × FunctionBuilder :=
  b.pushValue type (.phi incoming)

/-- Ends the block being filled, in place of an earlier end. -/
def terminate (b : FunctionBuilder) (t : Terminator) : FunctionBuilder :=
  b.updateCurrent fun c => { c with terminator := some t }

/-- Adds the function to the program, in place of a declaration if the
first function of that name is one. -/
def finish (b : FunctionBuilder) : Program :=
  match b.program.function? b.function.name with
  | some f =>
    if f.isDeclaration then b.program.updateFunction b.function.name fun _ => b.function
    else { b.program with functions := b.program.functions ++ [b.function] }
  | none => { b.program with functions := b.program.functions ++ [b.function] }

/-- Gives up the function. -/
def drop (b : FunctionBuilder) : Program := b.program

end FunctionBuilder

end QuantumLowering
