import QuantumLowering.Program.Value
/-!
# Instructions and terminators

An instruction calls a function, copies an operand or joins operands by
the block that control came from. A terminator ends a block.
-/


namespace QuantumLowering

/-- What an instruction does. -/
inductive Operation where
  /-- Calls a function by its name. -/
  | call (callee : String) (args : List Operand)
  /-- Copies an operand into a new value. -/
  | copy (source : Operand)
  /-- Selects an operand by the block that control came from. -/
  | phi (incoming : List (BlockId × Operand))
deriving DecidableEq

namespace Operation

/-- The operands, in order. -/
def operands : Operation → List Operand
  | call _ args => args
  | copy source => [source]
  | phi incoming => incoming.map Prod.snd

/-- Changes every operand. -/
def mapOperands (g : Operand → Operand) : Operation → Operation
  | call callee args => call callee (args.map g)
  | copy source => copy (g source)
  | phi incoming => phi (incoming.map fun e => (e.1, g e.2))

/-- Puts other operands in place of the first ones. -/
def withOperands : Operation → List Operand → Operation
  | call callee args, ops => call callee (ops.take args.length ++ args.drop ops.length)
  | copy source, ops => copy (ops.headD source)
  | phi incoming, ops =>
    phi ((incoming.zip ops).map (fun e => (e.1.1, e.2)) ++ incoming.drop ops.length)

end Operation

/-- An instruction and the value that it computes, if any. -/
structure Instruction where
  /-- The value computed. -/
  result : Option ValueId
  /-- The type of the value, `void` without one. -/
  type : Ty
  /-- What the instruction does. -/
  operation : Operation
deriving DecidableEq

namespace Instruction

/-- A call that computes no value. -/
def call (callee : String) (args : List Operand) : Instruction := ⟨none, .void, .call callee args⟩

/-- The called function, for calls. -/
def callee? (i : Instruction) : Option String :=
  match i.operation with
  | .call callee _ => some callee
  | _ => none

/-- Whether the instruction calls a function of this name. -/
def isCallTo (i : Instruction) (name : String) : Bool := i.callee? == some name

/-- The arguments of a call; other instructions have none. -/
def args (i : Instruction) : List Operand :=
  match i.operation with
  | .call _ args => args
  | _ => []

/-- Whether the instruction is a copy. -/
def isCopy (i : Instruction) : Bool :=
  match i.operation with
  | .copy _ => true
  | _ => false

/-- Whether the instruction is a phi. -/
def isPhi (i : Instruction) : Bool :=
  match i.operation with
  | .phi _ => true
  | _ => false

/-- The operands, in order. -/
def operands (i : Instruction) : List Operand := i.operation.operands

/-- Changes every operand. -/
def mapOperands (g : Operand → Operand) (i : Instruction) : Instruction :=
  { i with operation := i.operation.mapOperands g }

/-- A short name for messages: the callee of a call. -/
def name (i : Instruction) : String :=
  match i.operation with
  | .call callee _ => callee
  | .copy _ => "copy"
  | .phi _ => "phi"

end Instruction

/-- The end of a block. -/
inductive Terminator where
  /-- Returns from the function. -/
  | ret (value : Option Operand)
  /-- Goes on with a block. -/
  | branch (target : BlockId)
  /-- Goes on with one of two blocks. -/
  | condBranch (condition : Operand) (thenBlock elseBlock : BlockId)
  /-- Is never reached. -/
  | unreachable
deriving DecidableEq

namespace Terminator

/-- The blocks that control may go on with, in branch order. -/
def successors : Terminator → List BlockId
  | branch target => [target]
  | condBranch _ thenBlock elseBlock => [thenBlock, elseBlock]
  | ret _ | unreachable => []

/-- The operands, in order. -/
def operands : Terminator → List Operand
  | ret (some op) => [op]
  | condBranch condition _ _ => [condition]
  | ret none | branch _ | unreachable => []

/-- Changes every operand. -/
def mapOperands (g : Operand → Operand) : Terminator → Terminator
  | ret value => ret (value.map g)
  | condBranch condition thenBlock elseBlock => condBranch (g condition) thenBlock elseBlock
  | branch target => branch target
  | unreachable => unreachable

/-- Whether control may go two ways. -/
def isConditional : Terminator → Bool
  | condBranch _ _ _ => true
  | _ => false

end Terminator

end QuantumLowering
