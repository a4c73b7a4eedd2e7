import QuantumLowering.Program.Basic
import QuantumLowering.Program.Defect
/-!
# Structural verification

`Program.verify` checks that a program is well formed and reports the
first defect in a fixed order: function names, then each definition with
its block names, its branches, the values it defines and, block by block,
its instructions and the operands of its terminator. It knows nothing of
profiles.
-/


namespace QuantumLowering

namespace Verify

/-- The first item that the list, or `seen`, already held before it. -/
def firstRepeat? {α : Type} [DecidableEq α] (seen : List α) : List α → Option α
  | [] => none
  | a :: rest => if a ∈ seen then some a else firstRepeat? (a :: seen) rest

/-- Fails with a defect if there is something to report. -/
def rejectSome {α : Type} (found : Option α) (defect : α → Defect) : Except Defect Unit :=
  match found with
  | some a => .error (defect a)
  | none => .ok ()

/-- Checks every item of a list, in order. -/
def checkAll {α : Type} (check : α → Except Defect Unit) : List α → Except Defect Unit
  | [] => .ok ()
  | a :: rest => do
    check a
    checkAll check rest

/-- The blocks that lead to a block. -/
def predecessors (f : Function) (b : BlockId) : List BlockId :=
  (f.blocks.filter fun c => b ∈ c.successors).map Block.id

/-- The value that a defect names for a phi; a phi without one is named by
the largest value number. -/
def phiValue (i : Instruction) : ValueId := i.result.getD ⟨numberLimit - 1⟩

/-- Checks that a block ends and that its successors exist. -/
def checkExits (f : Function) (b : Block) : Except Defect Unit := do
  if b.terminator.isNone then throw (.missingTerminator f.name b.id)
  rejectSome (b.successors.find? fun s => s ∉ f.blocks.map Block.id) (.unknownBlock f.name)

/-- Checks that the values among some operands are defined. -/
def checkUses (f : Function) (operands : List Operand) : Except Defect Unit :=
  rejectSome ((operands.filterMap Operand.value?).find? fun v => v ∉ f.definedValues)
    (.undefinedValue f.name)

/-- Checks a block listed by a phi. -/
def checkIncoming (f : Function) (b : Block) (i : Instruction) (source : BlockId) :
    Except Defect Unit :=
  if source ∉ f.blocks.map Block.id then .error (.unknownBlock f.name source)
  else if source ∉ predecessors f b.id then .error (.phiPredecessor f.name (phiValue i) source)
  else .ok ()

/-- Checks what only one kind of instruction has to meet: a phi its place
and its blocks, a call its number of arguments. -/
def checkOperation (p : Program) (f : Function) (b : Block) (afterOther : Bool)
    (i : Instruction) : Except Defect Unit :=
  match i.operation with
  | .phi incoming => do
    if afterOther then throw (.misplacedPhi f.name (phiValue i))
    checkAll (checkIncoming f b i) (incoming.map Prod.fst)
  | .call callee args =>
    match p.function? callee with
    | some target =>
      if target.arity = args.length then .ok ()
      else .error (.arityMismatch callee target.arity args.length)
    | none => .ok ()
  | .copy _ => .ok ()

/-- Checks an instruction. -/
def checkInstruction (p : Program) (f : Function) (b : Block) (afterOther : Bool)
    (i : Instruction) : Except Defect Unit := do
  if i.result.isSome = decide (i.type = .void) then throw (.resultTypeMismatch f.name i.name)
  checkUses f i.operands
  checkOperation p f b afterOther i

/-- Checks instructions in order. `afterOther` tells whether one that is
no phi came before. -/
def checkInstructions (p : Program) (f : Function) (b : Block) (afterOther : Bool) :
    List Instruction → Except Defect Unit
  | [] => .ok ()
  | i :: rest => do
    checkInstruction p f b afterOther i
    checkInstructions p f b (afterOther || !i.isPhi) rest

/-- Checks the instructions of a block and the operands of its
terminator. -/
def checkBlock (p : Program) (f : Function) (b : Block) : Except Defect Unit := do
  checkInstructions p f b false b.instructions
  checkUses f b.exitOperands

/-- Checks a definition, given the values defined by those before it. -/
def checkDefinition (p : Program) (defined : List ValueId) (f : Function) :
    Except Defect Unit := do
  rejectSome (firstRepeat? [] (f.blocks.map Block.id)) (.duplicateBlock f.name)
  checkAll (checkExits f) f.blocks
  rejectSome (firstRepeat? defined f.definedValues) .duplicateDefinition
  checkAll (checkBlock p f) f.blocks

/-- Checks definitions in order. -/
def checkDefinitions (p : Program) (defined : List ValueId) : List Function → Except Defect Unit
  | [] => .ok ()
  | f :: rest => do
    checkDefinition p defined f
    checkDefinitions p (defined ++ f.definedValues) rest

end Verify

/-- Checks that a program is well formed. -/
def Program.verify (p : Program) : Except Defect Unit := do
  Verify.rejectSome (Verify.firstRepeat? [] (p.functions.map Function.name)) .duplicateFunction
  Verify.checkDefinitions p [] p.definitions

end QuantumLowering
