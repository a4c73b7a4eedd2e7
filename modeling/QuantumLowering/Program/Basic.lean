import QuantumLowering.Program.ControlFlow
/-!
# Programs

A program is a list of functions with flags. It also knows the next value
number that is free, so that new values are named apart from all others.
-/


namespace QuantumLowering

/-- The value of a program flag. -/
inductive FlagValue where
  | bool (b : Bool)
  | int (i : Int)
  | string (s : String)
deriving DecidableEq

/-- The text of a flag's value. A string stands in quotes as it is. -/
def FlagValue.text : FlagValue → String
  | bool b => if b then "true" else "false"
  | int i => toString i
  | string s => "\"" ++ s ++ "\""

/-- A program. -/
structure Program where
  /-- The name of the program. -/
  name : String
  /-- Its functions, definitions and declarations alike. -/
  functions : List Function
  /-- Its flags. -/
  flags : SortedMap String FlagValue
  /-- The next free value number. -/
  nextValue : Nat
deriving DecidableEq

namespace Program

/-- A program without functions and flags. -/
def empty (name : String) : Program := ⟨name, [], .empty, 0⟩

/-- Names a new value. -/
def freshValue (p : Program) : ValueId × Program :=
  (⟨p.nextValue⟩, { p with nextValue := p.nextValue + 1 })

/-- The first function of a name. -/
def function? (p : Program) (name : String) : Option Function :=
  p.functions.find? fun f => f.name = name

/-- Declares a function unless there is one of that name. -/
def declare (p : Program) (name : String) (signature : List Ty) (returnType : Ty) : Program :=
  match p.function? name with
  | some _ => p
  | none => { p with functions := p.functions ++ [.declaration name signature returnType] }

/-- The functions that have a body. -/
def definitions (p : Program) : List Function := p.functions.filter fun f => !f.isDeclaration

/-- Whether a function is a definition marked as entry point. -/
def isEntry (f : Function) : Bool := !f.isDeclaration && f.isEntryPoint

/-- The first definition that is marked as entry point. -/
def entryPoint? (p : Program) : Option Function := p.functions.find? isEntry

/-- Changes the first of some functions that meets a condition. -/
def updateFirst (condition : Function → Bool) (change : Function → Function) :
    List Function → List Function
  | [] => []
  | f :: fs => if condition f then change f :: fs else f :: updateFirst condition change fs

/-- Changes the first function of a name. -/
def updateFunction (p : Program) (name : String) (change : Function → Function) : Program :=
  { p with functions := updateFirst (fun f => f.name = name) change p.functions }

/-- Changes the entry point. -/
def updateEntryPoint (p : Program) (change : Function → Function) : Program :=
  { p with functions := updateFirst isEntry change p.functions }

/-- The value of a flag. -/
def flag? (p : Program) (key : String) : Option FlagValue := p.flags.find? key

/-- Sets a flag. -/
def setFlag (p : Program) (key : String) (value : FlagValue) : Program :=
  { p with flags := p.flags.insert key value }

/-- Sets a flag unless it is set. -/
def setFlagIfNew (p : Program) (key : String) (value : FlagValue) : Program :=
  { p with flags := p.flags.insertIfNew key value }

/-- The instructions of all definitions, each with its function. -/
def instructions (p : Program) : List (Function × Instruction) :=
  p.definitions.flatMap fun f => f.instructions.map fun i => (f, i)

/-- The number of instructions in all definitions. -/
def instructionCount (p : Program) : Nat := p.instructions.length

end Program

end QuantumLowering
