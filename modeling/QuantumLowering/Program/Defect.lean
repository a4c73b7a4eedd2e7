import QuantumLowering.Program.Value
/-!
# Structural defects

A `Defect` names a violated condition of well-formed programs and where
it is violated.
-/


namespace QuantumLowering

/-- What is wrong with a program. -/
inductive Defect where
  /-- Two functions have one name. -/
  | duplicateFunction (name : String)
  /-- Two blocks of a function have one name. -/
  | duplicateBlock (function : String) (block : BlockId)
  /-- A block does not end. -/
  | missingTerminator (function : String) (block : BlockId)
  /-- A branch or a phi names a block that the function does not have. -/
  | unknownBlock (function : String) (block : BlockId)
  /-- A value is defined twice. -/
  | duplicateDefinition (value : ValueId)
  /-- A value is used in a function that does not define it. -/
  | undefinedValue (function : String) (value : ValueId)
  /-- A phi follows an instruction of another kind. -/
  | misplacedPhi (function : String) (value : ValueId)
  /-- A phi lists a block that does not lead to its own. -/
  | phiPredecessor (function : String) (value : ValueId) (block : BlockId)
  /-- An instruction has a value but no type for it, or a type but no
  value. -/
  | resultTypeMismatch (function : String) (instruction : String)
  /-- A call passes another number of arguments than its callee takes. -/
  | arityMismatch (callee : String) (expected got : Nat)
deriving DecidableEq

/-- The message of a defect. -/
def Defect.message : Defect → String
  | duplicateFunction name => "Function '" ++ name ++ "' is defined more than once"
  | duplicateBlock f b => "Block " ++ b.text ++ " appears more than once in '" ++ f ++ "'"
  | missingTerminator f b => "Block " ++ b.text ++ " in '" ++ f ++ "' has no terminator"
  | unknownBlock f b => "Unknown block " ++ b.text ++ " referenced in '" ++ f ++ "'"
  | duplicateDefinition v => "Value " ++ v.text ++ " is defined more than once"
  | undefinedValue f v => "Value " ++ v.text ++ " used in '" ++ f ++ "' is not defined there"
  | misplacedPhi f v =>
    "Phi defining " ++ v.text ++ " in '" ++ f ++ "' is not at the start of its block"
  | phiPredecessor f v b =>
    "Phi defining " ++ v.text ++ " in '" ++ f ++ "' lists " ++ b.text ++
      ", which is not a predecessor"
  | resultTypeMismatch f i =>
    "Instruction '" ++ i ++ "' in '" ++ f ++ "' has inconsistent result type"
  | arityMismatch callee expected got =>
    "Call to '" ++ callee ++ "' passes " ++ toString got ++ " arguments, expected " ++
      toString expected

end QuantumLowering
