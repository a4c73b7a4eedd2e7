import QuantumLowering.Pipeline.Parser
import QuantumLowering.Program.Defect
import QuantumLowering.Resource.Pool
import QuantumLowering.Resource.Tracker
/-!
# Failures

A `Failure` is why a profile could not be built or a pass could not run.
-/


namespace QuantumLowering

/-- Why something could not be done. -/
inductive Failure where
  /-- The program is not well formed. -/
  | program (defect : Defect)
  /-- A pool refused. -/
  | allocation (kind : ResourceKind) (error : PoolError)
  /-- A value would have been bound to another resource. -/
  | redefinition (redefinition : Redefinition)
  /-- A rule of this name is there already. -/
  | duplicateRule (name : String)
  /-- There is no rule of this name. -/
  | unknownRule (name : String)
  /-- There is no pass of this name. -/
  | unknownPass (name : String)
  /-- A text is no pipeline. -/
  | pipeline (error : Pipeline.SyntaxError)
  /-- The profile was applied before. -/
  | alreadyApplied
  /-- A pass left a program that is not well formed. -/
  | verification (pass : String) (defect : Defect)
  /-- A pass gave up. -/
  | passFailed (pass : String) (reason : String)
  /-- The parts of a configuration do not go together. -/
  | configuration (reason : String)
deriving DecidableEq

/-- The message of a failure. -/
def Failure.message : Failure → String
  | program defect => "IR error: " ++ defect.message
  | allocation kind error => kind.text ++ " allocation failed: " ++ error.message
  | redefinition r => r.message
  | duplicateRule name => "Compliance rule '" ++ name ++ "' is already registered"
  | unknownRule name => "Unknown compliance rule '" ++ name ++ "'"
  | unknownPass name => "Unknown pass '" ++ name ++ "'"
  | pipeline error => "Invalid pipeline: " ++ error.message
  | alreadyApplied => "Profile has already been applied; use a fresh profile per module"
  | verification pass defect =>
    "Module failed verification after pass '" ++ pass ++ "': " ++ defect.message
  | passFailed pass reason => "Pass '" ++ pass ++ "' failed: " ++ reason
  | configuration reason => "Invalid configuration: " ++ reason

end QuantumLowering
