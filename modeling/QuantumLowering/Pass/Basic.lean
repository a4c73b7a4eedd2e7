import QuantumLowering.Context
import QuantumLowering.Failure
import QuantumLowering.Log
import QuantumLowering.Program.Basic
/-!
# Passes

A pass reads or changes a program and updates the context it shares with
other passes. A pass that fails still says how far it came: its outcome
holds the program and the context at that point.
-/


namespace QuantumLowering

/-- Whether a pass changes programs. -/
inductive PassKind where
  /-- It leaves the program as it is. -/
  | analysis
  /-- It changes the program. -/
  | transformation
deriving DecidableEq

/-- The name of a kind. -/
def PassKind.text : PassKind → String
  | analysis => "analysis"
  | transformation => "transformation"

/-- How a run ended. -/
structure Outcome where
  /-- The program at the end. -/
  program : Program
  /-- The context at the end. -/
  context : Context
  /-- Why the run ended early, if it did. -/
  failure : Option Failure
  /-- What the run had to say. -/
  log : Log

/-- A pass. -/
structure Pass where
  /-- The name of the pass. -/
  name : String
  /-- Whether it changes programs. -/
  kind : PassKind
  /-- Whether there is anything for it to do. -/
  shouldRun : Program → Context → Bool
  /-- Runs the pass. -/
  run : Program → Context → Outcome

end QuantumLowering
