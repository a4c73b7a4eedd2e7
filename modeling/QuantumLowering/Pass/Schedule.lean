import QuantumLowering.Lowering.Qubits
import QuantumLowering.Lowering.Requirements
import QuantumLowering.Lowering.Results
import QuantumLowering.Pass.Hook
import QuantumLowering.Program.Verify
/-!
# Schedules

A `Schedule` holds the passes at each hook. It runs them hook by hook and,
at a hook, in the order in which they were put there, until one fails.
-/


namespace QuantumLowering

/-- Goes on from an outcome unless it is a failure. -/
def Outcome.andThen (o : Outcome) (next : Program → Context → Outcome) : Outcome :=
  match o.failure with
  | some _ => o
  | none =>
    let later := next o.program o.context
    { later with log := o.log ++ later.log }

/-- The passes at each hook. -/
structure Schedule where
  /-- The passes at a hook, in running order. -/
  slots : Hook → List Pass
  /-- Whether the program is verified after every pass. -/
  verifyEach : Bool

namespace Schedule

/-- The schedule without passes. -/
def empty : Schedule := ⟨fun _ => [], false⟩

/-- Puts passes at a hook, after those that are there. -/
def extend (s : Schedule) (hook : Hook) (passes : List Pass) : Schedule :=
  { s with slots := fun h => if h = hook then s.slots h ++ passes else s.slots h }

/-- Puts a pass at a hook, after those that are there. -/
def add (s : Schedule) (hook : Hook) (pass : Pass) : Schedule := s.extend hook [pass]

/-- Every pass with its hook, in running order. -/
def pipeline (s : Schedule) : List (Hook × Pass) :=
  Hook.all.flatMap fun h => (s.slots h).map fun pass => (h, pass)

/-- The number of passes. -/
def size (s : Schedule) : Nat := s.pipeline.length

/-- The passes that make every address static: qubits and results get
addresses first, and in the end the program states what it needs. -/
def allocation : Schedule :=
  empty
    |>.add .pipelineStart .qubitLowering
    |>.add .pipelineStart .resultLowering
    |>.add .optimizerLast .requirements

/-! ## Running -/

/-- What follows a pass: the program is verified if so wanted. -/
def finishPass (verifyEach : Bool) (pass : Pass) (p : Program) (c : Context) : Outcome :=
  match if verifyEach then p.verify else .ok () with
  | .error defect => ⟨p, c, some (.verification pass.name defect), []⟩
  | .ok () =>
    ⟨p, c, none, [⟨.debug, "Pass " ++ pass.name ++ " completed, instructions: " ++
      toString p.instructionCount⟩]⟩

/-- Runs a pass if there is anything for it to do. -/
def runPass (verifyEach : Bool) (hook : Hook) (pass : Pass) (p : Program) (c : Context) : Outcome :=
  let place := pass.name ++ " (" ++ hook.name ++ ")"
  if pass.shouldRun p c then
    (Outcome.mk p c none [⟨.debug, "Running pass: " ++ place⟩]).andThen pass.run
      |>.andThen (finishPass verifyEach pass)
  else ⟨p, c, none, [⟨.debug, "Skipping pass: " ++ place⟩]⟩

/-- Runs passes one after the other until one fails. -/
def runAll (verifyEach : Bool) (passes : List (Hook × Pass)) (start : Outcome) : Outcome :=
  passes.foldl (fun o e => o.andThen (runPass verifyEach e.1 e.2)) start

/-- What is said before the first pass. -/
def opening (s : Schedule) (p : Program) : LogEntry :=
  ⟨.info, "Running pass manager with " ++ toString s.size ++ " passes on module with " ++
    toString p.instructionCount ++ " instructions"⟩

/-- What is said after the last pass. -/
def closing (c : Context) : LogEntry :=
  ⟨.info, "Pass manager completed, qubits used: " ++ toString c.qubits.highWater ++
    ", results used: " ++ toString c.results.highWater⟩

/-- Runs the passes of a schedule. -/
def run (s : Schedule) (p : Program) (c : Context) : Outcome :=
  (runAll s.verifyEach s.pipeline ⟨p, c, none, [s.opening p]⟩).andThen fun p c =>
    ⟨p, c, none, [closing c]⟩

/-- The inspection text of a schedule. -/
def inspect (s : Schedule) : String :=
  let entries := s.pipeline.map fun e =>
    Text.inParens [e.1.inspect, Text.quoted e.2.name]
  Text.record "PassManager"
    [("pipeline", Text.inBrackets entries), ("verify_each", Text.truth s.verifyEach)]

end Schedule

end QuantumLowering
