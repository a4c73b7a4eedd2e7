import QuantumLowering.Compliance.Validator
import QuantumLowering.Configuration.Basic
import QuantumLowering.Pass.Schedule
/-!
# Profiles

A `Profile` lowers one program for a target and checks whether the result
complies. It is used once: after it was applied it can only validate.
-/


namespace QuantumLowering

/-- How far a profile is. -/
inductive Stage where
  /-- It was not applied yet. -/
  | configured
  /-- It was applied. -/
  | applied
  /-- It was applied and asked whether a program complies. -/
  | validated
deriving DecidableEq

namespace Stage

/-- The name of a stage. -/
def name : Stage → String
  | configured => "configured"
  | applied => "applied"
  | validated => "validated"

/-- The inspection text of a stage. -/
def inspect : Stage → String
  | configured => "Configured"
  | applied => "Applied"
  | validated => "Validated"

end Stage

/-- A pipeline text that a profile does without. -/
structure HookDiagnostic where
  /-- The hook it was for. -/
  hook : Hook
  /-- The text. -/
  text : String
  /-- What is wrong with it. -/
  failure : Failure
deriving DecidableEq

/-- A profile. -/
structure Profile where
  /-- Whether the program is verified after every pass. -/
  debug : Bool
  /-- The target, if there is one. -/
  target : Option Target
  /-- What its passes share. -/
  context : Context
  /-- Its passes. -/
  schedule : Schedule
  /-- Its rules. -/
  validator : Validator
  /-- How far it is. -/
  stage : Stage
  /-- The pipeline texts it does without. -/
  diagnostics : List HookDiagnostic

namespace Profile

/-- A profile with the passes that make every address static, without
rules. -/
def new (debug : Bool) (target : Option Target) (qubits results : Pool) (tracker : Tracker) :
    Profile where
  debug
  target
  context := .start qubits results tracker
  schedule := { Schedule.allocation with verifyEach := debug }
  validator := .empty
  stage := .configured
  diagnostics := []

/-- The same with pools that reuse nothing and hold what the target has. -/
def withDefaults (debug : Bool) (target : Option Target) : Profile :=
  new debug target (.forTarget target .qubit .noReuse) (.forTarget target .result .noReuse) .empty

/-! ## Applying -/

/-- A profile and a program after the profile was applied to it. -/
structure Application where
  /-- The profile. -/
  profile : Profile
  /-- The program. -/
  program : Program
  /-- Why the passes did not all run, if so. -/
  failure : Option Failure
  /-- What there was to say. -/
  log : Log

/-- What is said before a profile is applied. -/
def opening (p : Profile) : LogEntry :=
  let goal := match p.target with
    | some t => " for " ++ t.name
    | none => ""
  ⟨.info, "Applying profile" ++ goal ++ " with " ++ toString p.schedule.size ++ " passes"⟩

/-- Runs the passes on a program. A profile is applied only once. -/
def apply (p : Profile) (program : Program) : Application :=
  match p.stage with
  | .configured =>
    let outcome := p.schedule.run program p.context
    ⟨{ p with stage := .applied, context := outcome.context }, outcome.program, outcome.failure,
      p.opening :: outcome.log⟩
  | _ => ⟨p, program, some .alreadyApplied, []⟩

/-! ## Checking -/

/-- Whether a program is well formed. -/
def verify (program : Program) : Bool × Log :=
  match program.verify with
  | .ok () => (true, [])
  | .error defect =>
    (false, [⟨.warn, "Module " ++ program.name ++ " failed verification: " ++ defect.message⟩])

/-- The profile after it was asked whether a program complies. -/
def afterValidation (p : Profile) : Profile :=
  match p.stage with
  | .applied => { p with stage := .validated }
  | _ => p

/-- What is said of a rule that failed. -/
def failureEntry (f : Finding) : LogEntry :=
  ⟨.info, "Rule " ++ f.rule ++ " failed: " ++ f.verdict.message.getD "no details"⟩

/-- Asks every rule whether a program complies. -/
def validate (p : Profile) (program : Program) : Profile × Report × Log :=
  let (report, log) := p.validator.run program
  (p.afterValidation, report, log ++ report.failures.map failureEntry)

/-- The inspection text of a profile. -/
def inspect (p : Profile) : String :=
  Text.record "Profile"
    [("debug", Text.truth p.debug),
      ("target", Text.optional Target.inspect p.target),
      ("state", p.stage.inspect),
      ("pass_manager", p.schedule.inspect),
      ("validator", p.validator.inspect),
      ("context", p.context.inspect)]

end Profile

end QuantumLowering
