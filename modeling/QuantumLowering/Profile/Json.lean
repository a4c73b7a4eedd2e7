import QuantumLowering.Configuration.Document
import QuantumLowering.Profile.Basic
/-!
# Profiles as JSON

A profile is summed up by its parts: what it is for, its passes by name,
its rules by name, and the pipeline texts it does without.
-/


namespace QuantumLowering

/-- The JSON form of a pool's state. -/
def Pool.stateToJson (p : Pool) : Json :=
  .object [("max_used", .nat p.highWater), ("live", .nat p.live), ("reuses", .bool p.reuses)]

/-- The JSON form of a diagnostic. -/
def HookDiagnostic.toJson (d : HookDiagnostic) : Json :=
  .object [("extension_point", .string d.hook.name), ("pipeline", .string d.text),
    ("error", .string d.failure.message)]

/-- The JSON form of the passes of a schedule, each with its hook. -/
def Schedule.toJson (s : Schedule) : Json :=
  .ofList (fun e => .array [.string e.1.name, .string e.2.name]) s.pipeline

/-- The summary of a profile as JSON. -/
def Profile.toJson (p : Profile) : Json :=
  .object [("debug", .bool p.debug), ("target", .ofOption Target.toJson p.target),
    ("state", .string p.stage.name), ("pipeline", p.schedule.toJson),
    ("passes", .nat p.schedule.size), ("no_passes", .bool (p.schedule.size == 0)),
    ("verify_each", .bool p.schedule.verifyEach),
    ("rules", .ofList .string p.validator.names),
    ("diagnostics", .ofList HookDiagnostic.toJson p.diagnostics),
    ("qubits", p.context.qubits.stateToJson), ("results", p.context.results.stateToJson)]

end QuantumLowering
