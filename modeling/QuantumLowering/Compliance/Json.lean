import QuantumLowering.Compliance.Report
import QuantumLowering.Json.Basic
/-!
# Reports as JSON

A report is written with its findings, its text and what follows from
them: whether every rule passed and which rules failed.
-/


namespace QuantumLowering

/-- The JSON form of a finding. -/
def Finding.toJson (f : Finding) : Json :=
  .object [("name", .string f.rule), ("passed", .bool f.verdict.passed),
    ("message", .ofOption .string f.verdict.message)]

/-- The JSON form of a report. -/
def Report.toJson (r : Report) : Json :=
  .object [("results", .ofList Finding.toJson r.findings), ("passed", .bool r.passed),
    ("text", .string r.text), ("len", .nat r.findings.length),
    ("empty", .bool r.findings.isEmpty),
    ("failures", .ofList (fun f => .string f.rule) r.failures)]

end QuantumLowering
