import QuantumLowering.Program.Basic
/-!
# Compliance reports

A rule looks at a program and gives a verdict. A report lists what the
rules of a profile found, one finding for each rule.
-/


namespace QuantumLowering

/-- What a rule says of a program. -/
structure Verdict where
  /-- Whether the program complies. -/
  passed : Bool
  /-- An explanation. -/
  message : Option String
deriving DecidableEq

namespace Verdict

/-- The program complies. -/
def pass : Verdict := ⟨true, none⟩

/-- The program does not comply. -/
def fail (message : String) : Verdict := ⟨false, some message⟩

/-- The program complies if there is nothing to complain of. -/
def passIfNone {α : Type} (complaint : List α → String) : List α → Verdict
  | [] => pass
  | complaints => fail (complaint complaints)

end Verdict

/-- A rule with its name. -/
structure Rule where
  /-- The name of the rule. -/
  name : String
  /-- What the rule says of a program. -/
  judge : Program → Verdict

/-- What a rule found. -/
structure Finding where
  /-- The name of the rule. -/
  rule : String
  /-- Its verdict. -/
  verdict : Verdict
deriving DecidableEq

/-- The line of a finding. -/
def Finding.text (f : Finding) : String :=
  let mark := if f.verdict.passed then "[PASS] " else "[FAIL] "
  let message := match f.verdict.message with
    | some m => ": " ++ m
    | none => ""
  mark ++ f.rule ++ message

/-- What the rules found, in the order of the rules. -/
structure Report where
  /-- The findings. -/
  findings : List Finding
deriving DecidableEq

namespace Report

/-- Whether every rule passed. -/
def passed (r : Report) : Bool := r.findings.all fun f => f.verdict.passed

/-- The findings of the rules that failed. -/
def failures (r : Report) : List Finding := r.findings.filter fun f => !f.verdict.passed

/-- The finding of a rule. -/
def find? (r : Report) (rule : String) : Option Finding := r.findings.find? fun f => f.rule = rule

/-- The text of a report, a line for each finding. -/
def text (r : Report) : String := String.join (r.findings.map fun f => f.text ++ "\n")

end Report

end QuantumLowering
