import QuantumLowering.Compliance.Rules
import QuantumLowering.Failure
import QuantumLowering.Log
/-!
# Validators

A `Validator` is a list of rules with different names. It asks every rule,
whatever the others say.
-/


namespace QuantumLowering

/-- Rules, in the order in which they are asked. -/
structure Validator where
  /-- The rules. -/
  rules : List Rule

namespace Validator

/-- The validator without rules. -/
def empty : Validator := ⟨[]⟩

/-- The validator of the base profile. -/
def base : Validator := ⟨Rules.base⟩

/-- The names of the rules. -/
def names (v : Validator) : List String := v.rules.map Rule.name

/-- Whether there is a rule of a name. -/
def contains (v : Validator) (name : String) : Bool := v.rules.any fun r => r.name = name

/-- Adds a rule unless there is one of its name. -/
def register (v : Validator) (r : Rule) : Except Failure Validator :=
  if v.contains r.name then .error (.duplicateRule r.name) else .ok ⟨v.rules ++ [r]⟩

/-- Adds the rule of a name. -/
def registerName (v : Validator) (name : String) : Except Failure Validator :=
  match Rules.find? name with
  | some r => v.register r
  | none => .error (.unknownRule name)

/-- The validator with the rules of some names. -/
def ofNames (names : List String) : Except Failure Validator := names.foldlM registerName empty

/-! ## Running -/

/-- What the rules find in a program. -/
def report (v : Validator) (p : Program) : Report :=
  ⟨v.rules.map fun r => ⟨r.name, r.judge p⟩⟩

/-- What is said of a report. -/
def reportLog (p : Program) (r : Report) : Log :=
  let passed := r.findings.length - r.failures.length
  r.findings.map (fun f =>
      ⟨.debug, "Rule " ++ f.rule ++ ": " ++ if f.verdict.passed then "passed" else "failed"⟩) ++
    [⟨.info, "Validated module " ++ p.name ++ ": " ++ toString passed ++ "/" ++
      toString r.findings.length ++ " rules passed"⟩]

/-- Asks every rule. -/
def run (v : Validator) (p : Program) : Report × Log := (v.report p, reportLog p (v.report p))

/-- The inspection text of a validator. -/
def inspect (v : Validator) : String :=
  Text.record "Validator" [("rules", Text.inBrackets (v.names.map Text.quoted))]

end Validator

end QuantumLowering
