import QuantumLowering.Pass.Basic
import QuantumLowering.Program.Text
import QuantumLowering.Program.Verify
/-!
# Passes that look

Two passes leave the program as it is: one checks that it is well formed,
the other shows it in the log.
-/


namespace QuantumLowering

namespace Pass

/-- Checks that the program is well formed. -/
def verify : Pass where
  name := "verify"
  kind := .analysis
  shouldRun _ _ := true
  run p c :=
    match p.verify with
    | .ok () => ⟨p, c, none, [⟨.debug, "Module " ++ p.name ++ " verified"⟩]⟩
    | .error defect =>
      ⟨p, c, some (.program defect),
        [⟨.error, "Module " ++ p.name ++ " failed verification: " ++ defect.message⟩]⟩

/-- Shows the program in the log. -/
def print : Pass where
  name := "print"
  kind := .analysis
  shouldRun _ _ := true
  run p c := ⟨p, c, none, [⟨.info, "\n" ++ p.text⟩]⟩

end Pass

end QuantumLowering
