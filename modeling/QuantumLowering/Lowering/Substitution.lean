import QuantumLowering.Program.Function
/-!
# Substitution

Once lowering knows addresses for values, the addresses stand in place of
the values wherever these are used.
-/


namespace QuantumLowering

/-- What stands in place of an operand: what is known for its value, or the
operand itself. -/
def Operand.substitute (resolve : ValueId → Option Operand) (op : Operand) : Operand :=
  (op.value?.bind resolve).getD op

namespace Function

/-- Puts operands in place of the values for which they are known. -/
def substitute (resolve : ValueId → Option Operand) (f : Function) : Function :=
  f.mapOperands (Operand.substitute resolve)

/-- The number of operands that a substitution replaces. -/
def countSubstituted (resolve : ValueId → Option Operand) (f : Function) : Nat :=
  f.operands.countP fun op => (op.value?.bind resolve).isSome

end Function

end QuantumLowering
