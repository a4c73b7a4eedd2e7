import QuantumLowering.Lowering.Site
/-!
# Removal of unused instructions

Of some candidates those instructions are removed that nothing left behind
depends on. Candidates that only use each other go together.
-/


namespace QuantumLowering

namespace Function

/-- The values used by the terminators and by the instructions outside
some sites. -/
def usedOutside (f : Function) (sites : List Site) : List ValueId :=
  ((f.located.filter fun e => e.1 ∉ sites).flatMap (fun e => e.2.operands) ++
    f.exitOperands).filterMap Operand.value?

/-- The value computed at a site. -/
def resultAt? (f : Function) (s : Site) : Option ValueId :=
  (f.instruction? s).bind Instruction.result

/-- The sites, out of some, whose values nothing outside of them uses. -/
def unusedAmong (f : Function) (sites : List Site) : List Site :=
  let used := f.usedOutside sites
  sites.filter fun s => !(f.resultAt? s).any fun v => used.contains v

/-- Drops sites whose values are used outside until there is none, for at
most so many rounds. -/
def settle (f : Function) : Nat → List Site → List Site
  | 0, sites => sites
  | rounds + 1, sites =>
    let rest := f.unusedAmong sites
    if rest.length = sites.length then sites else f.settle rounds rest

/-- The candidates that can go: nothing that stays uses their values. Each
round but the last drops a candidate, so there are enough rounds. -/
def removable (f : Function) (candidates : List Site) : List Site :=
  f.settle candidates.length candidates

/-- Drops the candidates that can go. -/
def removeUnused (f : Function) (candidates : List Site) : Function :=
  f.erase (f.removable candidates)

/-- The number of instructions that go. -/
def countRemoved (f : Function) (candidates : List Site) : Nat :=
  let sites := f.removable candidates
  f.located.countP fun e => e.1 ∈ sites

end Function

end QuantumLowering
