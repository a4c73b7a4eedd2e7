import QuantumLowering.Lowering.Removal
import QuantumLowering.Lowering.Stock
import QuantumLowering.Lowering.Substitution
import QuantumLowering.Pass.Basic
/-!
# Sweeping over instructions and functions

Lowering goes through the instructions of a function and draws on the
stock at each of them; then it changes the function by what it decided.
It does so for the definitions of a program one after the other. Where it
fails, the function it is at and those after it stay as they are.
-/


namespace QuantumLowering

namespace Lowering

/-! ## One function -/

/-- What was decided for the instructions visited. -/
structure Plan (α : Type) where
  /-- The decisions, in order. -/
  decisions : List (Site × α)
  /-- The stock afterwards. -/
  stock : Stock
  /-- Why no more instructions were visited, if so. -/
  failure : Option Failure

/-- Decides instructions one by one up to the first failure. -/
def decideAll {α : Type} (step : Stock → Instruction → Draw α) (s : Stock) :
    List (Site × Instruction) → Plan α
  | [] => ⟨[], s, none⟩
  | (site, i) :: rest =>
    match step s i with
    | (s, .ok a) =>
      let plan := decideAll step s rest
      { plan with decisions := (site, a) :: plan.decisions }
    | (s, .error e) => ⟨[], s, some e⟩

/-- A function after lowering, with the stock and the log. -/
structure Lowered where
  /-- The function, unchanged if lowering it failed. -/
  function : Function
  /-- The stock. -/
  stock : Stock
  /-- Why lowering failed, if it did. -/
  failure : Option Failure
  /-- What there was to say. -/
  log : Log

/-- Puts addresses in place of values and drops the candidates that are no
longer used. -/
def finish (kind : ResourceKind) (resolve : ValueId → Option Operand) (candidates : List Site)
    (f : Function) : Function × LogEntry :=
  let g := f.substitute resolve
  (g.removeUnused candidates,
    ⟨.debug, f.name ++ ": replaced " ++ toString (f.countSubstituted resolve) ++ " " ++
      kind.text ++ " operands, removed " ++ toString (g.countRemoved candidates) ++
      " instructions"⟩)

/-! ## All functions -/

/-- The functions of a program after lowering, with the stock and the
log. -/
structure Swept where
  /-- The functions. -/
  functions : List Function
  /-- The stock. -/
  stock : Stock
  /-- Why lowering failed, if it did. -/
  failure : Option Failure
  /-- What there was to say. -/
  log : Log

/-- Lowers definitions one by one up to the first failure. -/
def sweep (lower : Stock → Function → Lowered) (s : Stock) : List Function → Swept
  | [] => ⟨[], s, none, []⟩
  | f :: rest =>
    if f.isDeclaration then
      let swept := sweep lower s rest
      { swept with functions := f :: swept.functions }
    else
      let lowered := lower s f
      match lowered.failure with
      | some e => ⟨f :: rest, lowered.stock, some e, lowered.log⟩
      | none =>
        let swept := sweep lower lowered.stock rest
        { swept with
          functions := lowered.function :: swept.functions
          log := lowered.log ++ swept.log }

/-- Lowers a program. -/
def run (kind : ResourceKind) (lower : Stock → Function → Lowered) (p : Program) (c : Context) :
    Outcome :=
  let swept := sweep lower (c.stock kind) p.functions
  ⟨{ p with functions := swept.functions }, c.withStock kind swept.stock, swept.failure,
    swept.log⟩

end Lowering

end QuantumLowering
