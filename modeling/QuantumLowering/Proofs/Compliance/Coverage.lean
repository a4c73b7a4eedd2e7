import Mathlib.Order.Bounds.Defs
import QuantumLowering.Proofs.Compliance.Limits
/-!
# What the stated needs cover

A program states the least number of resources that covers what the pool
has handed out and the addresses in its instructions
(`Requirements.stated_least_covering`). Addresses in terminators are not
looked at, so one of them can be left uncovered.
-/


namespace QuantumLowering

variable {kind : ResourceKind} {p : Program} {c : Context} {n h : ℕ}

/-- The addresses of a kind in the terminators of a program. -/
def Program.exitAddresses (kind : ResourceKind) (p : Program) : List Handle :=
  p.definitions.flatMap fun f => f.exitOperands.filterMap kind.handle?

namespace Requirements

/-- **A number of resources covers an address**: it is greater, or both are the
greatest that can be counted. -/
def Covers (n h : ℕ) : Prop :=
  h < n ∨ h = addressLimit - 1 ∧ n = addressLimit - 1

instance : Decidable (Covers n h) := inferInstanceAs (Decidable (_ ∨ _))

/-- What an address needs is the least number that covers it. -/
theorem covers_iff_needed_le (fits : h < addressLimit) : Covers n h ↔ needed h ≤ n := by
  rw [Covers, needed, min_le_iff]
  omega

/-- No more is needed than the pool has handed out or some instruction needs. -/
theorem le_extent_iff : n ≤ extent p c kind ↔
    n ≤ (c.pool kind).highWater ∨ ∃ x ∈ p.instructionAddresses kind, n ≤ needed x := by
  cases n with
  | zero => simp
  | succ m =>
    have beyond : ¬ extent p c kind ≤ m ↔ ¬ _ := not_congr extent_le_iff
    simpa only [not_and_or, not_le, not_forall, exists_prop, Nat.succ_le_iff] using beyond

/-- Stating the needs keeps the addresses in terminators. -/
theorem exitAddresses_run : (run p c).program.exitAddresses kind = p.exitAddresses kind :=
  flatMap_definitions_run fun _ _ => rfl

/-- **The least number that covers the addresses in instructions is stated**, if it is
not below what the pool has handed out. It covers an address in a terminator only if
that was handed out or some instruction needs as much. -/
theorem stated_least_covering (p : Program) (entry : p.entryPoint?.isSome) (c : Context)
    (kind : ResourceKind)
    (fits : ∀ h ∈ p.instructionAddresses kind ++ p.exitAddresses kind, h < addressLimit) :
    let annotated := (run p c).program
    ∃ n : ℕ, stated? kind annotated = some (toString n) ∧
      IsLeast {m | (c.pool kind).highWater ≤ m ∧
        ∀ h ∈ annotated.instructionAddresses kind, Covers m h} n ∧
      ∀ h ∈ annotated.exitAddresses kind, Covers n h ↔
        Covers (c.pool kind).highWater h ∨
          ∃ x ∈ annotated.instructionAddresses kind, Covers (needed x) h := by
  intro annotated
  have instructions : annotated.instructionAddresses kind = p.instructionAddresses kind :=
    instructionAddresses_run
  have exits : annotated.exitAddresses kind = p.exitAddresses kind := exitAddresses_run
  have covers : ∀ {m h : ℕ}, h ∈ p.instructionAddresses kind →
      (Covers m h ↔ needed h ≤ m) := fun hh =>
    covers_iff_needed_le (fits _ (List.mem_append_left _ hh))
  have within : ∀ m : ℕ, extent p c kind ≤ m ↔ (c.pool kind).highWater ≤ m ∧
      ∀ h ∈ p.instructionAddresses kind, Covers m h := fun m => by
    rw [extent_le_iff]
    exact and_congr_right fun _ => forall₂_congr fun h hh => (covers hh).symm
  rw [instructions, exits]
  refine ⟨extent p c kind, stated?_run entry kind, ⟨(within _).1 le_rfl, fun m hm => ?_⟩,
    fun h hh => ?_⟩
  · exact (within m).2 hm
  · have hfits := fits h (List.mem_append_right _ hh)
    simp only [covers_iff_needed_le hfits, le_extent_iff]

/-- A gate on one qubit, and the address of another one is returned. -/
def returningMain (address : Handle) : Function where
  name := "main"
  params := []
  signature := []
  returnType := .qubit
  blocks := [
    ⟨⟨0⟩, "entry", [.call "__quantum__qis__h__body" [.qubit 3]],
      some (.ret (some (.qubit address)))⟩]
  attributes := SortedMap.empty.insert Function.entryPointAttribute ""

/-- The program of that function alone. -/
def returning (address : Handle) : Program where
  name := "returning"
  functions := [returningMain address]
  flags := .empty
  nextValue := 0

theorem stated_least_covering_returning :
    (returning 2).entryPoint?.isSome ∧
      (∀ h ∈ (returning 2).instructionAddresses .qubit ++ (returning 2).exitAddresses .qubit,
        h < addressLimit) ∧
      ∃ n : ℕ, stated? .qubit (run (returning 2) .default).program = some (toString n) ∧
        Covers n 3 ∧ Covers n 2 := by
  have entry : (returning 2).entryPoint?.isSome := by decide
  have fits : ∀ h ∈ (returning 2).instructionAddresses .qubit ++ (returning 2).exitAddresses .qubit,
      h < addressLimit := by decide
  obtain ⟨n, stated, ⟨⟨-, covers⟩, -⟩, exits⟩ :=
    stated_least_covering (returning 2) entry .default .qubit fits
  refine ⟨entry, fits, n, stated, covers 3 (by decide), ?_⟩
  exact (exits 2 (by decide)).2 (.inr ⟨3, by decide, by decide⟩)

/-- **An address that is returned can be left uncovered.** -/
theorem returning_uncovered :
    (returning 5).verify = .ok () ∧ (returning 5).entryPoint?.isSome ∧
      5 ∈ (run (returning 5) .default).program.exitAddresses .qubit ∧
      stated? .qubit (run (returning 5) .default).program = some "4" ∧ ¬ Covers 4 5 :=
  ⟨by decide, by decide, by decide, by decide, by decide⟩

end Requirements

end QuantumLowering
