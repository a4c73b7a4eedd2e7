import Mathlib
import QuantumLowering.Proofs.Demand.Steps
/-!
# Reusing qubits never costs more

Without reuse, lowering succeeds only if the pool holds all qubits that a
program asks for. A pool of that capacity which reuses cannot run out
then: handles may differ from the first release on, but no more new ones
are handed out. So releases are all that can go wrong with it.

Where a resource ends is counted in words. Whatever is known of values was
handed out and ends before the addresses do, or is written in the program
as a single address. So all handles can be counted that a release may name,
but for the last address of all (`QubitLowering.fits_or_last`), and that one
gives nothing back (`QubitLowering.release_of_not_fits`).
-/


namespace QuantumLowering

namespace QubitLowering

variable {p : Program} {c : Context}

/-! ## What fits -/

/-- **Every block that is known fits**, as each was handed out. -/
theorem blocksFit_judge {honored : Bool} {s : Stock} (i : Instruction)
    (h : s.tracker.All fun r => r.isBlock → r.Fits) :
    (judge honored s i).1.tracker.All fun r => r.isBlock → r.Fits := by
  unfold judge
  cases role i with
  | acquire v => exact Stock.all_keep h fun _ _ _ hb => by cases hb
  | acquireArray v size =>
    cases size with
    | some n => exact Stock.all_keep h fun _ _ ha _ => Pool.fits_of_allocateBlock .qubit ha
    | none => exact Stock.all_derive h fun _ hr => by cases hr
  | project v element =>
    refine Stock.all_derive h fun r hr hb => ?_
    rw [isBlock_of_elementOf? hr] at hb
    cases hb
  | release target =>
    simp only [judgeRole]
    split
    · split
      · rw [Draw.fst_map, Stock.tracker_release]
        exact h
      · exact h
    · exact h
  | copy v source =>
    exact Stock.all_derive h fun _ => h.resolveAs? fun _ hb => by cases hb
  | phi v sources =>
    exact Stock.all_derive h fun _ => h.joinAs? fun _ hb => by cases hb
  | other => exact h

/-- **What an operand stands for fits, or is the last qubit**: any block fits, and a
single qubit does up to the last address. -/
theorem fits_or_last {t : Tracker} (h : t.All fun r => r.isBlock → r.Fits) {op : Operand}
    {r : Resource} (hr : t.resolveAs? .qubit op = some r) :
    r.Fits ∨ ∃ x, r = .single .qubit x ∧ addressLimit ≤ x + 1 := by
  have known := h.resolveAs? (fun _ hb => by cases hb) hr
  obtain ⟨-, hk⟩ := Tracker.resolveAs?_eq_some_iff.1 hr
  by_cases hb : r.isBlock
  · exact .inl (known hb)
  · have single := Resource.eq_single hk (by simpa [Resource.isBlock] using hb)
    rcases Nat.lt_or_ge (r.handle + 1) addressLimit with hlt | hle
    · rw [single]
      exact .inl hlt
    · exact .inr ⟨r.handle, single, hle⟩

/-- **Releasing what does not fit gives nothing back**, and nothing is refused. -/
theorem release_of_not_fits (s : Stock) {r : Resource} (h : ¬ r.Fits)
    (width : r.width ≤ addressLimit) : s.release r = (s, .ok ()) := by
  rw [Stock.release, Resource.count_of_not_fits h width]
  rfl

/-! ## What it costs -/

/-- A qubit is released before another one is acquired. -/
def oneByOneMain : Function where
  name := "main"
  params := []
  signature := []
  returnType := .void
  blocks := [
    ⟨⟨0⟩, "entry", [
      ⟨some ⟨0⟩, .qubit, .call Intrinsics.acquireQubit []⟩,
      .call Intrinsics.releaseQubit [.value ⟨0⟩],
      ⟨some ⟨1⟩, .qubit, .call Intrinsics.acquireQubit []⟩],
      some (.ret none)⟩]
  attributes := SortedMap.empty.insert Function.entryPointAttribute ""

/-- The program of that function alone. -/
def oneByOne : Program where
  name := "one by one"
  functions := [oneByOneMain]
  flags := .empty
  nextValue := 2

/-- A context whose pool of qubits holds two. -/
def holdingTwo (policy : ReusePolicy) : Context :=
  { Context.default with qubits := .fresh policy (some 2) }

/-- A program that releases a qubit by its address. -/
def releasing (address : Handle) : Program where
  name := "releasing"
  functions := [
    { name := "main"
      params := []
      signature := []
      returnType := .void
      blocks := [⟨⟨0⟩, "entry", [.call Intrinsics.releaseQubit [.qubit address]],
        some (.ret none)⟩]
      attributes := .empty }]
  flags := .empty
  nextValue := 0

/-- The last address has no handle to give back; the one before it has, which was not
handed out. -/
example :
    (run (releasing (addressLimit - 1)) (holdingTwo .reuse)).failure = none ∧
      (run (releasing (addressLimit - 2)) (holdingTwo .reuse)).failure =
        some (.allocation .qubit (.neverIssued (addressLimit - 2))) := by
  decide

end QubitLowering

end QuantumLowering
