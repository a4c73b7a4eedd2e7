import Mathlib.Logic.Relation
import QuantumLowering.Proofs.Custody.Reuse
/-!
# Qubits that are held across a call

A handle is handed out again only to the one definition that manages
qubits, and only if that definition goes one way and does not call itself.
Nothing is asked about the definitions that it calls, so one of them may
lead back to it while it holds qubits: then it acquires a handle that it
holds already. What the guard does ensure is that such a way back goes
through another definition, which manages no qubits
(`QubitLowering.reenters_through_other`).
-/


namespace QuantumLowering

/-! ## Who calls whom -/

namespace Program

/-- **A definition calls another one**, or itself. -/
def Calls (p : Program) (f g : Function) : Prop :=
  f ∈ p.definitions ∧ g ∈ p.definitions ∧ ∃ i ∈ f.instructions, i.isCallTo g.name

/-- **A definition can be entered again** before it ends, through any number of
calls. -/
def Reenters (p : Program) (f : Function) : Prop := Relation.TransGen p.Calls f f

variable {p : Program} {f : Function}

/-- A definition that does not call itself is entered again through another
one. -/
theorem Reenters.exists_other (h : p.Reenters f)
    (not : QubitLowering.callsItself f = false) :
    ∃ g, p.Calls f g ∧ g ≠ f ∧ Relation.TransGen p.Calls g f := by
  obtain ⟨g, hcall, hback⟩ := Relation.TransGen.head'_iff.1 h
  have hne : g ≠ f := by
    rintro rfl
    obtain ⟨-, -, i, hi, hto⟩ := hcall
    have itself : QubitLowering.callsItself g = true := List.any_eq_true.2 ⟨i, hi, hto⟩
    rw [not] at itself
    cases itself
  refine ⟨g, hcall, hne, ?_⟩
  rcases Relation.reflTransGen_iff_eq_or_transGen.1 hback with heq | hback
  · exact absurd heq.symm hne
  · exact hback

end Program

/-- What an acquisition receives, according to a table. -/
def Instruction.receives? (t : Tracker) (i : Instruction) : Option Resource :=
  i.acquires?.bind fun a => t.resolve? a.1

namespace QubitLowering

/-! ## Handles that are handed out again -/

/-- What acquires qubits manages qubits. -/
theorem managesQubits_of_acquires {f : Function} {i : Instruction} (hi : i ∈ f.instructions)
    {v : ValueId} {held : Holding} (ha : i.acquires? = some (v, held)) : f.managesQubits := by
  refine List.any_eq_true.2 ⟨i, hi, ?_⟩
  rcases Instruction.acquires?_eq_some ha with ⟨_, _, rfl, -⟩ | ⟨_, _, _, rfl, -⟩
  · rw [Instruction.managesQubits_call]
    decide
  · rw [Instruction.managesQubits_call]
    decide

variable {p : Program} {c : Context} {f g : Function} {i j : Instruction} {r r' : Resource}

/-- **If two acquisitions share a handle**, it was handed out again: releases
count for the definition that manages qubits, and there is no more than
one. -/
theorem honored_of_shared (nodup : (p.definitions.flatMap Function.definedValues).Nodup)
    (issued : c.qubits.Issued) (hrun : (run p c).failure = none) (hf : f ∈ p.definitions)
    (hg : g ∈ p.definitions) (hi : i ∈ f.instructions) (hj : j ∈ g.instructions) (hne : i ≠ j)
    (hr : i.receives? (run p c).context.tracker = some r)
    (hr' : j.receives? (run p c).context.tracker = some r')
    (shared : ¬ List.Disjoint r.addresses r'.addresses) :
    managers p ≤ 1 ∧
      ∀ h ∈ p.definitions, h.managesQubits → isStraight h ∧ callsItself h = false := by
  obtain ⟨⟨v, held⟩, ha, hr⟩ := Option.bind_eq_some_iff.1 hr
  obtain ⟨⟨u, held'⟩, hb, hr'⟩ := Option.bind_eq_some_iff.1 hr'
  have apart : v ≠ u := by
    rintro rfl
    exact hne (Program.instruction_unique nodup hf hg hi hj (Instruction.result_of_acquires ha)
      (Instruction.result_of_acquires hb))
  by_contra hnot
  refine shared ((apart_of_not_honored nodup issued (.inr ?_) hrun).apart f hf i hi v held ha g hg
    j hj u held' hb apart r r' hr hr')
  by_contra hguard
  push Not at hguard
  obtain ⟨sole, straight⟩ := hguard
  refine hnot ⟨sole, fun h hh hm => ?_⟩
  obtain ⟨hstraight, hitself⟩ := straight h hh hm
  exact ⟨by simpa using hstraight, by simpa using hitself⟩

/-- **Acquisitions share handles only within the one definition that manages
qubits**, and if this can be entered again while it holds them, then
through a call of another definition, which manages none. -/
theorem reenters_through_other (p : Program) (hp : p.verify = .ok ()) (c : Context)
    (reachable : c.qubits.Reachable) (hrun : (run p c).failure = none) (hf : f ∈ p.definitions)
    (hg : g ∈ p.definitions) (hi : i ∈ f.instructions) (hj : j ∈ g.instructions) (hne : i ≠ j)
    (hr : i.receives? (run p c).context.tracker = some r)
    (hr' : j.receives? (run p c).context.tracker = some r')
    (shared : ¬ List.Disjoint r.addresses r'.addresses) :
    g = f ∧ isStraight f ∧ callsItself f = false ∧
      (∀ h ∈ p.definitions, h.managesQubits → h = f) ∧
      (p.Reenters f →
        ∃ h, p.Calls f h ∧ h ≠ f ∧ h.managesQubits = false ∧ Relation.TransGen p.Calls h f) := by
  obtain ⟨sole, guard⟩ := honored_of_shared (Program.verify_eq_ok_iff.1 hp).values
    reachable.issued hrun hf hg hi hj hne hr hr' shared
  obtain ⟨⟨v, held⟩, ha, -⟩ := Option.bind_eq_some_iff.1 hr
  obtain ⟨⟨u, held'⟩, hb, -⟩ := Option.bind_eq_some_iff.1 hr'
  have hfm := managesQubits_of_acquires hi ha
  have only : ∀ h ∈ p.definitions, h.managesQubits → h = f :=
    fun h hh hm => eq_of_managers_le sole hh hf hm hfm
  obtain ⟨straight, itself⟩ := guard f hf hfm
  refine ⟨only g hg (managesQubits_of_acquires hj hb), straight, itself, only, fun again => ?_⟩
  obtain ⟨h, hcall, hother, hback⟩ := again.exists_other itself
  refine ⟨h, hcall, hother, ?_, hback⟩
  by_contra hm
  exact hother (only h hcall.2.1 (by simpa using hm))

/-! ## A program that comes back -/

/-- A qubit is released and another one acquired, which is held while a helper
is called. -/
def comeBackMain : Function where
  name := "main"
  params := []
  signature := []
  returnType := .void
  blocks := [
    ⟨⟨0⟩, "entry", [
      ⟨some ⟨0⟩, .qubit, .call Intrinsics.acquireQubit []⟩,
      .call "__quantum__qis__h__body" [.value ⟨0⟩],
      .call Intrinsics.releaseQubit [.value ⟨0⟩],
      ⟨some ⟨1⟩, .qubit, .call Intrinsics.acquireQubit []⟩,
      .call "helper" [],
      .call "__quantum__qis__h__body" [.value ⟨1⟩],
      .call Intrinsics.releaseQubit [.value ⟨1⟩]],
      some (.ret none)⟩]
  attributes := SortedMap.empty.insert Function.entryPointAttribute ""

/-- The helper calls the function that called it. -/
def comeBackHelper : Function where
  name := "helper"
  params := []
  signature := []
  returnType := .void
  blocks := [⟨⟨0⟩, "entry", [.call "main" []], some (.ret none)⟩]
  attributes := .empty

/-- The program of both. -/
def comeBack : Program where
  name := "come back"
  functions := [comeBackMain, comeBackHelper]
  flags := .empty
  nextValue := 2

/-- Lowering the helper draws nothing, so the table is what lowering the other
function leaves. -/
theorem run_comeBack :
    (run comeBack reusing).failure = none ∧
      (run comeBack reusing).context.tracker =
        (plan true (reusing.stock .qubit) comeBackMain).stock.tracker := by
  have sole : decide (managers comeBack ≤ 1) = true := by decide
  have definitions : comeBackMain.isDeclaration = false ∧ comeBackHelper.isDeclaration = false :=
    ⟨rfl, rfl⟩
  have main : (plan true (reusing.stock .qubit) comeBackMain).failure = none := by cbv
  have helper : ∀ s, (plan true s comeBackHelper).failure = none ∧
      (plan true s comeBackHelper).stock = s := fun s => ⟨rfl, rfl⟩
  rw [run_failure, run_context, sole]
  simp [Lowering.run, comeBack, Lowering.sweep, lower_failure, lower_stock, definitions, main,
    helper, Context.withStock]

/-- The first qubit and the second one. -/
def comeBackAcquisitions : List Instruction :=
  [⟨some ⟨0⟩, .qubit, .call Intrinsics.acquireQubit []⟩,
    ⟨some ⟨1⟩, .qubit, .call Intrinsics.acquireQubit []⟩]

/-- Both receive the first handle. -/
theorem receives_comeBack : ∀ i ∈ comeBackAcquisitions,
    i.receives? (run comeBack reusing).context.tracker = some (.single .qubit 0) := by
  rw [run_comeBack.2]
  intro i hi
  rcases List.mem_pair.1 hi with rfl | rfl
  · cbv
  · cbv

/-- The function is entered again through its helper. -/
theorem reenters_comeBack : comeBack.Reenters comeBackMain := by
  have there : comeBack.Calls comeBackMain comeBackHelper :=
    ⟨by decide, by decide, .call "helper" [], by decide, by decide⟩
  have back : comeBack.Calls comeBackHelper comeBackMain :=
    ⟨by decide, by decide, .call "main" [], by decide, by decide⟩
  exact .head there (.single back)

theorem reenters_through_other_comeBack :
    comeBack.verify = .ok () ∧ (run comeBack reusing).failure = none ∧
      comeBack.Reenters comeBackMain ∧
      ∃ h, comeBack.Calls comeBackMain h ∧ h ≠ comeBackMain ∧ h.managesQubits = false ∧
        Relation.TransGen comeBack.Calls h comeBackMain := by
  have verified : comeBack.verify = .ok () := by decide
  have main : comeBackMain ∈ comeBack.definitions := by decide
  have shared : ¬ List.Disjoint (Resource.single .qubit 0).addresses
      (Resource.single .qubit 0).addresses :=
    fun apart => apart (List.mem_singleton_self 0) (List.mem_singleton_self 0)
  have acquired : comeBackAcquisitions ⊆ comeBackMain.instructions := by decide
  obtain ⟨-, -, -, -, other⟩ := reenters_through_other comeBack verified reusing (.fresh _ _)
    run_comeBack.1 main main (acquired List.mem_cons_self)
    (acquired (List.mem_cons_of_mem _ List.mem_cons_self)) (by decide)
    (receives_comeBack _ List.mem_cons_self)
    (receives_comeBack _ (List.mem_cons_of_mem _ List.mem_cons_self)) shared
  exact ⟨verified, run_comeBack.1, reenters_comeBack, other reenters_comeBack⟩

/-- **A qubit that is held across a call can share its handle** with one that is
acquired during that call: the guard asks for self-calls alone. -/
theorem shared_across_call :
    comeBack.verify = .ok () ∧ reusing.qubits = .fresh .reuse none ∧
      reusing.tracker = .empty ∧ (run comeBack reusing).failure = none ∧
      comeBackMain ∈ comeBack.definitions ∧
      comeBackAcquisitions ⊆ comeBackMain.instructions ∧ comeBackAcquisitions.Nodup ∧
      (∀ i ∈ comeBackAcquisitions,
        i.receives? (run comeBack reusing).context.tracker = some (.single .qubit 0)) ∧
      comeBack.Reenters comeBackMain :=
  ⟨by decide, rfl, rfl, run_comeBack.1, by decide, by decide, by decide, receives_comeBack,
    reenters_comeBack⟩

end QubitLowering

end QuantumLowering
