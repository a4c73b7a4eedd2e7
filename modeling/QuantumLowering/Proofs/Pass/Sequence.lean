import QuantumLowering.Pass.Checks
import QuantumLowering.Proofs.Pass.Run
/-!
# Passes in sequence

A schedule may be filled in any order: only the order of the passes at each
hook matters (`Schedule.fillAll_eq`). A run goes through the passes hook by
hook. Each completes on what those in front of it left, and the first that does
not breaks the run off. Both together are `Schedule.run_in_sequence`.
-/


namespace QuantumLowering

/-! ## Filling a schedule -/

namespace Schedule

/-- A call that puts passes at a hook. -/
inductive Filling where
  /-- Puts one pass there. -/
  | add (hook : Hook) (pass : Pass)
  /-- Puts several passes there. -/
  | extend (hook : Hook) (passes : List Pass)

/-- The passes that a call puts at a hook. -/
def Filling.passesAt (hook : Hook) : Filling → List Pass
  | add h pass => if h = hook then [pass] else []
  | extend h passes => if h = hook then passes else []

/-- The passes that some calls put at a hook, in the order of the calls. -/
def filled (hook : Hook) (calls : List Filling) : List Pass := calls.flatMap (·.passesAt hook)

/-- A schedule after a call. -/
def fill (s : Schedule) : Filling → Schedule
  | .add hook pass => s.add hook pass
  | .extend hook passes => s.extend hook passes

/-- A schedule after some calls. -/
def fillAll (s : Schedule) (calls : List Filling) : Schedule := calls.foldl fill s

/-- A call puts its passes after those that are there. -/
theorem fill_eq (s : Schedule) (call : Filling) :
    s.fill call = { s with slots := fun hook => s.slots hook ++ call.passesAt hook } := by
  have extend_eq : ∀ hook passes, s.extend hook passes =
      { s with slots := fun h => s.slots h ++ if hook = h then passes else [] } := by
    intro hook passes
    unfold extend
    congr 1
    funext h
    by_cases hh : h = hook
    · rw [if_pos hh, if_pos hh.symm]
    · rw [if_neg hh, if_neg (Ne.symm hh), List.append_nil]
  cases call with
  | add hook pass => exact extend_eq hook [pass]
  | extend hook passes => exact extend_eq hook passes

/-- **At each hook stand the passes of the calls**, after those that were there. -/
theorem fillAll_eq (s : Schedule) (calls : List Filling) :
    s.fillAll calls = { s with slots := fun hook => s.slots hook ++ filled hook calls } := by
  unfold fillAll
  induction calls generalizing s with
  | nil => simp [filled]
  | cons call calls ih =>
    rw [List.foldl_cons, ih, fill_eq]
    simp [filled, List.append_assoc]

/-! ## A run -/

/-- **A schedule runs its passes in sequence**, however it was filled. Calls that put the
same passes at each hook in the same order make the same schedule, so its pipeline and its
runs are the same: the pipeline lists the passes hook by hook. A run ends well just when
every pass completes, and then with what the last one left; a pass has nothing to do, or it
runs and, where programs are verified, leaves a sound one. Otherwise the run stops at the
first pass that fails or leaves a defect, with that failure and with the program and the
context as they are then, whatever passes are still to come. -/
theorem run_in_sequence (s : Schedule) :
    (∀ calls, (s.fillAll calls).pipeline = Hook.all.flatMap fun hook =>
      (s.slots hook ++ filled hook calls).map fun pass => (hook, pass)) ∧
    (∀ calls others, (∀ hook, filled hook others = filled hook calls) →
      (s.fillAll others).pipeline = (s.fillAll calls).pipeline ∧
        ∀ p c, (s.fillAll others).run p c = (s.fillAll calls).run p c) ∧
    ∀ p c p' c',
      ((s.run p c).failure = none ∧ (s.run p c).program = p' ∧ (s.run p c).context = c' ↔
        Completes s.verifyEach (s.pipeline.map Prod.snd) p c p' c') ∧
      ∀ e, (s.run p c).failure = some e ∧ (s.run p c).program = p' ∧ (s.run p c).context = c' ↔
        ∃ before pass after p₁ c₁, s.pipeline.map Prod.snd = before ++ pass :: after ∧
          Completes s.verifyEach before p c p₁ c₁ ∧ pass.Breaks s.verifyEach p₁ c₁ p' c' e := by
  refine ⟨fun calls => ?_, fun calls others same => ?_, fun p c p' c' =>
    ⟨completes_iff, fun e => breaksOff_iff⟩⟩
  · rw [fillAll_eq]
    rfl
  · have alike : s.fillAll others = s.fillAll calls := by
      rw [fillAll_eq, fillAll_eq]
      simp only [same]
    rw [alike]
    exact ⟨rfl, fun _ _ => rfl⟩

/-- An entry point whose only block does not end. -/
def unended : Program :=
  ⟨"unended", [⟨"main", [], [], .void, [.fresh ⟨0⟩ "entry"],
    .ofList [(Function.entryPointAttribute, "")]⟩], .empty, 0⟩

/-- Two passes find nothing to do, the third one fails, and the fourth one states
nothing. -/
theorem run_in_sequence_unended :
    let calls : List Filling := [.add .optimizerLast .requirements, .add .peephole .verify,
      .extend .pipelineStart [.qubitLowering, .resultLowering]]
    let others : List Filling := [.add .pipelineStart .qubitLowering,
      .extend .optimizerLast [.requirements], .add .pipelineStart .resultLowering,
      .add .peephole .verify]
    let s := empty.fillAll calls
    (∀ hook, filled hook others = filled hook calls) ∧
      s.pipeline.map Prod.snd = [.qubitLowering, .resultLowering] ++ .verify :: [.requirements] ∧
      (empty.fillAll others).pipeline = s.pipeline ∧
      (empty.fillAll others).run unended .default = s.run unended .default ∧
      (s.run unended .default).failure = some (.program (.missingTerminator "main" ⟨0⟩)) ∧
      (s.run unended .default).program = unended := by
  intro calls others s
  have same : ∀ hook, filled hook others = filled hook calls := by
    intro hook
    cases hook <;> rfl
  obtain ⟨-, order, -⟩ := run_in_sequence empty
  obtain ⟨-, -, runs⟩ := run_in_sequence s
  have passes : s.pipeline.map Prod.snd =
      [.qubitLowering, .resultLowering] ++ .verify :: [.requirements] := rfl
  have skipped : Completes s.verifyEach [.qubitLowering, .resultLowering] unended .default
      unended .default :=
    .cons (.skipped (by decide)) (.cons (.skipped (by decide)) (.nil _ _))
  have fails : Pass.verify.Breaks s.verifyEach unended .default unended .default
      (.program (.missingTerminator "main" ⟨0⟩)) := .failed rfl (by decide)
  obtain ⟨failure, program, -⟩ := ((runs unended .default unended .default).2 _).2
    ⟨_, _, _, _, _, passes, skipped, fails⟩
  exact ⟨same, passes, (order calls others same).1, (order calls others same).2 _ _, failure,
    program⟩

end Schedule

end QuantumLowering
