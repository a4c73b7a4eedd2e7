import QuantumLowering.Proofs.Commute.Programs
/-!
# The two passes that lower commute

A schedule of the two passes that lower ends well in one order if it does in
the other, and then with the same program, the same pools and a table that
says the same (`Schedule.lowerings_commute`). There is one exception. Releases
give qubits back only in a function that does not call itself, and lowering
results puts one call in place of another. So a function that is named like
one of the two may stop or begin to call itself, and it matters which pass is
first (`Schedule.not_lowerings_commute`).
-/


namespace QuantumLowering

open Lowering

/-! ## What one pass leaves for the other -/

section Passes

variable {p p₁ p₂ p' : Program} {c c₁ c₂ c' : Context} {verifyEach : Bool}

variable (wf : p.WellFormed)

include wf

/-- Lowering qubits keeps whether anything measures. -/
theorem QubitLowering.shouldRun_run (h : (run p c).failure = none) :
    Pass.resultLowering.shouldRun (run p c).program (run p c).context =
      Pass.resultLowering.shouldRun p c := by
  refine any_run (·.isCallTo Intrinsics.measure)
    (fun i => role_of_isCallTo (by decide) (by decide)) (fun σ i => ?_) wf.values h
  rw [Instruction.isCallTo, Instruction.isCallTo, Instruction.callee?_mapOperands]

/-- Lowering results keeps whether anything manages qubits. -/
theorem ResultLowering.shouldRun_run (h : (run p c).failure = none) :
    Pass.qubitLowering.shouldRun (run p c).program (run p c).context =
      Pass.qubitLowering.shouldRun p c := by
  change (run p c).program.managesQubits = p.managesQubits
  rw [QubitLowering.managesQubits_eq, QubitLowering.managesQubits_eq, managers_run wf h]

/-- **Lowering results leaves a well-formed program** if lowering qubits makes one
of it: every call that measures into a result is still there. -/
theorem ResultLowering.wellFormed_of_run (hr : (run p c).failure = none)
    (hq : (QubitLowering.run (run p c).program c').failure = none)
    (wf' : (QubitLowering.run (run p c).program c').program.WellFormed) :
    (run p c).program.WellFormed := by
  have passes := (QubitLowering.run_lowersTo hq).passesResults wf'.passesResults
  have lowers := run_lowersTo wf.values hr
  rw [definitions_run] at passes
  rcases run_program p c with h | h
  · rw [h] at passes ⊢
    exact lowers.wellFormed_of_passes wf passes
  · rw [h] at passes ⊢
    refine (lowers.wellFormed_of_passes wf fun g hg j hj args hcall callee hcallee => ?_).declare
      passes
    -- what is declared already stays
    refine passes g hg j hj args hcall callee ?_
    rwa [Program.declare, hcallee]

variable (new : ∀ v, c.tracker.resolve? v = none)
variable (recursion : c.qubits.policy = .reuse → QubitLowering.managers p ≤ 1 → p.KeepsRecursion)

include new recursion

/-- **Results can be lowered before qubits** where they can be after. -/
theorem Pass.Completes.results_first
    (first : Pass.qubitLowering.Completes verifyEach p c p₁ c₁)
    (second : Pass.resultLowering.Completes verifyEach p₁ c₁ p' c') :
    ∃ p₂ c₂ c'', Pass.resultLowering.Completes verifyEach p c p₂ c₂ ∧
      Pass.qubitLowering.Completes verifyEach p₂ c₂ p' c'' ∧ c'.Alike c'' := by
  obtain ⟨endsq, verifiedq⟩ := first
  obtain ⟨endsr, verifiedr⟩ := second
  cases endsq with
  | skipped hno =>
    -- only results are lowered, and there is still nothing to do for qubits
    have idle : Pass.qubitLowering.shouldRun p' c' = false := by
      cases endsr with
      | skipped => exact hno
      | ran _ hr => exact (ResultLowering.shouldRun_run wf hr).trans hno
    exact ⟨p', c', c', ⟨endsr, verifiedr⟩, .skipped idle, .refl c'⟩
  | ran hs hq =>
    have measures := QubitLowering.shouldRun_run wf hq
    cases endsr with
    | skipped hno =>
      exact ⟨p, c, _, .skipped (measures.symm.trans hno), ⟨.ran hs hq, verifiedq⟩, .refl _⟩
    | ran hs' hr' =>
      have hr := ResultLowering.ends_alone wf new hq hr'
      obtain ⟨-, hq', program, alike⟩ := run_comm wf new recursion hq hr
      have manages := (ResultLowering.shouldRun_run wf hr).trans hs
      refine ⟨_, _, _, ⟨.ran (measures.symm.trans hs') hr, fun hv _ => ?_⟩,
        ⟨program ▸ .ran manages hq', fun hv _ => verifiedr hv hs'⟩, alike⟩
      have wf' := Program.verify_eq_ok_iff.1 (verifiedr hv hs')
      exact Program.verify_eq_ok_iff.2
        (ResultLowering.wellFormed_of_run wf hr hq' (program ▸ wf'))

/-- **And qubits before results.** -/
theorem Pass.Completes.qubits_first
    (first : Pass.resultLowering.Completes verifyEach p c p₂ c₂)
    (second : Pass.qubitLowering.Completes verifyEach p₂ c₂ p' c') :
    ∃ p₁ c₁ c'', Pass.qubitLowering.Completes verifyEach p c p₁ c₁ ∧
      Pass.resultLowering.Completes verifyEach p₁ c₁ p' c'' ∧ c''.Alike c' := by
  obtain ⟨endsr, verifiedr⟩ := first
  obtain ⟨endsq, verifiedq⟩ := second
  cases endsr with
  | skipped hno =>
    -- only qubits are lowered, and there is still nothing to measure
    have idle : Pass.resultLowering.shouldRun p' c' = false := by
      cases endsq with
      | skipped => exact hno
      | ran _ hq => exact (QubitLowering.shouldRun_run wf hq).trans hno
    exact ⟨p', c', c', ⟨endsq, verifiedq⟩, .skipped idle, .refl c'⟩
  | ran hs hr =>
    have manages := ResultLowering.shouldRun_run wf hr
    cases endsq with
    | skipped hno =>
      exact ⟨p, c, _, .skipped (manages.symm.trans hno), ⟨.ran hs hr, verifiedr⟩, .refl _⟩
    | ran hs' hq' =>
      have hq := QubitLowering.ends_alone wf new recursion hr hq'
      obtain ⟨hr', -, program, alike⟩ := run_comm wf new recursion hq hr
      have measures := (QubitLowering.shouldRun_run wf hq).trans hs
      refine ⟨_, _, _, ⟨.ran (manages.symm.trans hs') hq, fun _ _ => ?_⟩,
        ⟨program ▸ .ran measures hr', fun hv _ => verifiedq hv hs'⟩, alike⟩
      exact Program.verify_eq_ok_iff.2 (QubitLowering.wellFormed_run wf hq)

end Passes

/-! ## Schedules -/

namespace Schedule

/-- **Lowering qubits and lowering results commute**, unless releases count and
lowering results changes whether a function calls itself. -/
theorem lowerings_commute (s s' : Schedule)
    (hs : s.pipeline.map Prod.snd = [.qubitLowering, .resultLowering])
    (hs' : s'.pipeline.map Prod.snd = [.resultLowering, .qubitLowering])
    (hv : s'.verifyEach = s.verifyEach) (p : Program) (hp : p.verify = .ok ()) (c : Context)
    (new : ∀ v, c.tracker.resolve? v = none)
    (recursion : c.qubits.policy = .reuse → QubitLowering.managers p ≤ 1 → p.KeepsRecursion) :
    ((s.run p c).failure = none ↔ (s'.run p c).failure = none) ∧
      ((s.run p c).failure = none → (s'.run p c).program = (s.run p c).program ∧
        (s.run p c).context.Alike (s'.run p c).context) := by
  have wf := Program.verify_eq_ok_iff.1 hp
  have forth : (s.run p c).failure = none → (s'.run p c).failure = none ∧
      (s'.run p c).program = (s.run p c).program ∧
        (s.run p c).context.Alike (s'.run p c).context := by
    intro h
    have completes := completes_of_run h
    rw [hs] at completes
    obtain ⟨_, _, first, second⟩ := completes.of_pair
    obtain ⟨_, _, c'', first', second', alike⟩ := first.results_first wf new recursion second
    have completes' : Completes s'.verifyEach (s'.pipeline.map Prod.snd) p c
        (s.run p c).program c'' := by
      rw [hs', hv]
      exact .cons first' (.cons second' (.nil _ _))
    obtain ⟨failure, program, context⟩ := run_of_completes completes'
    exact ⟨failure, program, context.symm ▸ alike⟩
  refine ⟨⟨fun h => (forth h).1, fun h => ?_⟩, fun h => (forth h).2⟩
  have completes := completes_of_run h
  rw [hs', hv] at completes
  obtain ⟨_, _, first, second⟩ := completes.of_pair
  obtain ⟨_, _, c'', first', second', -⟩ := first.qubits_first wf new recursion second
  have completes' : Completes s.verifyEach (s.pipeline.map Prod.snd) p c
      (s'.run p c).program c'' := by
    rw [hs]
    exact .cons first' (.cons second' (.nil _ _))
  exact (run_of_completes completes').1

/-! ## Concrete runs -/

/-- The schedule that lowers qubits, then results. -/
def qubitsFirst : Schedule :=
  empty
    |>.add .pipelineStart .qubitLowering
    |>.add .pipelineStart .resultLowering

/-- The schedule that lowers results, then qubits. -/
def resultsFirst : Schedule :=
  empty
    |>.add .pipelineStart .resultLowering
    |>.add .pipelineStart .qubitLowering

/-- A run of qubits first, where both passes have something to do. -/
theorem run_qubitsFirst {p : Program} {c : Context} (manages : p.managesQubits = true)
    (hq : (QubitLowering.run p c).failure = none)
    (measures : Pass.resultLowering.shouldRun (QubitLowering.run p c).program
      (QubitLowering.run p c).context = true)
    (hr : (ResultLowering.run (QubitLowering.run p c).program
      (QubitLowering.run p c).context).failure = none) :
    (qubitsFirst.run p c).failure = none ∧
      (qubitsFirst.run p c).context.qubits = (QubitLowering.run p c).context.qubits := by
  have first : Pass.qubitLowering.Ends p c _ _ := .ran manages hq
  have second : Pass.resultLowering.Ends _ _ _ _ := .ran measures hr
  obtain ⟨failure, -, context⟩ := run_of_completes (s := qubitsFirst)
    (.cons ⟨first, fun h => by cases h⟩ (.cons ⟨second, fun h => by cases h⟩ (.nil _ _)))
  refine ⟨failure, ?_⟩
  rw [context]
  exact ResultLowering.qubits_of_ends second

open QubitLowering (reusing)

theorem lowerings_commute_coinFlip :
    coinFlip.verify = .ok () ∧ coinFlip.KeepsRecursion ∧ reusing.qubits.policy = .reuse ∧
      (qubitsFirst.run coinFlip reusing).failure = none ∧
      (resultsFirst.run coinFlip reusing).failure = none ∧
      (resultsFirst.run coinFlip reusing).program = (qubitsFirst.run coinFlip reusing).program := by
  have decided : QubitLowering.plan (QubitLowering.managers coinFlip ≤ 1) (reusing.stock .qubit)
      (coinFlip.functions.head (by decide)) =
        ⟨[(⟨0, 0⟩, .acquired ⟨0⟩ 0), (⟨0, 1⟩, .stays), (⟨0, 2⟩, .stays),
            (⟨0, 3⟩, .released (.single .qubit 0)), (⟨0, 4⟩, .stays)],
          ⟨⟨.reuse, none, 1, (∅ : Std.TreeSet ℕ).insert 0⟩,
            ⟨SortedMap.empty.insert ⟨0⟩ (.known (.single .qubit 0)),
              [⟨.qubit, 0, 1, ⟨0⟩⟩]⟩⟩, none⟩ := by
    cbv
  obtain ⟨hq, program, context⟩ := QubitLowering.run_of_plan rfl rfl decided
  have ends : (qubitsFirst.run coinFlip reusing).failure = none := by
    refine (run_qubitsFirst (by decide) hq ?_ ?_).1
    · rw [program]
      rfl
    · rw [program, context]
      cbv
  obtain ⟨either, same⟩ := lowerings_commute qubitsFirst resultsFirst rfl rfl rfl coinFlip
    (by decide) reusing (fun _ => rfl) fun _ _ => by decide
  exact ⟨by decide, by decide, rfl, ends, either.1 ends, (same ends).1⟩

/-- A function that is named like measuring into a result. It acquires a qubit and
releases it, and then acquires and measures another one. -/
def remeasureMain : Function where
  name := Intrinsics.measureInto
  params := [⟨⟨0⟩, .qubit⟩, ⟨⟨1⟩, .result⟩]
  signature := []
  returnType := .void
  blocks := [⟨⟨0⟩, "entry", [
    ⟨some ⟨2⟩, .qubit, .call Intrinsics.acquireQubit []⟩,
    .call Intrinsics.releaseQubit [.value ⟨2⟩],
    ⟨some ⟨3⟩, .qubit, .call Intrinsics.acquireQubit []⟩,
    ⟨some ⟨4⟩, .result, .call Intrinsics.measure [.value ⟨3⟩]⟩], some (.ret none)⟩]
  attributes := .empty

/-- The program of that function alone. -/
def remeasure : Program where
  name := "remeasure"
  functions := [remeasureMain]
  flags := .empty
  nextValue := 5

/-- **It matters which pass is first**: once results are lowered the function calls
itself, so that the second qubit does not get the address of the first one. -/
theorem not_lowerings_commute :
    remeasure.verify = .ok () ∧ reusing.tracker = .empty ∧
      qubitsFirst.pipeline.map Prod.snd = [.qubitLowering, .resultLowering] ∧
      resultsFirst.pipeline.map Prod.snd = [.resultLowering, .qubitLowering] ∧
      (qubitsFirst.run remeasure reusing).failure = none ∧
      (qubitsFirst.run remeasure reusing).context.qubits.highWater = 1 ∧
      (resultsFirst.run remeasure reusing).failure = none ∧
      (resultsFirst.run remeasure reusing).context.qubits.highWater = 2 := by
  have decided : QubitLowering.plan (QubitLowering.managers remeasure ≤ 1) (reusing.stock .qubit)
      remeasureMain =
        ⟨[(⟨0, 0⟩, .acquired ⟨2⟩ 0), (⟨0, 1⟩, .released (.single .qubit 0)),
            (⟨0, 2⟩, .acquired ⟨3⟩ 0), (⟨0, 3⟩, .stays)],
          ⟨⟨.reuse, none, 1, ∅⟩,
            ⟨(SortedMap.empty.insert ⟨2⟩ (.known (.single .qubit 0))).insert ⟨3⟩
              (.known (.single .qubit 0)),
              [⟨.qubit, 0, 1, ⟨3⟩⟩, ⟨.qubit, 0, 1, ⟨2⟩⟩]⟩⟩, none⟩ := by
    cbv
  obtain ⟨hq, program, context⟩ := QubitLowering.run_of_plan rfl rfl decided
  obtain ⟨ends, qubits⟩ := run_qubitsFirst (p := remeasure) (c := reusing) (by decide) hq
    (by rw [program]; rfl) (by rw [program, context]; cbv)
  refine ⟨by decide, rfl, rfl, rfl, ends, ?_, by cbv, by cbv⟩
  rw [qubits, context]
  rfl

end Schedule

end QuantumLowering
