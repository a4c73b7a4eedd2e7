import QuantumLowering.Pass.Schedule
import QuantumLowering.Proofs.Pass.Soundness
/-!
# Verifying after every pass changes nothing

Two runs of a schedule of sound passes side by side, one that verifies the
program after every pass and one that does not. They are the same, and the
program stays well formed, as long as every call that measures into a result
passes two arguments or nothing is declared of it (`Outcome.Beside`). Lowering
a measurement declares it; so `Schedule.transparent_iff` says exactly when
verifying finds nothing.
-/


namespace QuantumLowering

/-! ## Programs on the way -/

section

variable {pairs : Prop} {p : Program}

/-- **What is known of a program on the way**, where `pairs` says whether every call that
measures into a result passes two arguments. -/
structure Program.Steady (pairs : Prop) (p : Program) : Prop where
  /-- The program is tidy. -/
  tidy : p.Tidy
  /-- Its calls pass what they did at the start. -/
  pairs_iff : p.PassesPairs ↔ pairs
  /-- It is well formed unless a declaration makes a call wrong. -/
  wellFormed : (p.DeclaresResults → pairs) → p.WellFormed

/-- Only such a declaration makes it ill formed. -/
theorem Program.Steady.wellFormed_iff (h : p.Steady pairs) :
    p.WellFormed ↔ (p.DeclaresResults → pairs) :=
  ⟨fun wf declared => h.pairs_iff.1 (wf.passesPairs h.tidy.takes declared), h.wellFormed⟩

/-- A well-formed program at the start. -/
theorem Program.WellFormed.steady (wf : p.WellFormed) (takes : p.TakesPairs) :
    p.Steady p.PassesPairs :=
  ⟨⟨wf.values, takes⟩, .rfl, fun _ => wf⟩

end

namespace Outcome

variable {pairs : Prop} {o off on : Outcome} {next next' : Program → Context → Outcome}

/-- What is declared stays declared while a run goes on. -/
theorem declares_andThen (h : o.program.DeclaresResults)
    (hnext : ∀ p c, p.DeclaresResults → (next p c).program.DeclaresResults) :
    (o.andThen next).program.DeclaresResults := by
  unfold Outcome.andThen
  cases o.failure with
  | some e => exact h
  | none => exact hnext _ _ h

/-- **What is known of a run** that does not verify after its passes. -/
structure Steady (pairs : Prop) (o : Outcome) : Prop where
  /-- At a good end, what is known of programs. -/
  program : o.failure = none → o.program.Steady pairs
  /-- A failure does not blame the structure of a program, unless a declaration made a call
  wrong. -/
  harmless : (o.program.DeclaresResults → pairs) → ∀ e, o.failure = some e → ¬ e.Structural

theorem Steady.andThen (h : o.Steady pairs)
    (hnext : ∀ p c, p.Steady pairs → (next p c).Steady pairs) : (o.andThen next).Steady pairs := by
  unfold Outcome.andThen
  cases hf : o.failure with
  | some e => exact h
  | none =>
    have later := hnext o.program o.context (h.program hf)
    exact ⟨later.program, later.harmless⟩

/-- **A run that verifies after every pass, beside one that does not.** -/
structure Beside (pairs : Prop) (off on : Outcome) : Prop where
  /-- What is known of the run that does not verify. -/
  steady : off.Steady pairs
  /-- The runs are the same until a declaration makes a call wrong. -/
  same : (off.program.DeclaresResults → pairs) → on = off
  /-- Then the one that verifies has failed for the structure of the program. -/
  fails : ¬ (off.program.DeclaresResults → pairs) → ∃ e, on.failure = some e ∧ e.Structural

namespace Beside

theorem refl (h : o.Steady pairs) (fits : o.program.DeclaresResults → pairs) : Beside pairs o o :=
  ⟨h, fun _ => rfl, fun wrong => absurd fits wrong⟩

/-- What was said before does not matter. -/
theorem withLog (h : Beside pairs off on) (log : Log) :
    Beside pairs { off with log := log ++ off.log } { on with log := log ++ on.log } where
  steady := ⟨h.steady.program, h.steady.harmless⟩
  same fits := by rw [h.same fits]
  fails := h.fails

/-- **Two runs go on side by side.** -/
theorem andThen (h : Beside pairs off on)
    (declares : ∀ p c, p.DeclaresResults → (next p c).program.DeclaresResults)
    (steady : ∀ p c, p.Steady pairs → (next p c).Steady pairs)
    (beside : ∀ p c, p.Steady pairs → (p.DeclaresResults → pairs) →
      Beside pairs (next p c) (next' p c)) :
    Beside pairs (off.andThen next) (on.andThen next') := by
  by_cases fits : off.program.DeclaresResults → pairs
  · obtain rfl := h.same fits
    unfold Outcome.andThen
    cases hf : on.failure with
    | some e => exact h
    | none => exact (beside _ _ (h.steady.program hf) fits).withLog _
  · -- the run that verifies is over, and in the other one the declaration stays
    obtain ⟨e, hfail, structural⟩ := h.fails fits
    obtain ⟨declared, wrong⟩ := Classical.not_imp.1 fits
    have ended : on.andThen next' = on := by simp [Outcome.andThen, hfail]
    rw [ended]
    refine ⟨h.steady.andThen steady, fun fits' => ?_, fun _ => ⟨e, hfail, structural⟩⟩
    exact absurd (fits' (declares_andThen declared declares)) wrong

end Beside

end Outcome

namespace Schedule

variable {pairs : Prop} {p : Program} {c : Context} {pass : Pass} {hook : Hook}

/-! ## One pass -/

theorem steady_start (h : p.Steady pairs) (c : Context) (log : Log) :
    Outcome.Steady pairs ⟨p, c, none, log⟩ :=
  ⟨fun _ => h, fun _ _ he => nomatch he⟩

/-- Verifying after a pass finds what a declaration made wrong, and nothing else. -/
theorem beside_finishPass (h : p.Steady pairs) :
    Outcome.Beside pairs (finishPass false pass p c) (finishPass true pass p c) := by
  refine ⟨steady_start h c _, fun fits => ?_, fun wrong => ?_⟩
  · have verified : p.verify = .ok () := Program.verify_eq_ok_iff.2 (h.wellFormed fits)
    simp [finishPass, verified]
  · cases hv : p.verify with
    | ok => exact absurd (h.wellFormed_iff.1 (Program.verify_eq_ok_iff.1 hv)) wrong
    | error defect => exact ⟨.verification pass.name defect, by simp [finishPass, hv], trivial⟩

/-- So it is where a pass was run that declares nothing if it fails. -/
theorem beside_andThen_finishPass {o : Outcome} (h : o.Steady pairs)
    (failed : ∀ e, o.failure = some e → o.program.DeclaresResults → pairs) :
    Outcome.Beside pairs (o.andThen (finishPass false pass))
      (o.andThen (finishPass true pass)) := by
  unfold Outcome.andThen
  cases hf : o.failure with
  | some e => exact .refl h (failed e hf)
  | none => exact (beside_finishPass (h.program hf)).withLog _

/-- **A sound pass** takes a program on its way to another one. -/
theorem steady_run (hs : pass.Sound) (h : p.Steady pairs) : (pass.run p c).Steady pairs := by
  have before (fits : (pass.run p c).program.DeclaresResults → pairs) : p.WellFormed :=
    h.wellFormed fun declared => fits (hs.declares p c declared)
  refine ⟨fun hf => ?_, fun fits => hs.fails p c (before fits)⟩
  obtain ⟨tidy, kept⟩ := hs.keeps p c h.tidy hf
  have pairs_iff := kept.trans h.pairs_iff
  refine ⟨tidy, pairs_iff, fun fits => ?_⟩
  exact hs.wellFormed p c h.tidy.takes (before fits) hf fun declared => pairs_iff.2 (fits declared)

theorem steady_runPass (hs : pass.Sound) (h : p.Steady pairs) :
    (runPass false hook pass p c).Steady pairs := by
  simp only [runPass]
  split
  · exact ((steady_start h c _).andThen fun _ _ h => steady_run hs h).andThen
      fun _ c h => steady_start h c _
  · exact steady_start h c _

theorem declares_runPass (hs : pass.Sound) (h : p.DeclaresResults) :
    (runPass false hook pass p c).program.DeclaresResults := by
  simp only [runPass]
  split
  · exact Outcome.declares_andThen (Outcome.declares_andThen h hs.declares) fun _ _ h => h
  · exact h

/-- **A sound pass runs the same** whether the program is verified after it or not, unless it
declares what makes a call wrong. -/
theorem beside_runPass (hs : pass.Sound) (h : p.Steady pairs)
    (fits : p.DeclaresResults → pairs) :
    Outcome.Beside pairs (runPass false hook pass p c) (runPass true hook pass p c) := by
  simp only [runPass]
  split
  · refine beside_andThen_finishPass ((steady_start h c _).andThen fun _ _ => steady_run hs) ?_
    -- a pass that fails declares nothing
    exact fun e hf declared => fits (hs.undeclared p c e hf declared)
  · exact .refl (steady_start h c _) fits

/-! ## All passes -/

/-- **Sound passes one after the other**, in two runs side by side. -/
theorem beside_runAll {passes : List (Hook × Pass)} (hs : ∀ e ∈ passes, e.2.Sound)
    {off on : Outcome} (h : Outcome.Beside pairs off on) :
    Outcome.Beside pairs (runAll false passes off) (runAll true passes on) := by
  unfold runAll
  induction passes generalizing off on with
  | nil => exact h
  | cons e passes ih =>
    have he := hs e List.mem_cons_self
    refine ih (fun d hd => hs d (List.mem_cons_of_mem e hd)) ?_
    exact h.andThen (fun _ _ => declares_runPass he) (fun _ _ => steady_runPass he)
      fun _ _ => beside_runPass he

theorem sound_of_mem_pipeline {s : Schedule}
    (hs : ∀ hook, ∀ pass ∈ s.slots hook, pass ∈ Pass.builtin) :
    ∀ e ∈ s.pipeline, e.2.Sound := by
  intro e he
  obtain ⟨hook, -, he⟩ := List.mem_flatMap.1 he
  obtain ⟨pass, hpass, rfl⟩ := List.mem_map.1 he
  exact Pass.sound_of_mem_builtin (hs hook pass hpass)

section Runs

variable (s : Schedule) (hs : ∀ hook, ∀ pass ∈ s.slots hook, pass ∈ Pass.builtin)
variable (hp : p.verify = .ok ()) (takes : p.TakesPairs) (c : Context)

include hs hp takes

/-- **A schedule that verifies after every pass beside one that does not.** -/
theorem beside_run :
    Outcome.Beside p.PassesPairs (Schedule.run { s with verifyEach := false } p c)
      (Schedule.run { s with verifyEach := true } p c) := by
  have wf := Program.verify_eq_ok_iff.1 hp
  have start : Outcome.Beside p.PassesPairs ⟨p, c, none, [s.opening p]⟩
      ⟨p, c, none, [s.opening p]⟩ :=
    .refl (steady_start (wf.steady takes) c _) fun declared => wf.passesPairs takes declared
  change Outcome.Beside p.PassesPairs ((runAll false s.pipeline _).andThen _)
    ((runAll true s.pipeline _).andThen _)
  exact (beside_runAll (sound_of_mem_pipeline hs) start).andThen (fun _ _ h => h)
    (fun _ c h => steady_start h c _) fun _ c h fits => .refl (steady_start h c _) fits

omit hs hp takes in
/-- A schedule verifies after every pass, or it does not. -/
theorem run_cases : s.run p c = Schedule.run { s with verifyEach := false } p c ∨
    s.run p c = Schedule.run { s with verifyEach := true } p c := by
  obtain ⟨slots, verifyEach⟩ := s
  cases verifyEach with
  | false => exact .inl rfl
  | true => exact .inr rfl

/-- **A program that a schedule ends well with is well formed** exactly if nothing makes a
call wrong that measures into a result. -/
theorem verify_run_iff (h : (s.run p c).failure = none) :
    (s.run p c).program.verify = .ok () ↔
      ((s.run p c).program.DeclaresResults → p.PassesPairs) := by
  have beside := beside_run s hs hp takes c
  rw [Program.verify_eq_ok_iff]
  rcases run_cases s c with off | on
  · rw [off] at h ⊢
    exact (beside.steady.program h).wellFormed_iff
  · by_cases fits : (Schedule.run { s with verifyEach := false } p c).program.DeclaresResults →
        p.PassesPairs
    · rw [on, beside.same fits] at h ⊢
      exact (beside.steady.program h).wellFormed_iff
    · obtain ⟨e, hfail, -⟩ := beside.fails fits
      cases (on ▸ h).symm.trans hfail

end Runs

/-- **Verifying after every pass is of no consequence.** -/
structure Transparent (s : Schedule) (p : Program) (c : Context) : Prop where
  /-- What ends well is well formed. -/
  verifies : (s.run p c).failure = none → (s.run p c).program.verify = .ok ()
  /-- A failure does not blame the structure of the program. -/
  harmless : ∀ e, (s.run p c).failure = some e → ¬ e.Structural
  /-- The run is the same whether the program is verified after every pass or not. -/
  same : Schedule.run { s with verifyEach := true } p c =
    Schedule.run { s with verifyEach := false } p c

/-- **The passes of this library keep programs well formed**, never fail for
their structure, and run the same whether programs are verified after every
pass or not: exactly if a run leaves it undeclared how to measure into a
result, or every call in the program that does so passes two arguments. -/
theorem transparent_iff (s : Schedule)
    (hs : ∀ hook, ∀ pass ∈ s.slots hook, pass ∈ Pass.builtin) (p : Program)
    (hp : p.verify = .ok ())
    (declared : ∀ g, p.function? Intrinsics.measureInto = some g → g.arity = 2) (c : Context) :
    s.Transparent p c ↔
      (((Schedule.run { s with verifyEach := false } p c).program.function?
          Intrinsics.measureInto).isSome →
        ∀ f ∈ p.definitions, ∀ i ∈ f.instructions,
          i.isCallTo Intrinsics.measureInto → i.args.length = 2) := by
  have beside := beside_run s hs hp declared c
  constructor
  · intro transparent
    by_contra wrong
    -- otherwise the run that verifies has failed, and the schedule runs in the same way
    obtain ⟨e, hfail, structural⟩ := beside.fails wrong
    have run : s.run p c = Schedule.run { s with verifyEach := true } p c := by
      rcases run_cases s c with off | on
      · rw [off, transparent.same]
      · exact on
    exact transparent.harmless e (run ▸ hfail) structural
  · intro fits
    have same := beside.same fits
    have run : s.run p c = Schedule.run { s with verifyEach := false } p c := by
      rcases run_cases s c with off | on
      · exact off
      · rw [on, same]
    refine ⟨fun h => (verify_run_iff s hs hp declared c h).2 ?_, ?_, same⟩
    · rw [run]
      exact fits
    · rw [run]
      exact beside.steady.harmless fits

theorem mem_builtin_of_mem_allocation (hook : Hook) :
    ∀ pass ∈ Schedule.allocation.slots hook, pass ∈ Pass.builtin := by
  cases hook <;> simp [allocation, add, extend, empty, Pass.builtin]

/-! ## Two programs -/

/-- A program whose only function is an entry point with one block. -/
def straightLine (name : String) (instructions : List Instruction) : Program where
  name := name
  functions := [{
    name := "main"
    params := []
    signature := []
    returnType := .void
    blocks := [⟨⟨0⟩, "entry", instructions, some (.ret none)⟩]
    attributes := SortedMap.empty.insert Function.entryPointAttribute "" }]
  flags := .empty
  nextValue := instructions.length

/-- A qubit is acquired, measured and released, and what was measured is
recorded. -/
def coinFlip : Program := straightLine "coin" [
  ⟨some ⟨0⟩, .qubit, .call Intrinsics.acquireQubit []⟩,
  .call "__quantum__qis__h__body" [.value ⟨0⟩],
  ⟨some ⟨1⟩, .result, .call Intrinsics.measure [.value ⟨0⟩]⟩,
  .call Intrinsics.releaseQubit [.value ⟨0⟩],
  .call "__quantum__rt__result_record_output" [.value ⟨1⟩, .null]]

/-- A measurement beside a call that measures into a result and does not
say which. -/
def undeclaredMeasurement : Program := straightLine "undeclared" [
  ⟨some ⟨0⟩, .result, .call Intrinsics.measure [.qubit 0]⟩,
  .call Intrinsics.measureInto [.qubit 0]]

/-- A qubit is measured into no result, which nobody notices as long as nothing says how it
is done. -/
def unreadMeasurement : Program := straightLine "unread" [
  ⟨some ⟨0⟩, .qubit, .call Intrinsics.acquireQubit []⟩,
  .call Intrinsics.measureInto [.value ⟨0⟩]]

theorem transparent_iff_coinFlip :
    coinFlip.verify = .ok () ∧ coinFlip.function? Intrinsics.measureInto = none ∧
      coinFlip.PassesPairs ∧ Schedule.allocation.Transparent coinFlip .default ∧
    unreadMeasurement.verify = .ok () ∧ ¬ unreadMeasurement.PassesPairs ∧
      Schedule.allocation.Transparent unreadMeasurement .default := by
  have coin := transparent_iff .allocation mem_builtin_of_mem_allocation coinFlip
    (by decide) (by decide) .default
  have unread := transparent_iff .allocation mem_builtin_of_mem_allocation unreadMeasurement
    (by decide) (by decide) .default
  have undeclared : (Schedule.allocation.run unreadMeasurement .default).program.function?
      Intrinsics.measureInto = none := rfl
  refine ⟨by decide, by decide, by decide, coin.2 fun _ => by decide, by decide, by decide,
    unread.2 fun declared => ?_⟩
  change ((Schedule.allocation.run unreadMeasurement .default).program.function?
    Intrinsics.measureInto).isSome at declared
  rw [undeclared] at declared
  cases declared

/-- **The declaration makes other calls wrong**: a well-formed program that
does not declare how to measure into a result need not stay well formed. -/
theorem not_sound_of_undeclared :
    undeclaredMeasurement.verify = .ok () ∧
      (∀ g, undeclaredMeasurement.function? Intrinsics.measureInto = some g → g.arity = 2) ∧
      (Schedule.allocation.run undeclaredMeasurement .default).failure = none ∧
      (Schedule.allocation.run undeclaredMeasurement .default).program.verify =
        .error (.arityMismatch Intrinsics.measureInto 2 1) ∧
      (Schedule.run { Schedule.allocation with verifyEach := true } undeclaredMeasurement
          .default).failure =
        some (.verification "result-allocation" (.arityMismatch Intrinsics.measureInto 2 1)) :=
  ⟨by decide, by decide, rfl, rfl, rfl⟩

end Schedule

end QuantumLowering
