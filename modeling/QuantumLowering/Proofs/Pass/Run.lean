import QuantumLowering.Pass.Schedule
/-!
# Runs of a schedule

A run that ends well went through its passes one by one, each of which
found nothing to do or ended well itself (`Schedule.Runs`). The log aside,
verifying after every pass leaves no trace in such a run, which ends well
just when every pass completes (`Schedule.completes_iff`). Any other run is
broken off by the first pass that does not (`Schedule.breaksOff_iff`).
-/


namespace QuantumLowering

namespace Outcome

variable {o : Outcome} {next : Program → Context → Outcome}

/-- Nothing goes on from a failure. -/
theorem andThen_of_failure {e : Failure} (h : o.failure = some e) : o.andThen next = o := by
  simp [andThen, h]

/-- What goes on from an outcome ends well if both end well. -/
theorem failure_andThen :
    (o.andThen next).failure = none ↔
      o.failure = none ∧ (next o.program o.context).failure = none := by
  unfold andThen
  cases ho : o.failure with
  | none => simp
  | some e => simp [ho]

/-- After an outcome that ended well, everything but the log is as what goes on has it. -/
theorem failure_andThen_of_none (h : o.failure = none) :
    (o.andThen next).failure = (next o.program o.context).failure := by
  simp [andThen, h]

theorem program_andThen (h : o.failure = none) :
    (o.andThen next).program = (next o.program o.context).program := by
  simp [andThen, h]

theorem context_andThen (h : o.failure = none) :
    (o.andThen next).context = (next o.program o.context).context := by
  simp [andThen, h]

end Outcome

/-- **A pass ends well**: it found nothing to do, or it ran and did not
fail. -/
inductive Pass.Ends (pass : Pass) (p : Program) (c : Context) : Program → Context → Prop
  /-- There was nothing to do. -/
  | skipped : pass.shouldRun p c = false → Ends pass p c p c
  /-- It ran. -/
  | ran : pass.shouldRun p c = true → (pass.run p c).failure = none →
    Ends pass p c (pass.run p c).program (pass.run p c).context

/-- **A pass completes**: it ends well, and if programs are verified after every
pass that ran, what it leaves is well formed. -/
structure Pass.Completes (verifyEach : Bool) (pass : Pass) (p : Program) (c : Context)
    (p' : Program) (c' : Context) : Prop where
  /-- It ends well. -/
  ends : pass.Ends p c p' c'
  /-- What it leaves passes verification. -/
  verified : verifyEach = true → pass.shouldRun p c = true → p'.verify = .ok ()

/-- A pass that has nothing to do completes. -/
theorem Pass.Completes.skipped {verifyEach : Bool} {pass : Pass} {p : Program} {c : Context}
    (h : pass.shouldRun p c = false) : pass.Completes verifyEach p c p c :=
  ⟨.skipped h, fun _ hran => absurd (h.symm.trans hran) Bool.false_ne_true⟩

/-- **A pass breaks a run off**: it ran and failed, or what it left does not pass
verification where that is wanted. Either way the program and the context are those
that the pass left. -/
inductive Pass.Breaks (verifyEach : Bool) (pass : Pass) (p : Program) (c : Context) :
    Program → Context → Failure → Prop
  /-- It failed. -/
  | failed {e : Failure} : pass.shouldRun p c = true → (pass.run p c).failure = some e →
    Breaks verifyEach pass p c (pass.run p c).program (pass.run p c).context e
  /-- It ended well, and the program has a defect. -/
  | unverified {defect : Defect} : verifyEach = true → pass.shouldRun p c = true →
    (pass.run p c).failure = none → (pass.run p c).program.verify = .error defect →
    Breaks verifyEach pass p c (pass.run p c).program (pass.run p c).context
      (.verification pass.name defect)

namespace Schedule

/-- **A run that ends well**, pass by pass. -/
inductive Runs : List Pass → Program → Context → Program → Context → Prop
  /-- There is no pass. -/
  | nil (p : Program) (c : Context) : Runs [] p c p c
  /-- A pass ends well, and then the others do. -/
  | cons {pass : Pass} {passes : List Pass} {p p₁ p' : Program} {c c₁ c' : Context} :
    pass.Ends p c p₁ c₁ → Runs passes p₁ c₁ p' c' → Runs (pass :: passes) p c p' c'

/-- **A run in which every pass completes.** -/
inductive Completes (verifyEach : Bool) :
    List Pass → Program → Context → Program → Context → Prop
  /-- There is no pass. -/
  | nil (p : Program) (c : Context) : Completes verifyEach [] p c p c
  /-- A pass completes, and then the others do. -/
  | cons {pass : Pass} {passes : List Pass} {p p₁ p' : Program} {c c₁ c' : Context} :
    pass.Completes verifyEach p c p₁ c₁ → Completes verifyEach passes p₁ c₁ p' c' →
      Completes verifyEach (pass :: passes) p c p' c'

variable {verifyEach : Bool} {p : Program} {c : Context}

/-- What follows a pass changes nothing. -/
theorem finishPass_unchanged {pass : Pass} :
    (finishPass verifyEach pass p c).program = p ∧
      (finishPass verifyEach pass p c).context = c := by
  unfold finishPass
  split <;> exact ⟨rfl, rfl⟩

/-- It ends well if the program passes verification, where that is wanted. -/
theorem failure_finishPass {pass : Pass} :
    (finishPass verifyEach pass p c).failure = none ↔
      (verifyEach = true → p.verify = .ok ()) := by
  unfold finishPass
  cases verifyEach with
  | false => simp
  | true => cases p.verify <;> simp

/-- **A pass that ends well in a schedule completes.** -/
theorem completes_of_runPass {hook : Hook} {pass : Pass}
    (h : (runPass verifyEach hook pass p c).failure = none) :
    pass.Completes verifyEach p c (runPass verifyEach hook pass p c).program
      (runPass verifyEach hook pass p c).context := by
  simp only [runPass] at h ⊢
  cases hrun : pass.shouldRun p c with
  | false =>
    simp only [Bool.false_eq_true, if_false]
    exact .skipped hrun
  | true =>
    simp only [hrun, if_true] at h ⊢
    obtain ⟨hpass, hfinish⟩ := Outcome.failure_andThen.1 h
    rw [Outcome.program_andThen hpass, Outcome.context_andThen hpass, finishPass_unchanged.1,
      finishPass_unchanged.2]
    exact ⟨.ran hrun hpass, fun hv _ => failure_finishPass.1 hfinish hv⟩

/-- And one that completes ends well in a schedule. -/
theorem runPass_of_completes (hook : Hook) {pass : Pass} {p' : Program} {c' : Context}
    (h : pass.Completes verifyEach p c p' c') :
    (runPass verifyEach hook pass p c).failure = none ∧
      (runPass verifyEach hook pass p c).program = p' ∧
        (runPass verifyEach hook pass p c).context = c' := by
  obtain ⟨ends, verified⟩ := h
  simp only [runPass]
  cases ends with
  | skipped hno =>
    rw [if_neg (by simp [hno])]
    exact ⟨rfl, rfl, rfl⟩
  | ran hrun hpass =>
    have start : ∀ log, ((⟨p, c, none, log⟩ : Outcome).andThen pass.run).failure = none :=
      fun _ => hpass
    rw [if_pos hrun, Outcome.failure_andThen, Outcome.program_andThen (start _),
      Outcome.context_andThen (start _), finishPass_unchanged.1, finishPass_unchanged.2]
    exact ⟨⟨hpass, failure_finishPass.2 fun hv => verified hv hrun⟩, rfl, rfl⟩

theorem completes_of_runAll {passes : List (Hook × Pass)} {start : Outcome}
    (h : (runAll verifyEach passes start).failure = none) :
    start.failure = none ∧
      Completes verifyEach (passes.map Prod.snd) start.program start.context
        (runAll verifyEach passes start).program (runAll verifyEach passes start).context := by
  unfold runAll at h ⊢
  induction passes generalizing start with
  | nil => exact ⟨h, .nil _ _⟩
  | cons e passes ih =>
    obtain ⟨hnext, rest⟩ := ih h
    obtain ⟨hstart, hpass⟩ := Outcome.failure_andThen.1 hnext
    rw [Outcome.program_andThen hstart, Outcome.context_andThen hstart] at rest
    exact ⟨hstart, .cons (completes_of_runPass hpass) rest⟩

/-- **In a run that ends well every pass completes.** -/
theorem completes_of_run {s : Schedule} (h : (s.run p c).failure = none) :
    Completes s.verifyEach (s.pipeline.map Prod.snd) p c (s.run p c).program
      (s.run p c).context := by
  unfold run at h ⊢
  obtain ⟨hall, -⟩ := Outcome.failure_andThen.1 h
  rw [Outcome.program_andThen hall, Outcome.context_andThen hall]
  exact (completes_of_runAll hall).2

/-- Two passes complete one after the other. -/
theorem Completes.of_pair {pass pass' : Pass} {p' : Program} {c' : Context}
    (h : Completes verifyEach [pass, pass'] p c p' c') :
    ∃ p₁ c₁, pass.Completes verifyEach p c p₁ c₁ ∧ pass'.Completes verifyEach p₁ c₁ p' c' := by
  cases h with
  | @cons _ _ _ p₁ _ _ c₁ _ first rest =>
  cases rest with
  | cons second rest =>
  cases rest with
  | nil => exact ⟨p₁, c₁, first, second⟩

theorem Completes.runs {passes : List Pass} {p' : Program} {c' : Context}
    (h : Completes verifyEach passes p c p' c') : Runs passes p c p' c' := by
  induction h with
  | nil p c => exact .nil p c
  | cons first _ ih => exact .cons first.ends ih

/-- **A run that ends well goes through its passes one by one.** -/
theorem runs_of_run {s : Schedule} (h : (s.run p c).failure = none) :
    Runs (s.pipeline.map Prod.snd) p c (s.run p c).program (s.run p c).context :=
  (completes_of_run h).runs

theorem runAll_of_completes {passes : List (Hook × Pass)} {start : Outcome} {p' : Program}
    {c' : Context} (hstart : start.failure = none)
    (h : Completes verifyEach (passes.map Prod.snd) start.program start.context p' c') :
    (runAll verifyEach passes start).failure = none ∧
      (runAll verifyEach passes start).program = p' ∧
        (runAll verifyEach passes start).context = c' := by
  unfold runAll
  induction passes generalizing start with
  | nil =>
    cases h
    exact ⟨hstart, rfl, rfl⟩
  | cons e passes ih =>
    cases h with
    | cons first rest =>
      obtain ⟨hpass, rfl, rfl⟩ := runPass_of_completes e.1 first
      refine ih (Outcome.failure_andThen.2 ⟨hstart, hpass⟩) ?_
      rwa [Outcome.program_andThen hstart, Outcome.context_andThen hstart]

/-- **And if every pass completes, a run ends well** with what the last one leaves. -/
theorem run_of_completes {s : Schedule} {p' : Program} {c' : Context}
    (h : Completes s.verifyEach (s.pipeline.map Prod.snd) p c p' c') :
    (s.run p c).failure = none ∧ (s.run p c).program = p' ∧ (s.run p c).context = c' := by
  have hstart : (⟨p, c, none, [s.opening p]⟩ : Outcome).failure = none := rfl
  obtain ⟨hall, hp, hc⟩ := runAll_of_completes hstart h
  unfold run
  rw [Outcome.failure_andThen, Outcome.program_andThen hall, Outcome.context_andThen hall]
  exact ⟨⟨hall, rfl⟩, hp, hc⟩

/-- **A run ends well just when every pass completes.** -/
theorem completes_iff {s : Schedule} {p' : Program} {c' : Context} :
    (s.run p c).failure = none ∧ (s.run p c).program = p' ∧ (s.run p c).context = c' ↔
      Completes s.verifyEach (s.pipeline.map Prod.snd) p c p' c' := by
  refine ⟨?_, run_of_completes⟩
  rintro ⟨h, rfl, rfl⟩
  exact completes_of_run h

/-! ## Runs that break off -/

variable {p' : Program} {c' : Context} {e : Failure}

theorem finishPass_of_defect {pass : Pass} {defect : Defect} (h : p.verify = .error defect) :
    (finishPass true pass p c).failure = some (.verification pass.name defect) := by
  simp only [finishPass, if_true, h]

/-- If what follows a pass fails, the program has a defect. -/
theorem exists_of_failure_finishPass {pass : Pass}
    (h : (finishPass verifyEach pass p c).failure = some e) :
    verifyEach = true ∧
      ∃ defect, p.verify = .error defect ∧ e = .verification pass.name defect := by
  unfold finishPass at h
  cases verifyEach with
  | false => cases h
  | true =>
    cases hv : p.verify with
    | ok u => simp [hv] at h
    | error defect =>
      simp only [if_true, hv, Option.some.injEq] at h
      exact ⟨rfl, defect, rfl, h.symm⟩

/-- A pass with something to do is run, and then what follows a pass. -/
theorem runPass_of_shouldRun (verifyEach : Bool) (hook : Hook) {pass : Pass}
    (h : pass.shouldRun p c = true) :
    ∃ log, runPass verifyEach hook pass p c =
      ((Outcome.mk p c none log).andThen pass.run).andThen (finishPass verifyEach pass) := by
  simp only [runPass, h, if_true]
  exact ⟨_, rfl⟩

/-- **A pass that fails in a schedule breaks the run off.** -/
theorem breaks_of_runPass {hook : Hook} {pass : Pass}
    (h : (runPass verifyEach hook pass p c).failure = some e) :
    pass.Breaks verifyEach p c (runPass verifyEach hook pass p c).program
      (runPass verifyEach hook pass p c).context e := by
  cases hrun : pass.shouldRun p c with
  | false => simp [runPass, hrun] at h
  | true =>
    obtain ⟨log, heq⟩ := runPass_of_shouldRun verifyEach hook hrun
    rw [heq] at h ⊢
    cases hpass : (pass.run p c).failure with
    | none =>
      have ran : ((Outcome.mk p c none log).andThen pass.run).failure = none := hpass
      rw [Outcome.failure_andThen_of_none ran] at h
      rw [Outcome.program_andThen ran, Outcome.context_andThen ran, finishPass_unchanged.1,
        finishPass_unchanged.2]
      obtain ⟨hv, defect, hdefect, rfl⟩ := exists_of_failure_finishPass h
      exact .unverified hv hrun hpass hdefect
    | some e' =>
      have ran : ((Outcome.mk p c none log).andThen pass.run).failure = some e' := hpass
      rw [Outcome.andThen_of_failure ran] at h ⊢
      obtain rfl := Option.some.inj (ran.symm.trans h)
      exact .failed hrun hpass

/-- And one that breaks the run off fails in a schedule. -/
theorem runPass_of_breaks (hook : Hook) {pass : Pass} (h : pass.Breaks verifyEach p c p' c' e) :
    (runPass verifyEach hook pass p c).failure = some e ∧
      (runPass verifyEach hook pass p c).program = p' ∧
        (runPass verifyEach hook pass p c).context = c' := by
  cases h with
  | failed hrun hpass =>
    obtain ⟨log, heq⟩ := runPass_of_shouldRun verifyEach hook hrun
    have ran : ((Outcome.mk p c none log).andThen pass.run).failure = some e := hpass
    rw [heq, Outcome.andThen_of_failure ran]
    exact ⟨ran, rfl, rfl⟩
  | unverified hv hrun hpass hdefect =>
    obtain ⟨log, heq⟩ := runPass_of_shouldRun verifyEach hook hrun
    have ran : ((Outcome.mk p c none log).andThen pass.run).failure = none := hpass
    rw [heq, Outcome.failure_andThen_of_none ran, Outcome.program_andThen ran,
      Outcome.context_andThen ran, finishPass_unchanged.1, finishPass_unchanged.2, hv]
    exact ⟨finishPass_of_defect hdefect, rfl, rfl⟩

/-- **Where a run breaks off**: the passes in front of one complete, and that one breaks
it off. The passes behind it do not matter. -/
def BreaksOff (verifyEach : Bool) (passes : List Pass) (p : Program) (c : Context) (p' : Program)
    (c' : Context) (e : Failure) : Prop :=
  ∃ before pass after p₁ c₁, passes = before ++ pass :: after ∧
    Completes verifyEach before p c p₁ c₁ ∧ pass.Breaks verifyEach p₁ c₁ p' c' e

theorem runAll_of_failure {passes : List (Hook × Pass)} {start : Outcome}
    (h : start.failure = some e) : runAll verifyEach passes start = start := by
  unfold runAll
  induction passes with
  | nil => rfl
  | cons x passes ih => rw [List.foldl_cons, Outcome.andThen_of_failure h, ih]

theorem breaksOff_of_runAll {passes : List (Hook × Pass)} {start : Outcome}
    (hstart : start.failure = none) (h : (runAll verifyEach passes start).failure = some e) :
    BreaksOff verifyEach (passes.map Prod.snd) start.program start.context
      (runAll verifyEach passes start).program (runAll verifyEach passes start).context e := by
  induction passes generalizing start with
  | nil => cases hstart.symm.trans h
  | cons x passes ih =>
    change (runAll verifyEach passes (start.andThen (runPass verifyEach x.1 x.2))).failure =
      some e at h
    change BreaksOff _ _ _ _ (runAll verifyEach passes _).program
      (runAll verifyEach passes _).context e
    cases ho : (start.andThen (runPass verifyEach x.1 x.2)).failure with
    | none =>
      -- the first pass completes, and the run breaks off further on
      obtain ⟨before, pass, after, p₁, c₁, hsplit, completes, breaks⟩ := ih ho h
      rw [Outcome.program_andThen hstart, Outcome.context_andThen hstart] at completes
      have first := completes_of_runPass (Outcome.failure_andThen.1 ho).2
      exact ⟨x.2 :: before, pass, after, p₁, c₁, by rw [List.map_cons, hsplit]; rfl,
        .cons first completes, breaks⟩
    | some e' =>
      rw [runAll_of_failure ho] at h ⊢
      rw [Outcome.failure_andThen_of_none hstart] at h
      rw [Outcome.program_andThen hstart, Outcome.context_andThen hstart]
      exact ⟨[], x.2, passes.map Prod.snd, _, _, rfl, .nil _ _, breaks_of_runPass h⟩

theorem runAll_of_breaksOff {passes : List (Hook × Pass)} {start : Outcome}
    (hstart : start.failure = none)
    (h : BreaksOff verifyEach (passes.map Prod.snd) start.program start.context p' c' e) :
    (runAll verifyEach passes start).failure = some e ∧
      (runAll verifyEach passes start).program = p' ∧
        (runAll verifyEach passes start).context = c' := by
  obtain ⟨before, pass, after, p₁, c₁, hsplit, completes, breaks⟩ := h
  obtain ⟨front, rest, rfl, rfl, hrest⟩ := List.map_eq_append_iff.1 hsplit
  obtain ⟨x, back, rfl, rfl, -⟩ := List.map_eq_cons_iff.1 hrest
  obtain ⟨hfront, rfl, rfl⟩ := runAll_of_completes hstart completes
  obtain ⟨hpass, rfl, rfl⟩ := runPass_of_breaks x.1 breaks
  have stopped : runAll verifyEach (front ++ x :: back) start =
      runAll verifyEach back
        ((runAll verifyEach front start).andThen (runPass verifyEach x.1 x.2)) := by
    unfold runAll
    rw [List.foldl_append, List.foldl_cons]
  -- from the failure on nothing changes
  rw [stopped, runAll_of_failure ((Outcome.failure_andThen_of_none hfront).trans hpass),
    Outcome.failure_andThen_of_none hfront, Outcome.program_andThen hfront,
    Outcome.context_andThen hfront]
  exact ⟨hpass, rfl, rfl⟩

/-- **A run fails just when a pass breaks it off.** -/
theorem breaksOff_iff {s : Schedule} :
    (s.run p c).failure = some e ∧ (s.run p c).program = p' ∧ (s.run p c).context = c' ↔
      BreaksOff s.verifyEach (s.pipeline.map Prod.snd) p c p' c' e := by
  have hstart : (⟨p, c, none, [s.opening p]⟩ : Outcome).failure = none := rfl
  unfold run
  constructor
  · rintro ⟨h, rfl, rfl⟩
    cases hall : (runAll s.verifyEach s.pipeline ⟨p, c, none, [s.opening p]⟩).failure with
    | none =>
      simp only [Outcome.andThen, hall] at h
      cases h
    | some e' =>
      rw [Outcome.andThen_of_failure hall] at h ⊢
      exact breaksOff_of_runAll hstart h
  · intro h
    obtain ⟨hall, hp, hc⟩ := runAll_of_breaksOff hstart h
    rw [Outcome.andThen_of_failure hall]
    exact ⟨hall, hp, hc⟩

/-! ## Runs that fail -/

/-- **A run that fails**: the passes in front of one end well, and that one
fails. -/
inductive Fails : List Pass → Program → Context → Failure → Prop
  /-- The first pass fails. -/
  | here {pass : Pass} {passes : List Pass} {p : Program} {c : Context} {e : Failure} :
    (pass.run p c).failure = some e → Fails (pass :: passes) p c e
  /-- The first pass ends well, and a later one fails. -/
  | later {pass : Pass} {passes : List Pass} {p p₁ : Program} {c c₁ : Context} {e : Failure} :
    pass.Ends p c p₁ c₁ → Fails passes p₁ c₁ e → Fails (pass :: passes) p c e

/-- After passes that complete, a later one fails. -/
theorem Completes.fails {before rest : List Pass} {p₁ : Program} {c₁ : Context}
    (h : Completes verifyEach before p c p₁ c₁) (fails : Fails rest p₁ c₁ e) :
    Fails (before ++ rest) p c e := by
  induction h with
  | nil p c => exact fails
  | cons first _ ih => exact .later first.ends (ih fails)

/-- **A run that fails does so at a pass**, unless programs are verified in between. -/
theorem fails_of_run {s : Schedule} (hs : s.verifyEach = false)
    (h : (s.run p c).failure = some e) : Fails (s.pipeline.map Prod.snd) p c e := by
  obtain ⟨before, pass, after, p₁, c₁, hsplit, completes, breaks⟩ := breaksOff_iff.1 ⟨h, rfl, rfl⟩
  rw [hsplit]
  generalize (s.run p c).context = c' at *
  generalize (s.run p c).program = p' at *
  cases breaks with
  | failed _ hpass => exact completes.fails (.here hpass)
  | unverified hv => cases hs.symm.trans hv

/-! ## What a run leaves -/

/-- **The context that a run leaves**, whether it ends well or not. Passes end
well until one fails or the run stops for another reason. -/
inductive Leaves : List Pass → Program → Context → Context → Prop
  /-- No pass runs any more. -/
  | stopped (passes : List Pass) (p : Program) (c : Context) : Leaves passes p c c
  /-- The first pass fails. -/
  | failed {pass : Pass} {p : Program} {c : Context} {e : Failure} (passes : List Pass) :
    (pass.run p c).failure = some e → Leaves (pass :: passes) p c (pass.run p c).context
  /-- The first pass ends well. -/
  | later {pass : Pass} {passes : List Pass} {p p₁ : Program} {c c₁ c' : Context} :
    pass.Ends p c p₁ c₁ → Leaves passes p₁ c₁ c' → Leaves (pass :: passes) p c c'

/-- After passes that complete, later ones leave what they leave. -/
theorem Completes.leaves {before rest : List Pass} {p₁ : Program} {c₁ : Context}
    (h : Completes verifyEach before p c p₁ c₁) (leaves : Leaves rest p₁ c₁ c') :
    Leaves (before ++ rest) p c c' := by
  induction h with
  | nil p c => exact leaves
  | cons first _ ih => exact .later first.ends (ih leaves)

/-- **A run leaves what its passes leave.** -/
theorem leaves_of_run (s : Schedule) (p : Program) (c : Context) :
    Leaves (s.pipeline.map Prod.snd) p c (s.run p c).context := by
  cases h : (s.run p c).failure with
  | none => simpa using (completes_of_run h).leaves (.stopped [] _ _)
  | some e =>
    obtain ⟨before, pass, after, p₁, c₁, hsplit, completes, breaks⟩ := breaksOff_iff.1 ⟨h, rfl, rfl⟩
    rw [hsplit]
    generalize (s.run p c).context = c' at *
    generalize (s.run p c).program = p' at *
    cases breaks with
    | failed _ hpass => exact completes.leaves (.failed after hpass)
    | unverified _ hrun hpass =>
      -- the pass itself ended well
      exact completes.leaves (.later (.ran hrun hpass) (.stopped after _ _))

/-! ## Allocation -/

/-- Lowering qubits, lowering results and stating what is needed. -/
theorem allocation_passes (verifyEach : Bool) :
    { allocation with verifyEach := verifyEach }.pipeline.map Prod.snd =
      [.qubitLowering, .resultLowering, .requirements] := rfl

/-- A run through these passes that ends well has a program after each. -/
theorem exists_ends_of_run {s : Schedule}
    (hs : s.pipeline.map Prod.snd = [.qubitLowering, .resultLowering, .requirements])
    (h : (s.run p c).failure = none) :
    ∃ p₁ c₁ p₂ c₂, Pass.qubitLowering.Ends p c p₁ c₁ ∧ Pass.resultLowering.Ends p₁ c₁ p₂ c₂ ∧
      Pass.requirements.Ends p₂ c₂ (s.run p c).program (s.run p c).context := by
  have runs := runs_of_run h
  rw [hs] at runs
  generalize (s.run p c).program = p' at *
  generalize (s.run p c).context = c' at *
  cases runs with
  | @cons _ _ _ p₁ _ _ c₁ _ first runs =>
  cases runs with
  | @cons _ _ _ p₂ _ _ c₂ _ second runs =>
  cases runs with
  | @cons _ _ _ p₃ _ _ c₃ _ third runs =>
  cases runs with
  | nil => exact ⟨p₁, c₁, p₂, c₂, first, second, third⟩

end Schedule

end QuantumLowering
