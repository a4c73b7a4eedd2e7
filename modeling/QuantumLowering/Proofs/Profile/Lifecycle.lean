import QuantumLowering.Profile.Builder
/-!
# The life of a profile

A profile may be called in any order: applied, asked whether a program is
well formed, or asked whether it complies. Only the first application runs
the passes, and what it leaves of the pools and the tracker stays. Every other
call at most notes that there was a validation (`after_of_applied`). So the
calls made before say what a profile answers next (`Profile.course_after`).
-/


namespace QuantumLowering

namespace Profile

/-! ## Calls and answers -/

/-- **How profiles come about**, not applied yet. -/
inductive Built : Profile → Prop
  /-- From its parts. -/
  | new (debug : Bool) (target : Option Target) (qubits results : Pool) (tracker : Tracker) :
    Built (.new debug target qubits results tracker)
  /-- From a target alone. -/
  | withDefaults (debug : Bool) (target : Option Target) : Built (.withDefaults debug target)
  /-- By a builder. -/
  | build (b : ProfileBuilder) : Built b.build.1
  /-- From a configuration. -/
  | configuration {c : Configuration} {p : Profile} : c.build.1 = .ok p → Built p

/-- A call of a profile. -/
inductive Call where
  /-- Runs the passes on a program. -/
  | apply (program : Program)
  /-- Asks whether a program is well formed. -/
  | verify (program : Program)
  /-- Asks whether a program complies. -/
  | validate (program : Program)
  /-- Asks what the rules find in a program. -/
  | report (program : Program)

namespace Call

/-- Whether a call runs the passes. -/
def isApplication : Call → Bool
  | apply _ => true
  | _ => false

/-- Whether a call asks the rules. -/
def isValidation : Call → Bool
  | validate _ | report _ => true
  | _ => false

end Call

/-- What a profile answers to a call. -/
inductive Answer where
  /-- Why the passes did not all run, if so. -/
  | applied (failure : Option Failure)
  /-- Whether the program is well formed. -/
  | verified (wellFormed : Bool)
  /-- Whether the program complies. -/
  | validated (passed : Bool)
  /-- What the rules found. -/
  | reported (report : Report)

/-- What a call leaves. -/
structure Reply where
  /-- The profile after the call. -/
  profile : Profile
  /-- The program after the call. -/
  program : Program
  /-- The answer. -/
  answer : Answer

/-- Calls a profile. -/
def call (p : Profile) : Call → Reply
  | .apply program =>
    let a := p.apply program
    ⟨a.profile, a.program, .applied a.failure⟩
  | .verify program => ⟨p, program, .verified (verify program).1⟩
  | .validate program =>
    let (q, report, _) := p.validate program
    ⟨q, program, .validated report.passed⟩
  | .report program =>
    let (q, report, _) := p.validate program
    ⟨q, program, .reported report⟩

/-- A profile after some calls, each with a program of its own. -/
def after (p : Profile) (calls : List Call) : Profile :=
  calls.foldl (fun q c => (q.call c).profile) p

/-! ## What a call changes -/

variable {p : Profile} {calls : List Call} {c : Call}

theorem Built.configured (h : p.Built) : p.stage = .configured := by
  cases h with
  | configuration h =>
    unfold Configuration.build at h
    split at h
    · cases h
    · cases h
      rfl
  | _ => rfl

/-- The first application runs the passes. -/
theorem call_apply_of_configured (h : p.stage = .configured) (program : Program) :
    p.call (.apply program) =
      ⟨{ p with stage := .applied, context := (p.schedule.run program p.context).context },
        (p.schedule.run program p.context).program,
        .applied (p.schedule.run program p.context).failure⟩ := by
  simp only [call, apply, h]

/-- Another one is refused and changes nothing. -/
theorem call_apply_of_applied (h : p.stage ≠ .configured) (program : Program) :
    p.call (.apply program) = ⟨p, program, .applied (some .alreadyApplied)⟩ := by
  unfold call apply
  cases hs : p.stage with
  | configured => exact absurd hs h
  | applied | validated => rfl

/-- Before the first application nothing else changes the profile. -/
theorem call_of_configured (h : p.stage = .configured) (hc : c.isApplication = false) :
    (p.call c).profile = p := by
  cases c with
  | apply program => cases hc
  | verify program => rfl
  | validate program | report program =>
    simp only [call, validate, afterValidation, h]

/-- After it a call at most notes that there was a validation. -/
theorem call_of_applied (h : p.stage ≠ .configured) :
    (p.call c).profile = { p with stage := if c.isValidation then .validated else p.stage } := by
  cases c with
  | apply program => rw [call_apply_of_applied h]; rfl
  | verify program => rfl
  | validate program | report program =>
    obtain ⟨debug, target, context, schedule, validator, stage, diagnostics⟩ := p
    cases stage with
    | configured => exact absurd rfl h
    | applied | validated => rfl

/-! ## What calls change -/

/-- **Without an application a profile stays as it was built.** -/
theorem after_of_configured (h : p.stage = .configured)
    (hc : ∀ c ∈ calls, c.isApplication = false) : p.after calls = p := by
  induction calls with
  | nil => rfl
  | cons c calls ih =>
    change ((p.call c).profile).after calls = p
    rw [call_of_configured h (hc c List.mem_cons_self)]
    exact ih fun d hd => hc d (List.mem_cons_of_mem c hd)

/-- **Once it was applied only its stage goes on.** -/
theorem after_of_applied (h : p.stage ≠ .configured) :
    p.after calls =
      { p with stage := if calls.any Call.isValidation then .validated else p.stage } := by
  induction calls generalizing p with
  | nil => rfl
  | cons c calls ih =>
    change ((p.call c).profile).after calls = _
    rw [call_of_applied h, ih]
    · cases hc : c.isValidation <;> simp [hc]
    · cases hc : c.isValidation <;> simp [h]

/-- **Calls up to the first application, and those after it.** -/
theorem after_of_split (h : p.stage = .configured) {before later : List Call}
    (hc : ∀ c ∈ before, c.isApplication = false) (program : Program) :
    p.after (before ++ .apply program :: later) =
      { p with
        context := (p.schedule.run program p.context).context
        stage := if later.any Call.isValidation then .validated else .applied } := by
  have first : p.after (before ++ [.apply program]) =
      { p with stage := .applied, context := (p.schedule.run program p.context).context } := by
    unfold after
    rw [List.foldl_append]
    change ((p.after before).call (.apply program)).profile = _
    rw [after_of_configured h hc, call_apply_of_configured h]
  have split : before ++ .apply program :: later = (before ++ [.apply program]) ++ later := by simp
  rw [split]
  unfold after
  rw [List.foldl_append]
  change (p.after (before ++ [.apply program])).after later = _
  rw [first, after_of_applied (by simp)]

/-- Calls with an application have a first one. -/
theorem exists_first_application (h : ∃ c ∈ calls, c.isApplication = true) :
    ∃ before program later, calls = before ++ .apply program :: later ∧
      ∀ c ∈ before, c.isApplication = false := by
  obtain ⟨c, hc⟩ := Option.isSome_iff_exists.1 (List.find?_isSome.2 h)
  obtain ⟨hfirst, before, later, rfl, none⟩ := List.find?_eq_some_iff_append.1 hc
  cases c with
  | apply program => exact ⟨before, program, later, rfl, fun c hc => by simpa using none c hc⟩
  | verify | validate | report => cases hfirst

/-! ## The course of calls -/

/-- **What some calls made of a profile**, and what it answers next. -/
structure Course (p : Profile) (calls : List Call) : Prop where
  /-- Nothing but the stage, the pools, the tracker and the properties changes. -/
  parts : p.after calls =
    { p with stage := (p.after calls).stage, context := (p.after calls).context }
  /-- It is configured as long as it was not applied. -/
  configured : (p.after calls).stage = .configured ↔ ∀ c ∈ calls, c.isApplication = false
  /-- It is validated if there was a validation after the first application. -/
  validated : (p.after calls).stage = .validated ↔
    ∃ before program later, calls = before ++ .apply program :: later ∧
      (∀ c ∈ before, c.isApplication = false) ∧ ∃ c ∈ later, c.isValidation = true
  /-- As long as it was not applied, the pools and the tracker are as they were. -/
  unapplied : (∀ c ∈ calls, c.isApplication = false) → (p.after calls).context = p.context
  /-- After that they are what the passes made of them at the first application. -/
  applied : ∀ before program later, calls = before ++ .apply program :: later →
    (∀ c ∈ before, c.isApplication = false) →
      (p.after calls).context = (p.schedule.run program p.context).context
  /-- The first application runs the passes on its program. -/
  first : (∀ c ∈ calls, c.isApplication = false) → ∀ program,
    (p.after calls).call (.apply program) =
      ⟨{ p with stage := .applied, context := (p.schedule.run program p.context).context },
        (p.schedule.run program p.context).program,
        .applied (p.schedule.run program p.context).failure⟩
  /-- Any other is refused, however the first one ended, and changes nothing. -/
  again : (∃ c ∈ calls, c.isApplication = true) → ∀ program,
    (p.after calls).call (.apply program) =
      ⟨p.after calls, program, .applied (some .alreadyApplied)⟩
  /-- Whether a program is well formed hangs on the program alone. -/
  verifies : ∀ program, ∃ wellFormed,
    (p.after calls).call (.verify program) = ⟨p.after calls, program, .verified wellFormed⟩ ∧
      (wellFormed = true ↔ program.verify = .ok ())
  /-- Whether it complies hangs on the program and the rules alone, and asking leaves
  the program, the pools and the tracker as they are. -/
  validates : ∀ program, ∃ q, q.context = (p.after calls).context ∧
    (p.after calls).call (.validate program) =
      ⟨q, program, .validated (p.validator.report program).passed⟩
  /-- And so does what the rules find. -/
  reports : ∀ program, ∃ q, q.context = (p.after calls).context ∧
    (p.after calls).call (.report program) =
      ⟨q, program, .reported (p.validator.report program)⟩

theorem verify_eq_true_iff {program : Program} :
    (verify program).1 = true ↔ program.verify = .ok () := by
  unfold verify
  cases program.verify <;> simp

/-- A validation leaves the pools and the tracker. -/
theorem context_afterValidation : p.afterValidation.context = p.context := by
  unfold afterValidation
  split <;> rfl

/-- **The first application decides the life of a profile**, whatever the calls and
the programs are, and whether the passes succeed or fail. -/
theorem course_after (built : p.Built) (calls : List Call) : p.Course calls := by
  have h := built.configured
  -- either there was no application, or there was a first one
  have either : (∀ c ∈ calls, c.isApplication = false) ∨
      ∃ c ∈ calls, c.isApplication = true := by
    by_cases hc : ∃ c ∈ calls, c.isApplication = true
    · exact .inr hc
    · exact .inl fun c hmem => by simpa using fun happ => hc ⟨c, hmem, happ⟩
  have parts : p.after calls =
      { p with stage := (p.after calls).stage, context := (p.after calls).context } := by
    rcases either with unapplied | applied
    · rw [after_of_configured h unapplied]
    · obtain ⟨before, program, later, rfl, hbefore⟩ := exists_first_application applied
      rw [after_of_split h hbefore]
  have stays : ∀ c ∈ calls, c.isApplication = true → (p.after calls).stage ≠ .configured := by
    intro c hmem happ
    obtain ⟨before, program, later, rfl, hbefore⟩ := exists_first_application ⟨c, hmem, happ⟩
    rw [after_of_split h hbefore]
    cases later.any Call.isValidation <;> simp
  have validator : (p.after calls).validator = p.validator := by rw [parts]
  exact
    { parts
      configured := by
        refine ⟨fun hs c hmem => ?_, fun unapplied => by rw [after_of_configured h unapplied, h]⟩
        cases happ : c.isApplication with
        | false => rfl
        | true => exact absurd hs (stays c hmem happ)
      validated := by
        constructor
        · intro hs
          rcases either with unapplied | applied
          · rw [after_of_configured h unapplied, h] at hs
            cases hs
          · obtain ⟨before, program, later, rfl, hbefore⟩ := exists_first_application applied
            refine ⟨before, program, later, rfl, hbefore, List.any_eq_true.1 ?_⟩
            rw [after_of_split h hbefore] at hs
            cases hv : later.any Call.isValidation with
            | true => rfl
            | false => simp [hv] at hs
        · rintro ⟨before, program, later, rfl, hbefore, validation⟩
          rw [after_of_split h hbefore, List.any_eq_true.2 validation]
          rfl
      unapplied := fun unapplied => by rw [after_of_configured h unapplied]
      applied := by
        rintro before program later rfl hbefore
        rw [after_of_split h hbefore]
      first := fun unapplied program => by
        rw [after_of_configured h unapplied, call_apply_of_configured h]
      again := fun ⟨c, hmem, happ⟩ program => call_apply_of_applied (stays c hmem happ) program
      verifies := fun program => ⟨_, rfl, verify_eq_true_iff⟩
      validates := fun program => ⟨_, context_afterValidation, by rw [← validator]; rfl⟩
      reports := fun program => ⟨_, context_afterValidation, by rw [← validator]; rfl⟩ }

/-! ## A profile that fails -/

/-- A qubit is acquired. -/
def oneQubit : Program where
  name := "one qubit"
  functions := [
    { name := "main"
      params := []
      signature := []
      returnType := .void
      blocks := [
        ⟨⟨0⟩, "entry", [⟨some ⟨0⟩, .qubit, .call Intrinsics.acquireQubit []⟩], some (.ret none)⟩]
      attributes := SortedMap.empty.insert Function.entryPointAttribute "" }]
  flags := .empty
  nextValue := 1

/-- A profile for a target without qubits. -/
def withoutQubits : Profile := withDefaults false (some ⟨"none", some 0, none⟩)

/-- Its passes fail on the qubit. It is not applied again all the same, and only the
report after that counts. -/
theorem course_after_oneQubit :
    withoutQubits.Built ∧
      (withoutQubits.call (.apply oneQubit)).answer =
        .applied (some (.allocation .qubit (.exhausted 0))) ∧
      ((withoutQubits.after [.report oneQubit, .apply oneQubit]).call (.apply oneQubit)).answer =
        .applied (some .alreadyApplied) ∧
      (withoutQubits.after [.report oneQubit]).stage = .configured ∧
      (withoutQubits.after [.report oneQubit, .apply oneQubit, .verify oneQubit]).stage =
        .applied ∧
      (withoutQubits.after [.apply oneQubit, .report oneQubit]).stage = .validated := by
  have built : withoutQubits.Built := .withDefaults false _
  refine ⟨built, by rfl, ?_, ?_, by rfl, ?_⟩
  · exact congrArg Reply.answer
      ((course_after built [.report oneQubit, .apply oneQubit]).again
        ⟨.apply oneQubit, by simp, rfl⟩ oneQubit)
  · exact (course_after built [.report oneQubit]).configured.2 fun c hc => by
      rw [List.mem_singleton.1 hc]
      rfl
  · exact (course_after built [.apply oneQubit, .report oneQubit]).validated.2
      ⟨[], oneQubit, [.report oneQubit], rfl, by simp, .report oneQubit, by simp, rfl⟩

end Profile

end QuantumLowering
