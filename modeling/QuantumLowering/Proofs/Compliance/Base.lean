import QuantumLowering.Profile.Builder
import QuantumLowering.Proofs.Compliance.Rules
import QuantumLowering.Proofs.Demand.Exact
import QuantumLowering.Proofs.Pass.Transparency
/-!
# The base profile makes programs comply

The base configuration always builds the profile that lowers qubits, then
results, and states what is needed. If that profile ends well on a program
whose qubits and results trace back to acquisitions and measurements, the
program complies with every rule, whatever the pools do with released
handles and however many the target has. It is well formed, too, unless a
measurement was lowered beside a call that measures into a result and does
not say which.
-/


namespace QuantumLowering

/-! ## What the configuration builds -/

namespace Registry

theorem parse_lowering : builtin.parse "qubit-allocation,result-allocation" =
    .ok [.qubitLowering, .resultLowering] := by
  have elements : Pipeline.parse "qubit-allocation,result-allocation" =
      .ok [.mk "qubit-allocation" [] [], .mk "result-allocation" [] []] := rfl
  have qubits : builtin.make "qubit-allocation" [] = .ok .qubitLowering := rfl
  have results : builtin.make "result-allocation" [] = .ok .resultLowering := rfl
  simp only [parse, elements, resolve, resolveElement, qubits, results]
  rfl

theorem parse_requirements : builtin.parse "resource-annotation" = .ok [.requirements] := by
  have elements : Pipeline.parse "resource-annotation" =
      .ok [.mk "resource-annotation" [] []] := rfl
  have requirements : builtin.make "resource-annotation" [] = .ok .requirements := rfl
  simp only [parse, elements, resolve, resolveElement, requirements]
  rfl

end Registry

namespace ProfileBuilder

variable {b : ProfileBuilder}

/-- The pipeline texts of the base configuration name the passes that make
every address static. -/
theorem passesAt_base (hp : b.pipelines = Configuration.base.pipelines)
    (hr : b.registry = .builtin) (hook : Hook) :
    b.passesAt hook = .ok (Schedule.allocation.slots hook) := by
  unfold passesAt
  rw [hp, hr]
  cases hook with
  | pipelineStart => exact Registry.parse_lowering
  | optimizerLast => exact Registry.parse_requirements
  | _ => rfl

theorem assemble_base (hp : b.pipelines = Configuration.base.pipelines)
    (hr : b.registry = .builtin) (hs : b.schedule = .empty) :
    b.assemble = { Schedule.allocation with verifyEach := b.debug } := by
  unfold assemble
  simp only [passesAt_base hp hr, hs]
  congr 1
  cases b.debug <;> rfl

theorem diagnostics_base (hp : b.pipelines = Configuration.base.pipelines)
    (hr : b.registry = .builtin) : b.diagnostics = [] := by
  refine List.filterMap_eq_nil_iff.2 fun hook _ => ?_
  unfold diagnosticAt?
  rw [passesAt_base hp hr]
  cases b.pipelines hook <;> rfl

end ProfileBuilder

variable {debug : Bool} {target : Option Target} {policies : Policies}

/-- The base configuration for a target, with policies for its pools. -/
def Configuration.baseFor (debug : Bool) (target : Option Target) (policies : Policies) :
    Configuration :=
  { base with debug, target, policies }

/-- The base profile for a target, with policies for its pools. -/
def Profile.base (debug : Bool) (target : Option Target) (policies : Policies) : Profile :=
  { Profile.new debug target (.forTarget target .qubit policies.qubits)
      (.forTarget target .result policies.results) .empty with
    validator := .base }

/-- **The base configuration builds the base profile**, and there is nothing
to say of it. -/
theorem Configuration.build_baseFor :
    (baseFor debug target policies).build = (.ok (.base debug target policies), []) := by
  let parts : ProfileBuilder :=
    { ProfileBuilder.start with
      debug := debug
      target := target
      qubits := some (.forTarget target .qubit policies.qubits)
      results := some (.forTarget target .result policies.results)
      pipelines := base.pipelines
      validator := .base }
  have hparts : ProfileBuilder.ofConfiguration (baseFor debug target policies) =
      (.ok parts, []) := rfl
  have schedule : parts.assemble = { Schedule.allocation with verifyEach := debug } :=
    ProfileBuilder.assemble_base rfl rfl rfl
  have diagnostics : parts.diagnostics = [] := ProfileBuilder.diagnostics_base rfl rfl
  simp only [build, hparts, ProfileBuilder.build, ProfileBuilder.profile, schedule, diagnostics]
  rfl

/-! ## What the profile does -/

/-- **Lowering qubits, then results, and stating what is needed makes a
program comply**, if it ends well. -/
theorem Schedule.complies_run {s : Schedule}
    (hs : s.pipeline.map Prod.snd = [.qubitLowering, .resultLowering, .requirements])
    {p : Program} (wf : p.WellFormed) (lowerable : ∀ f ∈ p.definitions, f.Lowerable)
    (entries : (p.definitions.filter Function.isEntryPoint).length = 1)
    (version : ∀ flag, p.flag? Intrinsics.majorVersion = some flag → flag = .int 1)
    {c : Context} (hc : c.tracker = .empty) (hq : c.qubits.Bounded) (hr : c.results.Bounded)
    (h : (s.run p c).failure = none) : (Validator.base.report (s.run p c).program).passed := by
  have new : ∀ v, c.tracker.resolve? v = none := fun v => by rw [hc]; rfl
  obtain ⟨p₁, c₁, p₂, c₂, first, second, third⟩ := exists_ends_of_run hs h
  generalize (s.run p c).program = p' at *
  generalize (s.run p c).context = c' at *
  have free := QubitLowering.qubitFree_of_ends first wf new lowerable
  obtain ⟨q, -, -, qubits⟩ := QubitLowering.explained_of_ends first wf.values new fun f hf =>
    QubitLowering.managesArrays_eq_false (lowerable f hf)
  have nodup := wf.values.sublist (QubitLowering.lowersTo_of_ends first).definedValues_sublist
  have static := ResultLowering.static_of_ends second nodup qubits fun g hg => by
    obtain ⟨f, -, -, hg⟩ := exists_left_of_forall₂ free hg
    exact hg
  have same : ∀ {f g : Function}, g.attributes = f.attributes →
      g.isEntryPoint = f.isEntryPoint := fun h => by
    rw [Function.isEntryPoint, h]
    rfl
  -- neither lowering touches attributes or flags
  have entries₂ : (p₂.definitions.filter Function.isEntryPoint).length = 1 := by
    rw [length_entries (static.imp fun f g h => same h.1),
      length_entries (free.imp fun f g h => same h.1), entries]
  have flags : p₂.flags = p.flags :=
    (ResultLowering.flags_of_ends second).trans (QubitLowering.flags_of_ends first)
  obtain ⟨hq₁, hr₁⟩ := Context.bounded_of_drawn (QubitLowering.exists_drawn_of_ends first) hq hr
  obtain ⟨hq₂, hr₂⟩ :=
    Context.bounded_of_drawn (ResultLowering.exists_drawn_of_ends second) hq₁ hr₁
  cases third with
  | skipped hskip => cases hskip
  | ran =>
    refine Requirements.complies_run (fun g hg => ?_) entries₂ (fun flag hflag => ?_) hq₂ hr₂
    · obtain ⟨f, -, -, hg⟩ := exists_left_of_forall₂ static hg
      exact hg
    · rw [Program.flag?, flags] at hflag
      exact version flag hflag

namespace ResultLowering

variable {p p' : Program} {c c' : Context}

theorem declaresResults_run_iff (h : (run p c).failure = none) :
    (run p c).program.DeclaresResults ↔ p.DeclaresResults ∨ measures p := by
  have ends : (Lowering.run .result lower p c).failure = none := (run_failure p c).symm.trans h
  by_cases hm : measures p
  · have declared : (run p c).program.DeclaresResults := by
      simp only [run, hm, ends, Option.isNone_none, and_self, if_true]
      exact Program.declaresResults_declare
    simp [hm, declared]
  · have same : (run p c).program = (Lowering.run .result lower p c).program := by
      simp [run, hm]
    rw [same, declaresResults_run]
    simp [hm]

/-- Lowering results declares how to measure into a result where it replaces a
measurement. -/
theorem declaresResults_of_ends (ends : Pass.resultLowering.Ends p c p' c') :
    p'.DeclaresResults ↔ p.DeclaresResults ∨ measures p := by
  cases ends with
  | ran _ h => exact declaresResults_run_iff h
  | skipped hskip =>
    refine ⟨.inl, Or.rec id fun hm => ?_⟩
    -- a measurement is a call that the pass would have been run for
    obtain ⟨e, he, hm⟩ := List.any_eq_true.1 hm
    obtain ⟨v, qubit, hi⟩ := isMeasurement_iff.1 hm
    have none := List.any_eq_false.1 hskip e he
    rw [hi] at none
    exact absurd rfl none

end ResultLowering

/-- **It is declared how to measure into a result** afterwards if it was before, or if a
measurement was replaced. -/
theorem Schedule.declaresResults_run_iff {s : Schedule}
    (hs : s.pipeline.map Prod.snd = [.qubitLowering, .resultLowering, .requirements])
    {p : Program} (wf : p.WellFormed) {c : Context} (h : (s.run p c).failure = none) :
    (s.run p c).program.DeclaresResults ↔ p.DeclaresResults ∨ ResultLowering.measures p := by
  obtain ⟨p₁, c₁, p₂, c₂, first, second, third⟩ := exists_ends_of_run hs h
  generalize (s.run p c).program = p' at *
  generalize (s.run p c).context = c' at *
  have stated : p'.DeclaresResults ↔ p₂.DeclaresResults := by
    cases third with
    | skipped hskip => cases hskip
    | ran => exact Program.declaresResults_congr (Requirements.run_lowersTo p₂ c₂).names
  have measures : ResultLowering.measures p₁ = ResultLowering.measures p := by
    cases first with
    | skipped => rfl
    | ran _ h => exact QubitLowering.measures_run wf.values h
  rw [stated, ResultLowering.declaresResults_of_ends second, measures,
    Program.declaresResults_congr (QubitLowering.lowersTo_of_ends first).names]

/-- **Programs comply with the base profile** once it was applied to them: if
one definition is an entry point and every qubit and every result traces
back to one acquisition or measurement, the profile finds no rule broken.
If measuring into a result takes two arguments where it is declared, they are
well formed, too, exactly if they measure nothing or pass two arguments wherever
they measure into a result. -/
theorem Configuration.base_complies (p : Program) (hp : p.verify = .ok ())
    (entries : (p.definitions.filter Function.isEntryPoint).length = 1)
    (version : ∀ flag, p.flag? Intrinsics.majorVersion = some flag → flag = .int 1)
    (lowerable : ∀ f ∈ p.definitions, f.Lowerable) (debug : Bool) (target : Option Target)
    (policies : Policies) :
    ∃ profile, (baseFor debug target policies).build.1 = .ok profile ∧
      ((profile.apply p).failure = none →
        let lowered := (profile.apply p).program
        let report := ((profile.apply p).profile.validate lowered).2.1
        report.passed ∧ report.findings.map Finding.rule = Rules.base.map Rule.name ∧
          ((∀ g, p.function? Intrinsics.measureInto = some g → g.arity = 2) →
            (lowered.verify = .ok () ↔
              (ResultLowering.measures p → ∀ f ∈ p.definitions, ∀ i ∈ f.instructions,
                i.isCallTo Intrinsics.measureInto → i.args.length = 2)))) := by
  have wf := Program.verify_eq_ok_iff.1 hp
  refine ⟨.base debug target policies, congrArg Prod.fst build_baseFor, fun h => ⟨?_, rfl, ?_⟩⟩
  · exact Schedule.complies_run (Schedule.allocation_passes debug) wf lowerable entries version rfl
      (Nat.zero_le _) (Nat.zero_le _) h
  · intro takes
    let s := (Profile.base debug target policies).schedule
    let c := (Profile.base debug target policies).context
    have verified : (s.run p c).program.verify = .ok () ↔
        ((s.run p c).program.DeclaresResults → p.PassesPairs) :=
      Schedule.verify_run_iff s Schedule.mem_builtin_of_mem_allocation hp takes c h
    have declared : (s.run p c).program.DeclaresResults ↔
        p.DeclaresResults ∨ ResultLowering.measures p :=
      Schedule.declaresResults_run_iff (Schedule.allocation_passes debug) wf h
    refine verified.trans ?_
    rw [declared, or_imp]
    exact ⟨And.right, fun measured => ⟨wf.passesPairs takes, measured⟩⟩

/-! ## A program with two ways -/

namespace Configuration

/-- A qubit of a pair is copied on either of two ways and measured where
they join. -/
def joinedPairMain : Function where
  name := "main"
  params := []
  signature := []
  returnType := .void
  blocks := [
    ⟨⟨0⟩, "entry", [
      ⟨some ⟨0⟩, .qubit, .call Intrinsics.acquireQubit []⟩,
      ⟨some ⟨1⟩, .qubit, .call Intrinsics.acquireQubit []⟩,
      .call "__quantum__qis__h__body" [.value ⟨0⟩],
      .call "__quantum__qis__cnot__body" [.value ⟨0⟩, .value ⟨1⟩]],
      some (.condBranch (.bool true) ⟨1⟩ ⟨2⟩)⟩,
    ⟨⟨1⟩, "left", [⟨some ⟨2⟩, .qubit, .copy (.value ⟨0⟩)⟩], some (.branch ⟨3⟩)⟩,
    ⟨⟨2⟩, "right", [⟨some ⟨3⟩, .qubit, .copy (.value ⟨0⟩)⟩], some (.branch ⟨3⟩)⟩,
    ⟨⟨3⟩, "join", [
      ⟨some ⟨4⟩, .qubit, .phi [(⟨1⟩, .value ⟨2⟩), (⟨2⟩, .value ⟨3⟩)]⟩,
      ⟨some ⟨5⟩, .result, .call Intrinsics.measure [.value ⟨4⟩]⟩,
      ⟨some ⟨6⟩, .result, .call Intrinsics.measure [.value ⟨1⟩]⟩,
      ⟨some ⟨7⟩, .result, .copy (.value ⟨5⟩)⟩,
      .call Intrinsics.releaseQubit [.value ⟨4⟩],
      .call Intrinsics.releaseQubit [.value ⟨1⟩],
      .call "__quantum__rt__result_record_output" [.value ⟨7⟩, .null],
      .call "__quantum__rt__result_record_output" [.value ⟨6⟩, .null]],
      some (.ret none)⟩]
  attributes := SortedMap.empty.insert Function.entryPointAttribute ""

/-- The program of that function alone. -/
def joinedPair : Program where
  name := "pair"
  functions := [joinedPairMain]
  flags := .empty
  nextValue := 8

/-- Each of the two qubits is acquired, and the first one is copied on both
ways before they join. -/
theorem qubits_joinedPairMain : ∀ i ∈ joinedPairMain.instructions, i.type = .qubit →
    ∀ u, i.result = some u →
      ∃ v, joinedPairMain.TracesTo .qubit Instruction.acquiresQubit v u := by
  have first : joinedPairMain.TracesTo .qubit Instruction.acquiresQubit ⟨0⟩ ⟨0⟩ :=
    .source (i := ⟨some ⟨0⟩, .qubit, .call Intrinsics.acquireQubit []⟩) (by decide) (by decide) rfl
  have second : joinedPairMain.TracesTo .qubit Instruction.acquiresQubit ⟨1⟩ ⟨1⟩ :=
    .source (i := ⟨some ⟨1⟩, .qubit, .call Intrinsics.acquireQubit []⟩) (by decide) (by decide) rfl
  have left : joinedPairMain.TracesTo .qubit Instruction.acquiresQubit ⟨0⟩ ⟨2⟩ :=
    .copy (by decide) first
  have right : joinedPairMain.TracesTo .qubit Instruction.acquiresQubit ⟨0⟩ ⟨3⟩ :=
    .copy (by decide) first
  have sources : [((⟨1⟩ : BlockId), Operand.value ⟨2⟩), (⟨2⟩, .value ⟨3⟩)].map Prod.snd =
      [⟨2⟩, ⟨3⟩].map Operand.value := rfl
  have join : joinedPairMain.TracesTo .qubit Instruction.acquiresQubit ⟨0⟩ ⟨4⟩ := by
    refine .phi (by decide) sources (by decide) fun w hw => ?_
    rcases List.mem_pair.1 hw with rfl | rfl
    · exact left
    · exact right
  have values : ∀ i ∈ joinedPairMain.instructions, i.type = .qubit →
      i.result ∈ [some ⟨0⟩, some ⟨1⟩, some ⟨2⟩, some ⟨3⟩, some ⟨4⟩] := by decide
  intro i hi hty u hu
  have hmem := values i hi hty
  rw [hu] at hmem
  simp only [List.mem_cons, Option.some.injEq, List.not_mem_nil, or_false] at hmem
  rcases hmem with rfl | rfl | rfl | rfl | rfl
  · exact ⟨⟨0⟩, first⟩
  · exact ⟨⟨1⟩, second⟩
  · exact ⟨⟨0⟩, left⟩
  · exact ⟨⟨0⟩, right⟩
  · exact ⟨⟨0⟩, join⟩

/-- Each of the two results is measured, and one of them is copied. -/
theorem results_joinedPairMain : ∀ i ∈ joinedPairMain.instructions, i.type = .result →
    ∀ u, i.result = some u →
      ∃ v, joinedPairMain.TracesTo .result ResultLowering.isMeasurement v u := by
  have first : joinedPairMain.TracesTo .result ResultLowering.isMeasurement ⟨5⟩ ⟨5⟩ :=
    .source (i := ⟨some ⟨5⟩, .result, .call Intrinsics.measure [.value ⟨4⟩]⟩) (by decide) rfl rfl
  have second : joinedPairMain.TracesTo .result ResultLowering.isMeasurement ⟨6⟩ ⟨6⟩ :=
    .source (i := ⟨some ⟨6⟩, .result, .call Intrinsics.measure [.value ⟨1⟩]⟩) (by decide) rfl rfl
  have values : ∀ i ∈ joinedPairMain.instructions, i.type = .result →
      i.result ∈ [some ⟨5⟩, some ⟨6⟩, some ⟨7⟩] := by decide
  intro i hi hty u hu
  have hmem := values i hi hty
  rw [hu] at hmem
  simp only [List.mem_cons, Option.some.injEq, List.not_mem_nil, or_false] at hmem
  rcases hmem with rfl | rfl | rfl
  · exact ⟨⟨5⟩, first⟩
  · exact ⟨⟨6⟩, second⟩
  · exact ⟨⟨5⟩, .copy (by decide) first⟩

/-- The entry dominates every block, and each way defines what it brings to
where they join. -/
theorem dominated_joinedPairMain : joinedPairMain.UsesDominated :=
  Function.usesDominated_of_first (k := 0) (by decide) (by decide) (by decide)

theorem lowerable_joinedPairMain : joinedPairMain.Lowerable where
  params := by decide
  callees i hi callee hcallee := by
    have kinds : ∀ i ∈ joinedPairMain.instructions, i.callee?.all Intrinsics.isBaseCallee ∨
        i.acquiresQubit ∨ ResultLowering.isMeasurement i ∨
          i = .call Intrinsics.releaseQubit [.value ⟨4⟩] ∨
            i = .call Intrinsics.releaseQubit [.value ⟨1⟩] := by decide
    rcases kinds i hi with h | h | h | rfl | rfl
    · exact .inl (by simpa [hcallee] using h)
    · exact .inr (.inl h)
    · exact .inr (.inr (.inr h))
    · exact .inr (.inr (.inl ⟨rfl, ⟨4⟩, rfl, by decide⟩))
    · exact .inr (.inr (.inl ⟨rfl, ⟨1⟩, rfl, by decide⟩))
  qubits := qubits_joinedPairMain
  results := results_joinedPairMain
  reachable k hk := by
    have edges : ∀ e ∈ [(0, 1), (0, 2), (1, 3)], e ∈ joinedPairMain.edges := by decide
    have start : joinedPairMain.Walk [0] := .start (by decide)
    have left : joinedPairMain.Walk [1, 0] := .step start (edges (0, 1) (by decide))
    have hk : k < 4 := hk
    obtain rfl | rfl | rfl | rfl : k = 0 ∨ k = 1 ∨ k = 2 ∨ k = 3 := by omega
    · exact ⟨[], start⟩
    · exact ⟨[0], left⟩
    · exact ⟨[0], .step start (edges (0, 2) (by decide))⟩
    · exact ⟨[1, 0], .step left (edges (1, 3) (by decide))⟩
  acyclic := ControlFlow.acyclic_of_forall_lt (by decide)
  dominated := dominated_joinedPairMain

theorem base_complies_joinedPair :
    joinedPair.verify = .ok () ∧ ∃ profile,
      (baseFor true (some ⟨"pair", some 2, some 2⟩) ⟨.noReuse, .noReuse⟩).build.1 = .ok profile ∧
        (profile.apply joinedPair).failure = none ∧
        ((profile.apply joinedPair).profile.validate
          (profile.apply joinedPair).program).2.1.passed ∧
        (profile.apply joinedPair).program.verify = .ok () := by
  obtain ⟨profile, built, complies⟩ := base_complies joinedPair (by decide) rfl (by decide)
    (fun f hf => List.mem_singleton.1 hf ▸ lowerable_joinedPairMain) true
    (some ⟨"pair", some 2, some 2⟩) ⟨.noReuse, .noReuse⟩
  have same : Profile.base true (some ⟨"pair", some 2, some 2⟩) ⟨.noReuse, .noReuse⟩ = profile := by
    rw [build_baseFor] at built
    exact Except.ok.inj built
  subst same
  obtain ⟨passed, -, verified⟩ := complies rfl
  exact ⟨by decide, _, built, rfl, passed, (verified (by decide)).2 fun _ => by decide⟩

/-! ## A program that does not say where it measures -/

/-- Its one value is measured, and it has one block. -/
theorem lowerable_undeclaredMeasurement :
    ∀ f ∈ Schedule.undeclaredMeasurement.definitions, f.Lowerable := by
  intro f hf
  obtain rfl := List.mem_singleton.1 (Program.mem_definitions.1 hf).1
  exact {
    params := by decide
    callees i hi callee hcallee := by
      rcases List.mem_pair.1 hi with rfl | rfl
      · exact .inr (.inr (.inr rfl))
      · cases hcallee
        exact .inl (by decide)
    qubits i hi hty := by rcases List.mem_pair.1 hi with rfl | rfl <;> cases hty
    results i hi hty u hu := by
      rcases List.mem_pair.1 hi with rfl | rfl
      · cases hu
        exact ⟨⟨0⟩, .source hi rfl rfl⟩
      · cases hty
    reachable k hk := by
      obtain rfl : k = 0 := Nat.lt_one_iff.1 hk
      exact ⟨[], .start (by decide)⟩
    acyclic := ControlFlow.acyclic_of_forall_lt (by decide)
    dominated := Function.usesDominated_of_first (k := 0) (by decide) (by decide) (by decide) }

/-- **What complies need not be well formed**: the base profile ends well on a program that
meets every condition, finds no rule broken, and leaves a call that passes less than the
declaration beside it says. -/
theorem base_not_verified :
    Schedule.undeclaredMeasurement.verify = .ok () ∧
      (Schedule.undeclaredMeasurement.definitions.filter Function.isEntryPoint).length = 1 ∧
      (∀ flag, Schedule.undeclaredMeasurement.flag? Intrinsics.majorVersion = some flag →
        flag = .int 1) ∧
      (∀ f ∈ Schedule.undeclaredMeasurement.definitions, f.Lowerable) ∧
      Schedule.undeclaredMeasurement.function? Intrinsics.measureInto = none ∧
      ∃ profile, Configuration.base.build.1 = .ok profile ∧
        let applied := profile.apply Schedule.undeclaredMeasurement
        applied.failure = none ∧ (applied.profile.validate applied.program).2.1.passed ∧
          applied.program.verify = .error (.arityMismatch Intrinsics.measureInto 2 1) := by
  refine ⟨by decide, by decide, by decide, lowerable_undeclaredMeasurement, by decide,
    .base false none ⟨.noReuse, .noReuse⟩, ?_, rfl, ?_, rfl⟩
  · exact congrArg Prod.fst build_baseFor
  · decide

end Configuration

end QuantumLowering
