import QuantumLowering.Proofs.Execution.Lowering
import QuantumLowering.Proofs.Pass.Run
import QuantumLowering.Proofs.Pass.Soundness
/-!
# Allocation preserves what a program does

Lowering qubits and then results gives an address to every acquisition and
to every measurement, and on every walk that can be executed a lowered
definition makes the calls that follow. Values are told apart in a whole
program, so one table serves all of its definitions.
-/


namespace QuantumLowering

open Execution Lowering

/-! ## Lowering the definitions of a program -/

/-- **If a table explains what lowering makes of a definition, one explains
what it makes of a program.** `P` is what is known of the stock all the
time, and the addresses are those of the values that instructions of one
condition compute. -/
theorem Lowering.explained_run {kind : ResourceKind} {lower : Stock → Function → Lowered}
    {p : Program} {c : Context} {condition : Instruction → Bool}
    (addresses : (ValueId → Option Handle) → Addresses) (frames : Sweeps.Frames lower)
    (declarations : ∀ s f, (lower s f).failure = none →
      (lower s f).function.isDeclaration = f.isDeclaration)
    (nodup : (p.definitions.flatMap Function.definedValues).Nodup) (P : Stock → Prop)
    (start : P (c.stock kind))
    (keeps : ∀ f ∈ p.definitions, ∀ s, P s → (lower s f).failure = none →
      P (lower s f).stock)
    (known : ∀ f ∈ p.definitions, ∀ s, (lower s f).failure = none → ∀ i ∈ f.instructions,
      condition i → ∀ v, i.result = some v → ((lower s f).stock.tracker.resolve? v).isSome)
    (explained : ∀ f ∈ p.definitions, ∀ s, (lower s f).failure = none → P s →
      (∀ v ∈ f.definedValues, s.tracker.resolve? v = c.tracker.resolve? v) → ∀ q,
        (∀ i ∈ f.instructions, ∀ v, i.result = some v →
          q v = if condition i then ((lower s f).stock.tracker.resolve? v).map Resource.handle
            else none) →
        Explained (addresses q) f (lower s f).function)
    (h : (run kind lower p c).failure = none) :
    ∃ q : ValueId → Option Handle, (∀ v, (q v).isSome = p.computes condition v) ∧
      List.Forall₂ (Explained (addresses q)) p.definitions
        (run kind lower p c).program.definitions ∧
      ∃ s', (run kind lower p c).context = c.withStock kind s' ∧ P s' := by
  have keeps' : ∀ f ∈ p.functions, ¬ f.isDeclaration → ∀ s, P s → (lower s f).failure = none →
      P (lower s f).stock := fun f hf hd => keeps f (Program.mem_definitions.2 ⟨hf, hd⟩)
  obtain ⟨s', hc, sweeps, turns⟩ := exists_turns frames declarations nodup h
  let q : ValueId → Option Handle := fun v =>
    if p.computes condition v then (s'.tracker.resolve? v).map Resource.handle else none
  -- at the turn of a definition the table has the values of the definition already
  have hq : ∀ f ∈ p.definitions, ∀ g s₁, Sweeps.Turn lower (c.stock kind) p.functions s' f g s₁ →
      ∀ i ∈ f.instructions, ∀ v, i.result = some v →
        q v = if condition i then ((lower s₁ f).stock.tracker.resolve? v).map Resource.handle
          else none := by
    intro f hf g s₁ turn i hi v hv
    obtain ⟨x, he⟩ := Function.mem_instructions.1 hi
    change (if p.computes condition v then _ else _) = _
    rw [Program.computes_eq nodup hf hi hv,
      turn.result v (Function.result_mem_definedValues he hv)]
  refine ⟨q, fun v => ?_, forall₂_imp_of_mem turns fun f hf g ⟨s₁, turn⟩ => ?_, s', hc,
    sweeps.invariant start keeps'⟩
  · cases hv : p.computes condition v with
    | false => simp [q, hv]
    | true =>
      obtain ⟨f, hf, i, hi, hiv, hcond⟩ := Program.computes_iff.1 hv
      obtain ⟨g, -, s₁, turn⟩ := exists_right_of_forall₂ turns hf
      rw [hq f hf g s₁ turn i hi v hiv, if_pos hcond, Option.isSome_map]
      exact known f hf s₁ turn.failure i hi hcond v hiv
  · rw [turn.function]
    exact explained f hf s₁ turn.failure (turn.invariant start keeps') turn.new q
      (hq f hf g s₁ turn)

/-! ## Lowering qubits -/

namespace QubitLowering

variable {sole : Bool} {s : Stock} {f : Function} {p p' : Program} {c c' : Context}

/-- An acquisition gets an address. -/
theorem exists_of_acquires (h : (lower sole s f).failure = none) (nodup : f.definedValues.Nodup)
    {i : Instruction} (hi : i ∈ f.instructions) (hc : i.isCallTo Intrinsics.acquireQubit)
    {v : ValueId} (hv : i.result = some v) :
    ((lower sole s f).stock.tracker.resolve? v).isSome := by
  obtain ⟨ds, gone, decides, -⟩ := exists_lowered h
  obtain ⟨x, he⟩ := Function.mem_instructions.1 hi
  obtain ⟨s₁, s₂, d, visit⟩ := decides.exists_visit frames_judge nodup he
  rw [visit.result v hv]
  cases judges_of_judge visit.step with
  | acquire _ hset =>
    obtain rfl := Option.some.inj hv
    rw [hset.self]
    rfl
  | release => cases hv
  | unresolved => cases hv
  | other hrole =>
    obtain ⟨result, ty, operation⟩ := i
    obtain rfl : result = some v := hv
    cases operation with
    | call callee args =>
      obtain rfl : callee = Intrinsics.acquireQubit := by simpa using hc
      cases hrole
    | _ => cases hc
  | _ => cases hc

/-- **Lowering the qubits of a program** gives addresses to acquisitions, and
the table explains every definition. -/
theorem explained_of_ends (ends : Pass.qubitLowering.Ends p c p' c')
    (nodup : (p.definitions.flatMap Function.definedValues).Nodup)
    (new : ∀ v, c.tracker.resolve? v = none)
    (arrays : ∀ f ∈ p.definitions, ∀ i ∈ f.instructions, i.managesArrays = false) :
    ∃ q : ValueId → Option Handle,
      (∀ v, (q v).isSome = p.computes (·.isCallTo Intrinsics.acquireQubit) v) ∧
      List.Forall₂ (Explained ⟨q, fun _ => none⟩) p.definitions p'.definitions ∧
      c'.tracker.All fun r => r.kind = .qubit ∧ r.width = 1 := by
  have start : c.tracker.All fun r => r.kind = .qubit ∧ r.width = 1 := by
    intro v r hr
    rw [new v] at hr
    cases hr
  cases ends with
  | skipped hskip =>
    refine ⟨fun _ => none, fun v => ?_, List.forall₂_same.2 fun f _ => .refl f, start⟩
    refine (Bool.eq_false_iff.2 fun hv => ?_).symm
    obtain ⟨f, hf, i, hi, -, hc⟩ := Program.computes_iff.1 hv
    have := (Program.any_instructions_eq_false _).1 hskip f hf i hi
    simp only [Instruction.managesQubits, eq_of_beq hc, Option.any_some] at this
    exact absurd this (by decide)
  | ran _ h =>
    change (run p c).failure = none at h
    change ∃ q : ValueId → Option Handle, _ ∧ List.Forall₂ _ _ (run p c).program.definitions ∧
      (run p c).context.tracker.All _
    rw [run_failure] at h
    rw [run_program, run_context]
    have inside := (List.nodup_flatMap.1 nodup).1
    obtain ⟨q, hq, hex, s', hc, hs'⟩ := Lowering.explained_run
      (fun q => ⟨q, fun _ => none⟩) frames_lower (fun s f h => isDeclaration_lower h) nodup
      (fun s => s.tracker.All fun r => r.kind = .qubit ∧ r.width = 1) start
      (fun f hf s hs h => all_qubits_lower h (arrays f hf) hs)
      (fun f hf s h i hi hc v hv => exists_of_acquires h (inside f hf) hi hc hv)
      (fun f hf s h hs hnew q hq => explained h (inside f hf)
        (fun v hv => (hnew v hv).trans (new v)) hs (arrays f hf) fun e he v hv =>
          ⟨rfl, hq e.2 (Function.mem_instructions.2 ⟨e.1, he⟩) v hv⟩) h
    exact ⟨q, hq, hex, hc ▸ hs'⟩

/-- Lowering qubits is a careful change. -/
theorem lowersTo_of_ends (ends : Pass.qubitLowering.Ends p c p' c') : p.LowersTo p' := by
  cases ends with
  | skipped => exact .refl p
  | ran _ h => exact run_lowersTo h

end QubitLowering

/-! ## Lowering results -/

namespace ResultLowering

variable {s : Stock} {f : Function} {p p' : Program} {c c' : Context}

/-- A measurement gets an address. -/
theorem exists_of_measures (h : (lower s f).failure = none) (nodup : f.definedValues.Nodup)
    {i : Instruction} (hi : i ∈ f.instructions) (hm : isMeasurement i) {v : ValueId}
    (hv : i.result = some v) : ((lower s f).stock.tracker.resolve? v).isSome := by
  obtain ⟨ds, gone, decides, -⟩ := exists_lowered h
  obtain ⟨x, he⟩ := Function.mem_instructions.1 hi
  obtain ⟨s₁, s₂, d, visit⟩ := decides.exists_visit frames_judge nodup he
  rw [visit.result v hv]
  cases judges_of_judge visit.step with
  | measure _ hset =>
    obtain rfl := Option.some.inj hv
    rw [hset.self]
    rfl
  | other hrole => simp [isMeasurement, hrole] at hm
  | _ => cases hm

theorem isMeasurement_iff {i : Instruction} :
    isMeasurement i ↔
      ∃ v qubit, i = ⟨some v, .result, .call Intrinsics.measure [qubit]⟩ := by
  constructor
  · intro h
    obtain ⟨result, ty, operation⟩ := i
    cases result with
    | none => cases ty <;> cases h
    | some v =>
      by_cases hty : ty = .result
      · subst hty
        cases operation with
        | call callee args =>
          have measures : operationRole v (.call callee args) ≠ .other := fun hr => by
            simp [isMeasurement, role, hr] at h
          obtain ⟨qubit, rfl, rfl, -⟩ := operationRole_call measures
          exact ⟨v, qubit, rfl⟩
        | _ => cases h
      · cases ty <;> first | cases h | exact absurd rfl hty
  · rintro ⟨v, qubit, rfl⟩
    rfl

/-- What operands a measurement has does not matter. -/
theorem isMeasurement_mapOperands {i : Instruction} {σ : Operand → Operand} :
    isMeasurement (i.mapOperands σ) = isMeasurement i := by
  rw [Bool.eq_iff_iff, isMeasurement_iff, isMeasurement_iff]
  obtain ⟨result, ty, operation⟩ := i
  cases operation with
  | call callee args =>
    cases args with
    | nil => simp [Instruction.mapOperands, Operation.mapOperands]
    | cons o args => cases args <;> simp [Instruction.mapOperands, Operation.mapOperands]
  | _ => simp [Instruction.mapOperands, Operation.mapOperands]

/-- **Lowering the results of a program** gives addresses to measurements,
and the table explains every definition. -/
theorem explained_of_ends (ends : Pass.resultLowering.Ends p c p' c')
    (nodup : (p.definitions.flatMap Function.definedValues).Nodup)
    (qubits : c.tracker.All fun r => r.kind = .qubit ∧ r.width = 1) :
    ∃ m : ValueId → Option Handle, (∀ v, (m v).isSome = p.computes isMeasurement v) ∧
      List.Forall₂ (Explained ⟨fun _ => none, m⟩) p.definitions p'.definitions := by
  cases ends with
  | skipped hskip =>
    refine ⟨fun _ => none, fun v => ?_, List.forall₂_same.2 fun f _ => .refl f⟩
    refine (Bool.eq_false_iff.2 fun hv => ?_).symm
    obtain ⟨f, hf, i, hi, -, hm⟩ := Program.computes_iff.1 hv
    obtain ⟨u, qubit, rfl⟩ := isMeasurement_iff.1 hm
    have none :=
      (Program.any_instructions_eq_false (·.isCallTo Intrinsics.measure)).1 hskip f hf _ hi
    simp at none
  | ran _ h =>
    change (run p c).failure = none at h
    change ∃ m : ValueId → Option Handle, _ ∧ List.Forall₂ _ _ (run p c).program.definitions
    have new : ∀ v, c.tracker.resolveAs? .result (.value v) = none :=
      (qubits.imp fun r hr => hr.1).resolveAs?_eq_none (by decide)
    rw [run_failure] at h
    rw [definitions_run]
    have inside := (List.nodup_flatMap.1 nodup).1
    obtain ⟨m, hm, hex, -⟩ := Lowering.explained_run
      (fun m => ⟨fun _ => none, m⟩) frames_lower
      (fun s f h => isDeclaration_lower h) nodup (fun s => s.tracker.All fun r => r.width = 1)
      (qubits.imp fun r hr => hr.2) (fun f hf s hs h => all_single_lower h hs)
      (fun f hf s h i hi hm v hv => exists_of_measures h (inside f hf) hi hm hv)
      (fun f hf s h hs hnew m hm => explained h (inside f hf)
        (fun v hv => (Tracker.resolveAs?_value_congr (hnew v hv)).trans (new v)) hs
        fun e he v hv => ⟨rfl, hm e.2 (Function.mem_instructions.2 ⟨e.1, he⟩) v hv⟩) h
    exact ⟨m, hm, hex⟩

/-- Lowering qubits leaves measurements as they are. -/
theorem computes_explained {q : ValueId → Option Handle}
    (h : List.Forall₂ (Explained ⟨q, fun _ => none⟩) p.definitions p'.definitions) (v : ValueId) :
    p'.computes isMeasurement v = p.computes isMeasurement v := by
  rw [Bool.eq_iff_iff, Program.computes_iff, Program.computes_iff]
  constructor
  · rintro ⟨g, hg, j, hj, hjv, hm⟩
    obtain ⟨f, hf, hfg⟩ := exists_left_of_forall₂ h hg
    obtain ⟨i, hi, ⟨σ, rfl⟩, hiv, -⟩ := hfg.exists_of_result hj hjv
    exact ⟨f, hf, i, hi, hiv, isMeasurement_mapOperands ▸ hm⟩
  · rintro ⟨f, hf, i, hi, hiv, hm⟩
    obtain ⟨g, hg, hfg⟩ := exists_right_of_forall₂ h hf
    have hcall : i.isCallTo Intrinsics.measure := by
      obtain ⟨u, qubit, rfl⟩ := isMeasurement_iff.1 hm
      exact beq_self_eq_true _
    obtain ⟨σ, hi'⟩ := hfg.exists_of_measures hi hcall hiv rfl
    exact ⟨g, hg, _, hi', hiv, by rwa [isMeasurement_mapOperands]⟩

end ResultLowering

/-! ## Stating what is needed -/

/-- Attributes do not matter for what a function does. -/
theorem Function.execute_setAttributes (f : Function) (attributes : SortedMap String String) :
    Function.execute { f with attributes := attributes } = f.execute := by
  funext w
  induction w with
  | nil => rfl
  | cons k w ih =>
    simp only [Function.execute, ih]
    rfl

/-- Stating what a program needs changes attributes only. -/
theorem Requirements.forall₂_of_ends {p p' : Program} {c c' : Context}
    (ends : Pass.requirements.Ends p c p' c') :
    List.Forall₂ (fun f g => ∃ attributes, g = { f with attributes := attributes })
      p.definitions p'.definitions := by
  cases ends with
  | skipped h => cases h
  | ran _ h =>
    refine Program.forall₂_definitions (fun f g ⟨_, hg⟩ => hg ▸ rfl) ?_
    exact p.forall₂_updateEntryPoint (fun f => ⟨f.attributes, rfl⟩) fun f => ⟨_, rfl⟩

/-! ## All passes -/

/-- **A definition is preserved** by a lowered one, given the addresses of
acquisitions and measurements. -/
structure Execution.Preserves (a : Addresses) (f g : Function) : Prop where
  /-- The name stays. -/
  name : g.name = f.name
  /-- No qubit and no result is acquired any more. -/
  static : ∀ j ∈ g.instructions, j.result.isSome →
    ¬ j.isCallTo Intrinsics.acquireQubit ∧ ¬ ResultLowering.isMeasurement j
  /-- Walks stay. -/
  walk : ∀ w, f.Walk w → g.Walk w
  /-- On every walk that can be executed the same calls are made, but for those
  that manage qubits, and the terminator reads the same: everywhere with addresses
  in place of what was acquired. -/
  calls : ∀ w s, f.execute w = some s → ∃ s', g.execute w = some s' ∧
    (s'.events.filter fun e => !e.managesQubits) =
      (s.events.filter fun e => !e.managesQubits).map a.relocateEvent ∧
    s'.events.Sublist (s.events.map a.relocateEvent) ∧
    ∀ ds, f.exitData w s = some ds → g.exitData w s' = some (ds.map a.relocate)

theorem Execution.preserves_of_explained {f g g' : Function} {q m : ValueId → Option Handle}
    {attributes : SortedMap String String} (hq : Explained ⟨q, fun _ => none⟩ f g)
    (hm : Explained ⟨fun _ => none, m⟩ g g')
    (acquisitions : ∀ i ∈ f.instructions, i.isCallTo Intrinsics.acquireQubit → ∀ v,
      i.result = some v → (q v).isSome)
    (measurements : ∀ i ∈ g.instructions, ResultLowering.isMeasurement i → ∀ v,
      i.result = some v → (m v).isSome) :
    Preserves ⟨q, m⟩ f { g' with attributes := attributes } where
  name := hm.name.trans hq.name
  static j hj hr := by
    obtain ⟨v, hv⟩ := Option.isSome_iff_exists.1 hr
    obtain ⟨i, hi, ⟨σ, rfl⟩, hiv, -, hmv⟩ := hm.exists_of_result hj hv
    obtain ⟨i₀, hi₀, ⟨τ, rfl⟩, hi₀v, hqv, -⟩ := hq.exists_of_result hi hiv
    constructor
    · intro hc
      have := acquisitions i₀ hi₀ (by simpa [Instruction.isCallTo] using hc) v hi₀v
      simp only at hqv
      simp [hqv] at this
    · intro hc
      have := measurements _ hi (by rwa [ResultLowering.isMeasurement_mapOperands] at hc) v hiv
      simp only at hmv
      simp [hmv] at this
  walk w hw := by
    have same : Function.shape { g' with attributes := attributes } = g'.shape := rfl
    exact ((hq.corresponds.trans hm.corresponds).walk w hw).congr same
  calls w s hs := by
    obtain ⟨s', hs', follows, exits⟩ := (hq.corresponds.trans hm.corresponds).execute w s hs
    rw [← Function.execute_setAttributes g' attributes] at hs'
    exact ⟨s', hs', follows.filter_eq, follows.sublist, exits⟩

namespace Schedule

variable {p : Program} {c : Context}

/-- **Allocation preserves what a program does.** If it succeeds, acquisitions
of qubits and measurements have addresses, and every definition does the
same on every walk, with the addresses in place of what was acquired. -/
theorem allocation_preserves (p : Program) (hp : p.verify = .ok ())
    (arrays : ∀ f ∈ p.definitions, ∀ i ∈ f.instructions, i.managesArrays = false) (c : Context)
    (hc : c.tracker = .empty) (verifyEach : Bool)
    (h : (Schedule.run { allocation with verifyEach := verifyEach } p c).failure = none) :
    ∃ a : Addresses,
      (∀ f ∈ p.definitions, ∀ i ∈ f.instructions, ∀ v, i.result = some v →
        (a.qubit v).isSome = i.isCallTo Intrinsics.acquireQubit ∧
          (a.result v).isSome = ResultLowering.isMeasurement i) ∧
      List.Forall₂ (Preserves a) p.definitions
        (Schedule.run { allocation with verifyEach := verifyEach } p c).program.definitions := by
  have nodup := (Program.verify_eq_ok_iff.1 hp).values
  obtain ⟨p₁, c₁, p₂, c₂, first, second, third⟩ :=
    exists_ends_of_run (allocation_passes verifyEach) h
  generalize (Schedule.run { allocation with verifyEach := verifyEach } p c).program = p' at *
  generalize (Schedule.run { allocation with verifyEach := verifyEach } p c).context = c' at *
  obtain ⟨q, hq, lowered, qubits⟩ := QubitLowering.explained_of_ends first nodup
    (fun v => by rw [hc]; rfl) arrays
  have nodup₁ := nodup.sublist (QubitLowering.lowersTo_of_ends first).definedValues_sublist
  obtain ⟨m, hm, lowered'⟩ := ResultLowering.explained_of_ends second nodup₁ qubits
  have annotated := Requirements.forall₂_of_ends third
  have measures : ∀ v, p₁.computes ResultLowering.isMeasurement v =
      p.computes ResultLowering.isMeasurement v := ResultLowering.computes_explained lowered
  refine ⟨⟨q, m⟩, fun f hf i hi v hv => ⟨?_, ?_⟩, ?_⟩
  · rw [hq, Program.computes_eq nodup hf hi hv]
  · rw [hm, measures, Program.computes_eq nodup hf hi hv]
  -- the program in the middle is forgotten, but not what explains it on either side
  have both := forall₂_trans (T := fun f g' => ∃ g ∈ p₁.definitions,
    Explained ⟨q, fun _ => none⟩ f g ∧ Explained ⟨fun _ => none, m⟩ g g')
    (fun f g g' hfg hgg' => ⟨g, hgg'.1, hfg, hgg'.2⟩) lowered
    (forall₂_imp_of_mem lowered' fun g hg g' h => And.intro hg h)
  refine forall₂_trans (fun f g' g'' ⟨hf, g, hg, hfg, hgg'⟩ ⟨attributes, h⟩ => ?_)
    (forall₂_imp_of_mem both fun f hf g' h => And.intro hf h) annotated
  subst h
  refine preserves_of_explained hfg hgg' (fun i hi hcall v hv => ?_) fun i hi hmeas v hv => ?_
  · rw [hq, Program.computes_eq nodup hf hi hv]
    exact hcall
  · rw [hm, Program.computes_eq nodup₁ hg hi hv]
    exact hmeas

/-! ## A program with a cycle -/

/-- A qubit is measured again and again until the outcome is zero. -/
def repeatUntilZero : Program where
  name := "repeat"
  functions := [{
    name := "main"
    params := []
    signature := []
    returnType := .result
    blocks := [
      ⟨⟨0⟩, "entry", [⟨some ⟨0⟩, .qubit, .call Intrinsics.acquireQubit []⟩],
        some (.branch ⟨1⟩)⟩,
      ⟨⟨1⟩, "body", [
        ⟨some ⟨1⟩, .qubit, .phi [(⟨0⟩, .value ⟨0⟩), (⟨1⟩, .value ⟨0⟩)]⟩,
        .call "__quantum__qis__h__body" [.value ⟨1⟩],
        ⟨some ⟨2⟩, .result, .call Intrinsics.measure [.value ⟨1⟩]⟩,
        ⟨some ⟨3⟩, .bool, .call "__quantum__qis__read_result__body" [.value ⟨2⟩]⟩],
        some (.condBranch (.value ⟨3⟩) ⟨1⟩ ⟨2⟩)⟩,
      ⟨⟨2⟩, "exit", [.call Intrinsics.releaseQubit [.value ⟨0⟩]],
        some (.ret (some (.value ⟨2⟩)))⟩]
    attributes := SortedMap.empty.insert Function.entryPointAttribute "" }]
  flags := .empty
  nextValue := 4

theorem allocation_preserves_repeatUntilZero :
    repeatUntilZero.verify = .ok () ∧
      (Schedule.run { allocation with verifyEach := true } repeatUntilZero .default).failure =
        none ∧
      (∀ f ∈ repeatUntilZero.definitions, (f.execute [2, 1, 1, 1, 0]).isSome) ∧
      ∃ a : Addresses, (a.qubit ⟨0⟩).isSome ∧ (a.result ⟨2⟩).isSome ∧
        List.Forall₂ (Preserves a) repeatUntilZero.definitions
          (Schedule.run { allocation with verifyEach := true } repeatUntilZero
            .default).program.definitions := by
  obtain ⟨a, domains, preserves⟩ := allocation_preserves repeatUntilZero (by decide) (by decide)
    .default rfl true rfl
  refine ⟨by decide, rfl, by decide, a, ?_, ?_, preserves⟩
  · have acquires : ∃ f ∈ repeatUntilZero.definitions, ∃ i ∈ f.instructions,
        i.result = some ⟨0⟩ ∧ i.isCallTo Intrinsics.acquireQubit := by decide
    obtain ⟨f, hf, i, hi, hv, hc⟩ := acquires
    rw [(domains f hf i hi _ hv).1, hc]
  · have measures : ∃ f ∈ repeatUntilZero.definitions, ∃ i ∈ f.instructions,
        i.result = some ⟨2⟩ ∧ ResultLowering.isMeasurement i := by decide
    obtain ⟨f, hf, i, hi, hv, hm⟩ := measures
    rw [(domains f hf i hi _ hv).2, hm]

end Schedule

end QuantumLowering
