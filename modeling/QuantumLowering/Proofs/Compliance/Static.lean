import QuantumLowering.Compliance.Rules
import QuantumLowering.Proofs.Execution.Allocation
import QuantumLowering.Proofs.Lowering.Tracing
/-!
# Lowering makes definitions static

A definition can be made static (`Function.Lowerable`) if every qubit and
every result in it traces back to an acquisition or a measurement. Lowering
qubits then finds the address of each value that is a qubit, and lowering
results that of each value that is a result, so none of them survives
(`Function.IsStatic`).
-/


namespace QuantumLowering

open Lowering

/-! ## Definitions that can be made static -/

/-- An instruction releases one value that is a qubit. -/
def Function.ReleasesQubit (f : Function) (i : Instruction) : Prop :=
  i.result = none ∧ ∃ v, i.operation = .call Intrinsics.releaseQubit [.value v] ∧
    Rules.typeOf? f v = some .qubit

/-- **A definition that lowering can make static.** -/
structure Function.Lowerable (f : Function) : Prop where
  /-- No parameter is a qubit or a result. -/
  params : ∀ q ∈ f.params, q.type.isResource = false
  /-- Calls are allowed, or acquire or release a qubit, or measure one. -/
  callees : ∀ i ∈ f.instructions, ∀ callee, i.callee? = some callee →
    Intrinsics.isBaseCallee callee ∨ i.acquiresQubit ∨ f.ReleasesQubit i ∨
      ResultLowering.isMeasurement i
  /-- Values that are qubits trace back to an acquisition. -/
  qubits : ∀ i ∈ f.instructions, i.type = .qubit → ∀ u, i.result = some u →
    ∃ v, f.TracesTo .qubit Instruction.acquiresQubit v u
  /-- Values that are results trace back to a measurement. -/
  results : ∀ i ∈ f.instructions, i.type = .result → ∀ u, i.result = some u →
    ∃ v, f.TracesTo .result ResultLowering.isMeasurement v u
  /-- Every block can be reached. -/
  reachable : ∀ k < f.blocks.length, f.Reachable k
  /-- There is no cycle. -/
  acyclic : ControlFlow.Acyclic f.edges
  /-- Every use is dominated by its definition. -/
  dominated : f.UsesDominated

/-- **A definition without qubits that are values.** Results still trace
back to measurements. -/
structure Function.QubitFree (f : Function) : Prop where
  /-- No parameter is a qubit or a result. -/
  params : ∀ q ∈ f.params, q.type.isResource = false
  /-- Calls are allowed, or measure a qubit. -/
  callees : ∀ i ∈ f.instructions, ∀ callee, i.callee? = some callee →
    Intrinsics.isBaseCallee callee ∨ ResultLowering.isMeasurement i
  /-- No value is a qubit. -/
  qubits : ∀ i ∈ f.instructions, ∀ u, i.result = some u → i.type ≠ .qubit
  /-- Values that are results trace back to a measurement. -/
  results : ∀ i ∈ f.instructions, i.type = .result → ∀ u, i.result = some u →
    ∃ v, f.TracesTo .result ResultLowering.isMeasurement v u
  /-- Instructions are in order. -/
  inOrder : f.InOrder

/-- **A static definition**: no value is a qubit or a result, and calls are
allowed. -/
structure Function.IsStatic (f : Function) : Prop where
  /-- No parameter is a qubit or a result. -/
  params : ∀ q ∈ f.params, q.type.isResource = false
  /-- Calls are allowed. -/
  callees : ∀ i ∈ f.instructions, ∀ callee, i.callee? = some callee →
    Intrinsics.isBaseCallee callee
  /-- No value is a qubit or a result. -/
  values : ∀ i ∈ f.instructions, ∀ u, i.result = some u → i.type.isResource = false

/-- A typed value is a parameter or computed by an instruction. -/
theorem Rules.exists_of_typeOf? {f : Function} {v : ValueId} {ty : Ty}
    (h : typeOf? f v = some ty) :
    (∃ q ∈ f.params, q.value = v ∧ q.type = ty) ∨
      ∃ i ∈ f.instructions, i.result = some v ∧ i.type = ty := by
  have hmem := List.mem_reverse.1 (Execution.mem_of_lookup h)
  rcases List.mem_append.1 hmem with hmem | hmem
  · obtain ⟨q, hq, heq⟩ := List.mem_map.1 hmem
    cases heq
    exact .inl ⟨q, hq, rfl, rfl⟩
  · obtain ⟨i, hi, hmap⟩ := List.mem_filterMap.1 hmem
    obtain ⟨u, hu, heq⟩ := Option.map_eq_some_iff.1 hmap
    cases heq
    exact .inr ⟨i, hi, hu, rfl⟩

/-- What the profile allows manages no qubits. -/
theorem Intrinsics.not_isQubitManagement {name : String} (h : isBaseCallee name) :
    isQubitManagement name = false := by
  by_contra hm
  have hm : managementStart.toList <+: name.toList := by
    simpa [isQubitManagement, startsLike] using hm
  have runtime : startsLike runtimeStart name := by
    have : runtimeStart.toList <+: managementStart.toList := by decide
    simpa [startsLike] using this.trans hm
  have instruction : startsLike instructionStart name = false := by
    by_contra hi
    have hi : instructionStart.toList <+: name.toList := by simpa [startsLike] using hi
    rcases List.prefix_or_prefix_of_prefix hm hi with h | h
    · exact absurd h (by decide)
    · exact absurd h (by decide)
  simp only [isBaseCallee, instruction, runtime, Bool.false_eq_true, if_false, if_true] at h
  have allowed : ∀ n ∈ baseRuntime, ¬ managementStart.toList <+: n.toList := by decide
  exact allowed name (by simpa using h) hm

/-! ## Lowering qubits -/

namespace QubitLowering

variable {honored sole : Bool} {s s' : Stock} {i : Instruction} {d : Decision} {f : Function}

/-- An instruction whose value becomes known may go. -/
theorem Judges.isDroppable (h : Judges honored s i s' d) {u : ValueId} (hu : i.result = some u)
    (new : s.tracker.resolve? u = none) (known : (s'.tracker.resolve? u).isSome) :
    d.isDroppable := by
  have found : ∀ {v o otherwise}, some v = some u → s.tracker.Sets s'.tracker v o →
      (derived o otherwise).isDroppable := by
    intro v o otherwise hv hset
    obtain rfl := Option.some.inj hv
    rw [hset.self] at known
    rw [derived_of_isSome known]
    rfl
  cases h with
  | acquire => rfl
  | acquireArray => rfl
  | unsized _ _ hset =>
    obtain rfl := Option.some.inj hu
    rw [hset.self] at known
    cases known
  | project _ hset => exact found hu hset
  | release => rfl
  | unresolved => cases hu
  | copy _ _ hset => exact found hu hset
  | phi _ _ hset => exact found hu hset
  | other =>
    rw [new] at known
    cases known

section Lowered

variable {ds : List (Site × Decision)} {gone : List Site} {g : Function}

/-- An instruction that means nothing for qubits stays, and its value has
no address. -/
theorem other_stays (decides : Decides (judge honored) s f.visited ds s')
    (finished : Finished (address? s'.tracker) Prod.snd
      ((ds.filter fun d => d.2.isDroppable).map Prod.fst) f g gone)
    (nodup : f.definedValues.Nodup) (new : ∀ v ∈ f.definedValues, s.tracker.resolve? v = none)
    (hi : i ∈ f.instructions) (hrole : role i = .other) :
    i.mapOperands (Operand.substitute (address? s'.tracker)) ∈ g.instructions ∧
      ∀ u, i.result = some u → address? s'.tracker u = none := by
  obtain ⟨x, he⟩ := Function.mem_instructions.1 hi
  obtain ⟨s₁, s₂, d, visit⟩ := decides.exists_visit frames_judge nodup he
  have hstep := visit.step
  simp only [judge, hrole, judgeRole] at hstep
  cases hstep
  constructor
  · rw [finished.eq, Function.mem_instructions_rewrite]
    exact ⟨(x, i), he, if_neg (finished.not_mem_gone (P := Decision.isDroppable) visit rfl)⟩
  · intro u hu
    refine address?_of_none ?_
    rw [visit.result u hu, visit.new u hu, new u (Function.result_mem_definedValues he hu)]

/-- **Results still trace back to measurements** once qubits are lowered. -/
theorem tracesTo_of_tracesTo (decides : Decides (judge honored) s f.visited ds s')
    (finished : Finished (address? s'.tracker) Prod.snd
      ((ds.filter fun d => d.2.isDroppable).map Prod.fst) f g gone)
    (nodup : f.definedValues.Nodup) (new : ∀ v ∈ f.definedValues, s.tracker.resolve? v = none)
    {v u : ValueId} (h : f.TracesTo .result ResultLowering.isMeasurement v u) :
    address? s'.tracker u = none ∧ g.TracesTo .result ResultLowering.isMeasurement v u := by
  have stays := fun i hi hrole => other_stays decides finished nodup new (i := i) hi hrole
  have same : ∀ {w}, address? s'.tracker w = none →
      (Operand.value w).substitute (address? s'.tracker) = .value w := by
    intro w hw
    rw [Operand.substitute_value, hw, Option.getD_none]
  induction h with
  | @source i hi hm hv =>
    -- measurements, copies and phis of results mean nothing for qubits, so they stay
    obtain ⟨w, qubit, rfl⟩ := ResultLowering.isMeasurement_iff.1 hm
    obtain ⟨hmem, hnone⟩ := stays _ hi rfl
    exact ⟨hnone v hv, .source hmem rfl hv⟩
  | @copy u w hi _ ih =>
    obtain ⟨hmem, hnone⟩ := stays _ hi rfl
    have hcopy : (⟨some u, .result, .copy (.value w)⟩ : Instruction).mapOperands
        (Operand.substitute (address? s'.tracker)) = ⟨some u, .result, .copy (.value w)⟩ := by
      simp only [Instruction.mapOperands, Operation.mapOperands, same ih.1]
    exact ⟨hnone u rfl, .copy (hcopy ▸ hmem) ih.2⟩
  | @phi u incoming ws hi hops hne _ ih =>
    obtain ⟨hmem, hnone⟩ := stays _ hi rfl
    refine ⟨hnone u rfl, .phi hmem ?_ hne fun w hw => (ih w hw).2⟩
    rw [List.map_map]
    change incoming.map (Operand.substitute (address? s'.tracker) ∘ Prod.snd) = _
    rw [← List.map_map, hops, List.map_map]
    exact List.map_congr_left fun w hw => same (ih w hw).1

/-- A value that is a qubit has an address. -/
theorem exists_address (decides : Decides (judge honored) s f.visited ds s') (hf : f.Lowerable)
    (inOrder : f.InOrder) (nodup : f.definedValues.Nodup) (hi : i ∈ f.instructions)
    (hty : i.type = .qubit) {u : ValueId} (hu : i.result = some u) :
    ∃ handle, s'.tracker.resolve? u = some (.single .qubit handle) := by
  obtain ⟨v, traces⟩ := hf.qubits i hi hty u hu
  obtain ⟨handle, -, hhandle⟩ := decides.standsFor frames_judge derives_judge nodup inOrder traces
  exact ⟨handle, hhandle⟩

/-- **Values that are qubits go.** -/
theorem qubit_mem_gone (decides : Decides (judge honored) s f.visited ds s')
    (finished : Finished (address? s'.tracker) Prod.snd
      ((ds.filter fun d => d.2.isDroppable).map Prod.fst) f g gone)
    (hf : f.Lowerable) (inOrder : f.InOrder) (nodup : f.definedValues.Nodup)
    (new : ∀ v ∈ f.definedValues, s.tracker.resolve? v = none) {e : Site × Instruction}
    (he : e ∈ f.located) (hty : e.2.type = .qubit) {u : ValueId} (hu : e.2.result = some u) :
    e.1 ∈ gone := by
  obtain ⟨s₁, s₂, d, visit⟩ := decides.exists_visit frames_judge nodup he
  obtain ⟨handle, known⟩ := exists_address decides hf inOrder nodup
    (Function.mem_instructions.2 ⟨e.1, he⟩) hty hu
  refine finished.mem_gone (P := Decision.isDroppable) visit he ?_ fun v hv => ?_
  · refine (judges_of_judge visit.step).isDroppable hu ?_ ?_
    · rw [visit.new u hu, new u (Function.result_mem_definedValues he hu)]
    · rw [← visit.result u hu, known]
      rfl
  · obtain rfl := Option.some.inj (hu.symm.trans hv)
    rw [address?_of_single known]
    rfl

/-- **Releases of them go.** -/
theorem release_mem_gone (decides : Decides (judge honored) s f.visited ds s')
    (finished : Finished (address? s'.tracker) Prod.snd
      ((ds.filter fun d => d.2.isDroppable).map Prod.fst) f g gone)
    (hf : f.Lowerable) (inOrder : f.InOrder) (nodup : f.definedValues.Nodup)
    {e : Site × Instruction} (he : e ∈ f.located) (hreleases : f.ReleasesQubit e.2) :
    e.1 ∈ gone := by
  obtain ⟨x, result, ty, operation⟩ := e
  obtain ⟨hresult, v, hop, hty⟩ := hreleases
  obtain rfl : result = none := hresult
  obtain rfl : operation = .call Intrinsics.releaseQubit [.value v] := hop
  obtain ⟨s₁, s₂, d, visit⟩ := decides.exists_visit frames_judge nodup he
  obtain ⟨handle, hv⟩ : ∃ handle, s'.tracker.resolve? v = some (.single .qubit handle) := by
    rcases Rules.exists_of_typeOf? hty with ⟨q, hq, -, hqt⟩ | ⟨i, hi, hiv, hit⟩
    · have := hf.params q hq
      rw [hqt] at this
      cases this
    · exact exists_address decides hf inOrder nodup hi hit hiv
  have target := visit.resolveAs?_operand .qubit inOrder
    (List.mem_singleton_self (Operand.value v))
  rw [resolveAs?_of_single hv] at target
  refine finished.mem_gone (P := Decision.isDroppable) visit he ?_ fun u hu => by cases hu
  cases judges_of_judge visit.step with
  | release => rfl
  | unresolved _ hnone =>
    rw [target] at hnone
    cases hnone
  | other hrole => cases hrole

end Lowered

/-- **Lowering qubits leaves no value that is a qubit.** -/
theorem qubitFree_lower (h : (lower sole s f).failure = none) (hf : f.Lowerable)
    (inOrder : f.InOrder) (nodup : f.definedValues.Nodup)
    (new : ∀ v ∈ f.definedValues, s.tracker.resolve? v = none) :
    (lower sole s f).function.QubitFree := by
  obtain ⟨ds, gone, decides, finished⟩ := exists_lowered h
  generalize (lower sole s f).function = g at finished ⊢
  have params : g.params = f.params := by rw [finished.eq]; rfl
  refine ⟨params ▸ hf.params, fun j hj callee hcallee => ?_, fun j hj u hu hty => ?_,
    fun j hj hty u hu => ?_, ?_⟩
  · obtain ⟨e, he, hstays, rfl⟩ := finished.mem_instructions_iff.1 hj
    rw [Instruction.callee?_mapOperands] at hcallee
    rw [ResultLowering.isMeasurement_mapOperands]
    rcases hf.callees e.2 (Function.mem_instructions.2 ⟨e.1, he⟩) callee hcallee with
      hbase | hacquires | hreleases | hmeasures
    · exact .inl hbase
    · obtain ⟨v, args, heq⟩ := acquiresQubit_iff.1 hacquires
      exact absurd (qubit_mem_gone decides finished hf inOrder nodup new he (by rw [heq])
        (congrArg Instruction.result heq)) hstays
    · exact absurd (release_mem_gone decides finished hf inOrder nodup he hreleases) hstays
    · exact .inr hmeasures
  · obtain ⟨e, he, hstays, rfl⟩ := finished.mem_instructions_iff.1 hj
    exact hstays (qubit_mem_gone decides finished hf inOrder nodup new he hty hu)
  · obtain ⟨e, he, -, rfl⟩ := finished.mem_instructions_iff.1 hj
    obtain ⟨v, traces⟩ := hf.results e.2 (Function.mem_instructions.2 ⟨e.1, he⟩) hty u hu
    exact ⟨v, (tracesTo_of_tracesTo decides finished nodup new traces).2⟩
  · exact finished.inOrder (fun _ _ => address?_isConstant) inOrder
      (fun e _ v hv => hv) fun e _ v hv => hv

/-- What manages no qubits has no value that is one. -/
theorem qubitFree_of_unmanaged (hf : f.Lowerable) (inOrder : f.InOrder)
    (unmanaged : ∀ i ∈ f.instructions, i.managesQubits = false) : f.QubitFree := by
  have acquires : ∀ i ∈ f.instructions, i.acquiresQubit = false := by
    intro i hi
    by_contra hacquires
    obtain ⟨v, args, rfl⟩ := acquiresQubit_iff.1 (by simpa using hacquires)
    have := unmanaged _ hi
    rw [Instruction.managesQubits_call] at this
    exact absurd this (by decide)
  refine ⟨hf.params, fun i hi callee hcallee => ?_, fun i hi u hu hty => ?_, hf.results, inOrder⟩
  · rcases hf.callees i hi callee hcallee with hbase | hacquires | ⟨-, v, hop, -⟩ | hmeasures
    · exact .inl hbase
    · simp [acquires i hi] at hacquires
    · have := unmanaged i hi
      simp only [Instruction.managesQubits, Instruction.callee?, hop, Option.any_some] at this
      exact absurd this (by decide)
    · exact .inr hmeasures
  · obtain ⟨v, traces⟩ := hf.qubits i hi hty u hu
    obtain ⟨j, hj, hacquires, -⟩ := traces.exists_source
    simp [acquires j hj] at hacquires

end QubitLowering

/-! ## Lowering results -/

namespace ResultLowering

variable {s s' : Stock} {f g : Function} {ds : List (Site × Decision)} {gone : List Site}

/-- A value that is a result has an address. -/
theorem exists_address (decides : Decides judge s f.visited ds s') (hf : f.QubitFree)
    (nodup : f.definedValues.Nodup) {i : Instruction} (hi : i ∈ f.instructions)
    (hty : i.type = .result) {u : ValueId} (hu : i.result = some u) :
    ∃ handle, s'.tracker.resolve? u = some (.single .result handle) := by
  obtain ⟨v, traces⟩ := hf.results i hi hty u hu
  obtain ⟨handle, -, hhandle⟩ :=
    decides.standsFor frames_judge derives_judge nodup hf.inOrder traces
  exact ⟨handle, hhandle⟩

/-- A value that stands for what its operands stand for goes, if it is a
result. -/
theorem derived_mem_gone (decides : Decides judge s f.visited ds s')
    (finished : Finished (address? s'.tracker) (replaced ds)
      ((ds.filter fun d => d.2 = .known).map Prod.fst) f g gone)
    (hf : f.QubitFree) (nodup : f.definedValues.Nodup) {e : Site × Instruction} {s₁ s₂ : Stock}
    {o : Option Resource} (visit : Decides.Visit judge s f ds s' e s₁ s₂ (derived o))
    (he : e ∈ f.located) (hty : e.2.type = .result) {u : ValueId} (hu : e.2.result = some u)
    (hset : s₁.tracker.Sets s₂.tracker u o) : e.1 ∈ gone := by
  obtain ⟨handle, known⟩ := exists_address decides hf nodup
    (Function.mem_instructions.2 ⟨e.1, he⟩) hty hu
  obtain rfl : o = some (.single .result handle) := by
    rw [← hset.self, ← visit.result u hu, known]
  have hreplaced : replaced ds e = e.2 := by
    rw [replaced_eq visit.decision, replacement?_derived, Option.getD_none]
  refine finished.mem_gone (P := fun d => d = .known) visit he ?_ fun v hv => ?_
  · rw [derived_of_isSome rfl]
    rfl
  · rw [hreplaced, hu] at hv
    obtain rfl := Option.some.inj hv
    rw [address?_of_single known]
    rfl

/-- **What stays of a definition without qubits is static.** -/
theorem static_of_stays (decides : Decides judge s f.visited ds s')
    (finished : Finished (address? s'.tracker) (replaced ds)
      ((ds.filter fun d => d.2 = .known).map Prod.fst) f g gone)
    (hf : f.QubitFree) (nodup : f.definedValues.Nodup)
    (new : ∀ v ∈ f.definedValues, s.tracker.resolveAs? .result (.value v) = none)
    {e : Site × Instruction} (he : e ∈ f.located) (stays : e.1 ∉ gone) :
    (∀ callee, (replaced ds e).callee? = some callee → Intrinsics.isBaseCallee callee) ∧
      ∀ u, (replaced ds e).result = some u → (replaced ds e).type.isResource = false := by
  obtain ⟨x, i⟩ := e
  have hi : i ∈ f.instructions := Function.mem_instructions.2 ⟨x, he⟩
  obtain ⟨s₁, s₂, d, visit⟩ := decides.exists_visit frames_judge nodup he
  rw [replaced_eq visit.decision]
  cases judges_of_judge visit.step with
  | measure =>
    refine ⟨fun callee hcallee => ?_, fun u hu => by cases hu⟩
    obtain rfl : Intrinsics.measureInto = callee := Option.some.inj hcallee
    decide
  | copy _ hset =>
    exact absurd (derived_mem_gone decides finished hf nodup visit he rfl rfl hset) stays
  | phi _ hset =>
    exact absurd (derived_mem_gone decides finished hf nodup visit he rfl rfl hset) stays
  | other hrole =>
    refine ⟨fun callee hcallee => ?_, fun u hu => ?_⟩
    · refine (hf.callees i hi callee hcallee).resolve_right fun hm => ?_
      simp [isMeasurement, hrole] at hm
    · change i.type.isResource = false
      cases hty : i.type with
      | qubit => exact absurd hty (hf.qubits i hi u hu)
      | result =>
        -- a result would be known, but no step looked at this value
        obtain ⟨handle, known⟩ := exists_address decides hf nodup hi hty hu
        have unknown := new u (Function.result_mem_definedValues he hu)
        rw [visit.result u hu, visit.new u hu] at known
        rw [resolveAs?_of_single known] at unknown
        cases unknown
      | _ => rfl

/-- **Lowering results leaves a static definition.** -/
theorem static_lower (h : (lower s f).failure = none) (hf : f.QubitFree)
    (nodup : f.definedValues.Nodup)
    (new : ∀ v ∈ f.definedValues, s.tracker.resolveAs? .result (.value v) = none) :
    (lower s f).function.IsStatic := by
  obtain ⟨ds, gone, decides, finished⟩ := exists_lowered h
  generalize (lower s f).function = g at finished ⊢
  have params : g.params = f.params := by rw [finished.eq]; rfl
  refine ⟨params ▸ hf.params, fun j hj callee hcallee => ?_, fun j hj u hu => ?_⟩
  · obtain ⟨e, he, stays, rfl⟩ := finished.mem_instructions_iff.1 hj
    rw [Instruction.callee?_mapOperands] at hcallee
    exact (static_of_stays decides finished hf nodup new he stays).1 callee hcallee
  · obtain ⟨e, he, stays, rfl⟩ := finished.mem_instructions_iff.1 hj
    exact (static_of_stays decides finished hf nodup new he stays).2 u hu

/-- What measures nothing has no value that is a result. -/
theorem static_of_unmeasured (hf : f.QubitFree)
    (unmeasured : ∀ i ∈ f.instructions, i.isCallTo Intrinsics.measure = false) :
    f.IsStatic := by
  have measures : ∀ i ∈ f.instructions, isMeasurement i = false := by
    intro i hi
    by_contra hm
    obtain ⟨v, qubit, rfl⟩ := isMeasurement_iff.1 (by simpa using hm)
    simpa using unmeasured _ hi
  refine ⟨hf.params, fun i hi callee hcallee => ?_, fun i hi u hu => ?_⟩
  · exact (hf.callees i hi callee hcallee).resolve_right (by simp [measures i hi])
  · cases hty : i.type with
    | qubit => exact absurd hty (hf.qubits i hi u hu)
    | result =>
      obtain ⟨v, traces⟩ := hf.results i hi hty u hu
      obtain ⟨j, hj, hm, -⟩ := traces.exists_source
      simp [measures j hj] at hm
    | _ => rfl

end ResultLowering

end QuantumLowering
