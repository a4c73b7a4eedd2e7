import QuantumLowering.Lowering.Results
import QuantumLowering.Proofs.Lowering.Removal
/-!
# What lowering results does

`ResultLowering.Judges` lists what a step of the lowering of results can
be, and `ResultLowering.exists_lowered` says what lowering makes of a
function: the steps it took, the measurements it replaced, and the
function that the last step leaves.
-/


namespace QuantumLowering

namespace ResultLowering

/-! ## Steps -/

/-- The decision for a value that stands for what its operands stand for,
if that is known. -/
def derived (o : Option Resource) : Decision := if o.isSome then .known else .stays

@[simp] theorem derived_none : derived none = .stays := rfl

theorem derived_of_isSome {o : Option Resource} (h : o.isSome) : derived o = .known := if_pos h

/-- Nothing stands in place of such a value. -/
@[simp] theorem replacement?_derived (o : Option Resource) : (derived o).replacement? = none := by
  cases o <;> rfl

/-- **What a step can be**: an instruction, the stock after it and the
decision. -/
inductive Judges (s : Stock) : Instruction → Stock → Decision → Prop
  /-- A measurement gets a result from the pool. -/
  | measure {v : ValueId} {qubit : Operand} {h : Handle} {s' : Stock} :
    s.pool.allocate = (s'.pool, .ok h) →
    s.tracker.Sets s'.tracker v (some (.single .result h)) →
      Judges s ⟨some v, .result, .call Intrinsics.measure [qubit]⟩ s' (.measured v qubit h)
  /-- A result is copied. -/
  | copy {v : ValueId} {source : Operand} {s' : Stock} :
    s'.pool = s.pool → s.tracker.Sets s'.tracker v (s.tracker.resolveAs? .result source) →
      Judges s ⟨some v, .result, .copy source⟩ s'
        (derived (s.tracker.resolveAs? .result source))
  /-- Results are joined. -/
  | phi {v : ValueId} {incoming : List (BlockId × Operand)} {s' : Stock} :
    s'.pool = s.pool →
    s.tracker.Sets s'.tracker v (s.tracker.joinAs? .result (incoming.map Prod.snd)) →
      Judges s ⟨some v, .result, .phi incoming⟩ s'
        (derived (s.tracker.joinAs? .result (incoming.map Prod.snd)))
  /-- The instruction means nothing for results. -/
  | other {i : Instruction} : role i = .other → Judges s i s .stays

variable {s s' : Stock} {i : Instruction} {d : Decision}

theorem judges_of_derive {v : ValueId} {o : Option Resource}
    (h : (s.derive v o).map (fun found => if found then Decision.known else .stays) =
      (s', .ok d)) :
    s'.pool = s.pool ∧ s.tracker.Sets s'.tracker v o ∧ d = derived o := by
  obtain ⟨found, hd, rfl⟩ := Draw.map_eq_ok h
  obtain ⟨hp, ht, rfl⟩ := Stock.derive_eq_ok hd
  exact ⟨hp, ht, rfl⟩

/-- A measurement that lowering replaces. -/
theorem operationRole_call {v : ValueId} {callee : String} {args : List Operand}
    (h : operationRole v (.call callee args) ≠ .other) :
    ∃ qubit, args = [qubit] ∧ callee = Intrinsics.measure ∧
      operationRole v (.call callee args) = .measure v qubit := by
  match args with
  | [] => exact absurd rfl h
  | _ :: _ :: _ => exact absurd rfl h
  | [qubit] =>
    by_cases hc : callee = Intrinsics.measure
    · exact ⟨qubit, rfl, hc, by simp [operationRole, hc]⟩
    · exact absurd (by simp [operationRole, hc]) h

/-- **Every step is one of those.** -/
theorem judges_of_judge (h : judge s i = (s', .ok d)) : Judges s i s' d := by
  unfold judge at h
  by_cases hother : role i = .other
  · rw [hother] at h
    cases h
    exact .other hother
  obtain ⟨result, ty, operation⟩ := i
  by_cases hty : ty = .result
  swap
  · exact absurd (by cases ty <;> simp_all [role]) hother
  subst hty
  cases result with
  | none => exact absurd rfl hother
  | some v =>
    change judgeRole s (operationRole v operation) = _ at h
    cases operation with
    | call callee args =>
      obtain ⟨qubit, rfl, rfl, hr⟩ := operationRole_call hother
      rw [hr] at h
      obtain ⟨a, ha, rfl⟩ := Draw.map_eq_ok h
      obtain ⟨hp, ht⟩ := Stock.acquire_eq_ok ha
      exact .measure hp ht
    | copy source =>
      obtain ⟨hp, ht, rfl⟩ := judges_of_derive h
      exact .copy hp ht
    | phi incoming =>
      obtain ⟨hp, ht, rfl⟩ := judges_of_derive h
      exact .phi hp ht

/-- A step sets at most the value that its instruction computes. -/
theorem frames_judge : Lowering.Decides.Frames judge := by
  intro s i s' d h u hu
  cases judges_of_judge h with
  | measure _ ht => exact ht.other fun e => hu (congrArg some e.symm)
  | copy _ ht => exact ht.other fun e => hu (congrArg some e.symm)
  | phi _ ht => exact ht.other fun e => hu (congrArg some e.symm)
  | other => rfl

/-! ## Functions -/

/-- What stands in place of a value is an address. -/
theorem address?_isConstant {t : Tracker} {v : ValueId} {o : Operand}
    (h : address? t v = some o) : o.isConstant := by
  obtain ⟨r, -, hr⟩ := Option.bind_eq_some_iff.1 h
  exact Resource.operand?_isConstant hr

/-- A value that stands for one result has its address. -/
theorem address?_of_single {t : Tracker} {v : ValueId} {h : Handle}
    (hv : t.resolve? v = some (.single .result h)) : address? t v = some (.result h) := by
  rw [address?, hv]
  rfl

/-- A value that stands for no result has no address. -/
theorem address?_of_none {t : Tracker} {v : ValueId}
    (hv : t.resolveAs? .result (.value v) = none) : address? t v = none :=
  congrArg (Option.bind · Resource.operand?) hv

theorem lower_failure (s : Stock) (f : Function) : (lower s f).failure = (plan s f).failure := by
  unfold lower
  cases h : (plan s f).failure <;> simp [h]

theorem lower_stock (s : Stock) (f : Function) : (lower s f).stock = (plan s f).stock := by
  unfold lower
  cases h : (plan s f).failure <;> simp [h]

/-- The instructions in place of measurements. -/
def replacements (ds : List (Site × Decision)) : List (Site × Instruction) :=
  ds.filterMap fun d => d.2.replacement?.map fun i => (d.1, i)

/-- The instruction at a site, or what stands in its place. -/
def replaced (ds : List (Site × Decision)) (e : Site × Instruction) : Instruction :=
  ((replacements ds).lookup e.1).getD e.2

/-- **What lowering makes of a function**, where it does not fail. -/
theorem exists_lowered {f : Function} (h : (lower s f).failure = none) :
    ∃ ds gone, Lowering.Decides judge s f.visited ds (lower s f).stock ∧
      Lowering.Finished (address? (lower s f).stock.tracker) (replaced ds)
        ((ds.filter fun d => d.2 = .known).map Prod.fst) f (lower s f).function gone := by
  unfold lower at h ⊢
  cases hf : (plan s f).failure with
  | some e => simp [hf] at h
  | none =>
    simp only [hf]
    obtain ⟨gone, hgone⟩ := Lowering.exists_finished
      (fun v o => address?_isConstant (t := (plan s f).stock.tracker))
      (((plan s f).decisions.filter fun d => d.2 = .known).map Prod.fst)
      (Function.replaceAt_eq :
        f.replaceAt (replacements (plan s f).decisions) = _)
    exact ⟨_, gone, Lowering.decides_decideAll hf, hgone⟩

/-- Lowering a function leaves the values of others alone. -/
theorem frames_lower : Lowering.Sweeps.Frames lower := by
  intro s f h u hu
  obtain ⟨ds, gone, decides, -⟩ := exists_lowered h
  exact decides.frame_visited frames_judge fun e he heu =>
    hu (Function.result_mem_definedValues he heu)

theorem isDeclaration_lower {f : Function} (h : (lower s f).failure = none) :
    (lower s f).function.isDeclaration = f.isDeclaration := by
  obtain ⟨ds, gone, -, finished⟩ := exists_lowered h
  exact finished.isDeclaration

theorem name_lower {f : Function} (h : (lower s f).failure = none) :
    (lower s f).function.name = f.name := by
  obtain ⟨ds, gone, -, finished⟩ := exists_lowered h
  exact finished.name

/-- What stands at a site is what its decision says. -/
theorem replaced_eq {ds : List (Site × Decision)} {e : Site × Instruction} {d : Decision}
    (h : ∀ b, (e.1, b) ∈ ds ↔ b = d) : replaced ds e = d.replacement?.getD e.2 := by
  have mem : ∀ j, (e.1, j) ∈ replacements ds ↔ d.replacement? = some j := by
    intro j
    simp only [replacements, List.mem_filterMap, Option.map_eq_some_iff, Prod.exists,
      Prod.mk.injEq]
    constructor
    · rintro ⟨x, b, hb, k, hk, rfl, rfl⟩
      exact (h b).1 hb ▸ hk
    · exact fun hj => ⟨e.1, d, (h d).2 rfl, j, hj, rfl, rfl⟩
  unfold replaced
  congr 1
  cases hl : (replacements ds).lookup e.1 with
  | some j =>
    obtain ⟨l₁, l₂, heq, -⟩ := List.lookup_eq_some_iff.1 hl
    exact ((mem j).1 (by simp [heq])).symm
  | none =>
    cases hd : d.replacement? with
    | none => rfl
    | some j =>
      have := List.lookup_eq_none_iff.1 hl _ ((mem j).2 hd)
      simp at this

/-! ## Programs -/

theorem run_failure (p : Program) (c : Context) :
    (run p c).failure = (Lowering.run .result lower p c).failure := by
  simp only [run]
  split <;> rfl

/-- A run that fails declares nothing. -/
theorem run_eq_of_failure {p : Program} {c : Context} {e : Failure}
    (h : (run p c).failure = some e) : run p c = Lowering.run .result lower p c := by
  rw [run_failure] at h
  simp [run, h]

/-- Measuring into a result is declared afterwards, if at all. -/
theorem run_program (p : Program) (c : Context) :
    (run p c).program = (Lowering.run .result lower p c).program ∨
      (run p c).program = (Lowering.run .result lower p c).program.declare
        Intrinsics.measureInto [.qubit, .result] .void := by
  simp only [run]
  split
  · exact .inr rfl
  · exact .inl rfl

theorem run_context (p : Program) (c : Context) :
    (run p c).context = (Lowering.run .result lower p c).context := by
  simp only [run]
  split <;> rfl

/-- The declaration is no definition. -/
theorem definitions_run (p : Program) (c : Context) :
    (run p c).program.definitions = (Lowering.run .result lower p c).program.definitions := by
  rcases run_program p c with h | h
  · rw [h]
  · rw [h, Program.definitions_declare]

end ResultLowering

end QuantumLowering
