import QuantumLowering.Lowering.Qubits
import QuantumLowering.Proofs.Lowering.Removal
/-!
# What lowering qubits does

`QubitLowering.Judges` lists what a step of the lowering of qubits can be,
and `QubitLowering.exists_lowered` says what lowering makes of a function:
the steps it took, and the function that the last step leaves.
-/


namespace QuantumLowering

namespace QubitLowering

/-! ## Steps -/

/-- The decision for a value that stands for what its operands stand for,
if that is known. -/
def derived (o : Option Resource) (otherwise : Decision) : Decision :=
  if o.isSome then .known else otherwise

@[simp] theorem derived_none (otherwise : Decision) : derived none otherwise = otherwise := rfl

theorem derived_of_isSome {o : Option Resource} (h : o.isSome) (otherwise : Decision) :
    derived o otherwise = .known := if_pos h

/-- **What a step can be**: an instruction, the stock after it and the
decision. -/
inductive Judges (honored : Bool) (s : Stock) : Instruction → Stock → Decision → Prop
  /-- A qubit is taken from the pool. -/
  | acquire {v : ValueId} {ty : Ty} {args : List Operand} {h : Handle} {s' : Stock} :
    s.pool.allocate = (s'.pool, .ok h) →
    s.tracker.Sets s'.tracker v (some (.single .qubit h)) →
      Judges honored s ⟨some v, ty, .call Intrinsics.acquireQubit args⟩ s' (.acquired v h)
  /-- A block of qubits is taken from the pool. -/
  | acquireArray {v : ValueId} {ty : Ty} {args : List Operand} {size : ℕ} {base : Handle}
      {s' : Stock} :
    args.head?.bind constant? = some size →
    s.pool.allocateBlock size = (s'.pool, .ok base) →
    s.tracker.Sets s'.tracker v (some (.block .qubit base size)) →
      Judges honored s ⟨some v, ty, .call Intrinsics.acquireArray args⟩ s'
        (.acquiredArray v base size)
  /-- The size of an array is not known. -/
  | unsized {v : ValueId} {ty : Ty} {args : List Operand} {s' : Stock} :
    args.head?.bind constant? = none → s'.pool = s.pool → s.tracker.Sets s'.tracker v none →
      Judges honored s ⟨some v, ty, .call Intrinsics.acquireArray args⟩ s' (.unsized v)
  /-- An element of an array is named. -/
  | project {v : ValueId} {ty : Ty} {args : List Operand} {s' : Stock} :
    s'.pool = s.pool →
    s.tracker.Sets s'.tracker v (elementOf? s.tracker (element? args)) →
      Judges honored s ⟨some v, ty, .call Intrinsics.arrayElement args⟩ s'
        (derived (elementOf? s.tracker (element? args)) .stays)
  /-- Known qubits are released, and given back if releases count. -/
  | release {ty : Ty} {callee : String} {target : Operand} {args : List Operand} {r : Resource}
      {s' : Stock} :
    callee = Intrinsics.releaseQubit ∨ callee = Intrinsics.releaseArray →
    s.tracker.resolveAs? .qubit target = some r → s'.tracker = s.tracker →
    (honored = true → s.pool.releaseBlock r.handle r.count = (s'.pool, .ok ())) →
    (honored = false → s'.pool = s.pool) →
      Judges honored s ⟨none, ty, .call callee (target :: args)⟩ s' (.released r)
  /-- It is not known what is released. -/
  | unresolved {ty : Ty} {callee : String} {target : Operand} {args : List Operand} :
    callee = Intrinsics.releaseQubit ∨ callee = Intrinsics.releaseArray →
    s.tracker.resolveAs? .qubit target = none →
      Judges honored s ⟨none, ty, .call callee (target :: args)⟩ s .stays
  /-- A value is copied. -/
  | copy {v : ValueId} {ty : Ty} {source : Operand} {s' : Stock} :
    carriesQubits ty → s'.pool = s.pool →
    s.tracker.Sets s'.tracker v (s.tracker.resolveAs? .qubit source) →
      Judges honored s ⟨some v, ty, .copy source⟩ s'
        (derived (s.tracker.resolveAs? .qubit source) .stays)
  /-- Values are joined. -/
  | phi {v : ValueId} {ty : Ty} {incoming : List (BlockId × Operand)} {s' : Stock} :
    carriesQubits ty → s'.pool = s.pool →
    s.tracker.Sets s'.tracker v (s.tracker.joinAs? .qubit (incoming.map Prod.snd)) →
      Judges honored s ⟨some v, ty, .phi incoming⟩ s'
        (derived (s.tracker.joinAs? .qubit (incoming.map Prod.snd)) (.divergent v))
  /-- The instruction means nothing for qubits. -/
  | other {i : Instruction} : role i = .other → Judges honored s i s .stays

variable {honored : Bool} {s s' : Stock} {i : Instruction} {d : Decision}

/-- A call that does not manage qubits at most projects. -/
theorem role_of_call {result : Option ValueId} {ty : Ty} {callee : String} {args : List Operand}
    (h : Intrinsics.isQubitManagement callee = false) :
    role ⟨result, ty, .call callee args⟩ =
      match result with
      | none => .other
      | some v =>
        if callee = Intrinsics.arrayElement then .project v (element? args) else .other := by
  have hne (name : String) (hn : Intrinsics.isQubitManagement name) : callee ≠ name := by
    rintro rfl
    rw [hn] at h
    cases h
  have hq := hne _ (by decide : Intrinsics.isQubitManagement Intrinsics.acquireQubit)
  have ha := hne _ (by decide : Intrinsics.isQubitManagement Intrinsics.acquireArray)
  have hr := hne _ (by decide : Intrinsics.isQubitManagement Intrinsics.releaseQubit)
  have hra := hne _ (by decide : Intrinsics.isQubitManagement Intrinsics.releaseArray)
  cases result with
  | none => simp [role, plainCallRole, hr, hra]
  | some v => simp only [role, valueCallRole, hq, ha, if_false]

/-- A call of anything else means nothing for qubits. -/
theorem role_of_isCallTo {name : String} (manages : Intrinsics.isQubitManagement name = false)
    (projects : name ≠ Intrinsics.arrayElement) {i : Instruction} (h : i.isCallTo name) :
    role i = .other := by
  obtain ⟨result, ty, operation⟩ := i
  cases operation with
  | call callee args =>
    obtain rfl : callee = name := by
      simpa [Instruction.isCallTo, Instruction.callee?] using h
    rw [role_of_call manages]
    cases result with
    | none => rfl
    | some v => exact if_neg projects
  | _ => cases h

/-- An element of a block is no block. -/
theorem isBlock_of_elementOf? {t : Tracker} {element : Option (Operand × ℕ)} {r : Resource}
    (h : elementOf? t element = some r) : r.isBlock = false := by
  rcases element with - | ⟨array, index⟩
  · cases h
  · obtain ⟨block, -, hr⟩ := Option.bind_eq_some_iff.1 h
    obtain ⟨-, rfl⟩ := Resource.element?_eq_some_iff.1 hr
    rfl

theorem judges_of_derive {v : ValueId} {o : Option Resource} {otherwise : Decision}
    (h : (s.derive v o).map (fun found => if found then .known else otherwise) =
      (s', .ok d)) :
    s'.pool = s.pool ∧ s.tracker.Sets s'.tracker v o ∧ d = derived o otherwise := by
  obtain ⟨found, hd, rfl⟩ := Draw.map_eq_ok h
  obtain ⟨hp, ht, rfl⟩ := Stock.derive_eq_ok hd
  exact ⟨hp, ht, rfl⟩

theorem judges_valueCall {v : ValueId} {ty : Ty} {callee : String} {args : List Operand}
    (h : judgeRole honored s (valueCallRole v callee args) = (s', .ok d)) :
    Judges honored s ⟨some v, ty, .call callee args⟩ s' d := by
  by_cases hq : callee = Intrinsics.acquireQubit
  · subst hq
    rw [valueCallRole, if_pos rfl] at h
    obtain ⟨a, ha, rfl⟩ := Draw.map_eq_ok h
    obtain ⟨hp, ht⟩ := Stock.acquire_eq_ok ha
    exact .acquire hp ht
  by_cases harr : callee = Intrinsics.acquireArray
  · subst harr
    rw [valueCallRole, if_neg hq, if_pos rfl] at h
    cases hsize : args.head?.bind constant? with
    | some size =>
      rw [hsize] at h
      obtain ⟨a, ha, rfl⟩ := Draw.map_eq_ok h
      obtain ⟨hp, ht⟩ := Stock.acquireBlock_eq_ok ha
      exact .acquireArray hsize hp ht
    | none =>
      rw [hsize] at h
      obtain ⟨a, ha, rfl⟩ := Draw.map_eq_ok h
      obtain ⟨hp, ht, -⟩ := Stock.derive_eq_ok ha
      exact .unsized hsize hp ht
  by_cases helem : callee = Intrinsics.arrayElement
  · subst helem
    rw [valueCallRole, if_neg hq, if_neg harr, if_pos rfl] at h
    obtain ⟨hp, ht, rfl⟩ := judges_of_derive h
    exact .project hp ht
  have hrole : valueCallRole v callee args = .other := by
    rw [valueCallRole, if_neg hq, if_neg harr, if_neg helem]
  rw [hrole] at h
  cases h
  exact .other hrole

theorem judges_plainCall {ty : Ty} {callee : String} {args : List Operand}
    (h : judgeRole honored s (plainCallRole callee args) = (s', .ok d)) :
    Judges honored s ⟨none, ty, .call callee args⟩ s' d := by
  by_cases hc : callee = Intrinsics.releaseQubit ∨ callee = Intrinsics.releaseArray
  · cases args with
    | nil =>
      have hrole : plainCallRole callee [] = .other := by simp [plainCallRole]
      rw [hrole] at h
      cases h
      exact .other hrole
    | cons target args =>
      rw [plainCallRole, if_pos hc] at h
      simp only [judgeRole] at h
      cases hr : s.tracker.resolveAs? .qubit target with
      | none =>
        simp only [hr] at h
        cases h
        exact .unresolved hc hr
      | some r =>
        cases honored with
        | false =>
          simp only [hr, Bool.false_eq_true, if_false] at h
          cases h
          exact .release hc hr rfl (by simp) fun _ => rfl
        | true =>
          simp only [hr, if_true] at h
          obtain ⟨a, ha, rfl⟩ := Draw.map_eq_ok h
          obtain ⟨ht, hp⟩ := Stock.release_eq_ok ha
          exact .release hc hr ht (fun _ => hp) (by simp)
  · have hrole : plainCallRole callee args = .other := by
      unfold plainCallRole
      rw [if_neg hc]
    rw [hrole] at h
    cases h
    exact .other hrole

/-- **Every step is one of those.** -/
theorem judges_of_judge (h : judge honored s i = (s', .ok d)) : Judges honored s i s' d := by
  unfold judge at h
  by_cases hother : role i = .other
  · rw [hother] at h
    cases h
    exact .other hother
  obtain ⟨result, ty, operation⟩ := i
  cases operation with
  | call callee args =>
    cases result with
    | some v => exact judges_valueCall h
    | none => exact judges_plainCall h
  | copy source =>
    cases result with
    | none => exact absurd rfl hother
    | some v =>
      by_cases hty : carriesQubits ty
      · simp only [role, hty, if_true] at h
        obtain ⟨hp, ht, rfl⟩ := judges_of_derive h
        exact .copy hty hp ht
      · exact absurd (by simp [role, hty]) hother
  | phi incoming =>
    cases result with
    | none => exact absurd rfl hother
    | some v =>
      by_cases hty : carriesQubits ty
      · simp only [role, hty, if_true] at h
        obtain ⟨hp, ht, rfl⟩ := judges_of_derive h
        exact .phi hty hp ht
      · exact absurd (by simp [role, hty]) hother

/-- A step sets at most the value that its instruction computes. -/
theorem frames_judge : Lowering.Decides.Frames (judge honored) := by
  intro s i s' d h u hu
  cases judges_of_judge h with
  | acquire _ ht => exact ht.other fun e => hu (congrArg some e.symm)
  | acquireArray _ _ ht => exact ht.other fun e => hu (congrArg some e.symm)
  | unsized _ _ ht => exact ht.other fun e => hu (congrArg some e.symm)
  | project _ ht => exact ht.other fun e => hu (congrArg some e.symm)
  | release _ _ ht => rw [ht]
  | unresolved => rfl
  | copy _ _ ht => exact ht.other fun e => hu (congrArg some e.symm)
  | phi _ _ ht => exact ht.other fun e => hu (congrArg some e.symm)
  | other => rfl

/-! ## Functions -/

/-- What stands in place of a value is an address. -/
theorem address?_isConstant {t : Tracker} {v : ValueId} {o : Operand}
    (h : address? t v = some o) : o.isConstant := by
  obtain ⟨r, -, hr⟩ := Option.bind_eq_some_iff.1 h
  exact Resource.operand?_isConstant hr

/-- A value that stands for one qubit has its address. -/
theorem address?_of_single {t : Tracker} {v : ValueId} {h : Handle}
    (hv : t.resolve? v = some (.single .qubit h)) : address? t v = some (.qubit h) := by
  rw [address?, hv]
  rfl

/-- A value of which nothing is known has no address. -/
theorem address?_of_none {t : Tracker} {v : ValueId} (hv : t.resolve? v = none) :
    address? t v = none := by
  rw [address?, hv]
  rfl

theorem lower_failure (sole : Bool) (s : Stock) (f : Function) :
    (lower sole s f).failure = (plan sole s f).failure := by
  unfold lower
  cases h : (plan sole s f).failure <;> simp [h]

theorem lower_stock (sole : Bool) (s : Stock) (f : Function) :
    (lower sole s f).stock = (plan sole s f).stock := by
  unfold lower
  cases h : (plan sole s f).failure <;> simp [h]

/-- Lowering ends with the last step for what was decided. -/
theorem lower_function {sole : Bool} {f : Function} (h : (plan sole s f).failure = none) :
    (lower sole s f).function =
      (f.substitute (address? (plan sole s f).stock.tracker)).removeUnused
        (((plan sole s f).decisions.filter fun d => d.2.isDroppable).map Prod.fst) := by
  simp only [lower, h, Lowering.finish]

/-- **What lowering makes of a function**, where it does not fail. -/
theorem exists_lowered {sole : Bool} {f : Function} (h : (lower sole s f).failure = none) :
    ∃ ds gone, Lowering.Decides (judge (honors sole s.pool f)) s f.visited ds
        (lower sole s f).stock ∧
      Lowering.Finished (address? (lower sole s f).stock.tracker) Prod.snd
        ((ds.filter fun d => d.2.isDroppable).map Prod.fst) f (lower sole s f).function gone := by
  unfold lower at h ⊢
  cases hf : (plan sole s f).failure with
  | some e => simp [hf] at h
  | none =>
    simp only [hf]
    obtain ⟨gone, hgone⟩ := Lowering.exists_finished
      (fun v o => address?_isConstant (t := (plan sole s f).stock.tracker))
      (((plan sole s f).decisions.filter fun d => d.2.isDroppable).map Prod.fst)
      (Function.rewrite_id (f := f)).symm
    exact ⟨_, gone, Lowering.decides_decideAll hf, hgone⟩

/-- Lowering a function leaves the values of others alone. -/
theorem frames_lower {sole : Bool} : Lowering.Sweeps.Frames (lower sole) := by
  intro s f h u hu
  obtain ⟨ds, gone, decides, -⟩ := exists_lowered h
  exact decides.frame_visited frames_judge fun e he heu =>
    hu (Function.result_mem_definedValues he heu)

theorem isDeclaration_lower {sole : Bool} {f : Function} (h : (lower sole s f).failure = none) :
    (lower sole s f).function.isDeclaration = f.isDeclaration := by
  obtain ⟨ds, gone, -, finished⟩ := exists_lowered h
  exact finished.isDeclaration

theorem name_lower {sole : Bool} {f : Function} (h : (lower sole s f).failure = none) :
    (lower sole s f).function.name = f.name := by
  obtain ⟨ds, gone, -, finished⟩ := exists_lowered h
  exact finished.name

/-! ## Programs -/

theorem run_program (p : Program) (c : Context) :
    (run p c).program = (Lowering.run .qubit (lower (managers p ≤ 1)) p c).program := by
  unfold run
  split <;> rfl

theorem run_context (p : Program) (c : Context) :
    (run p c).context = (Lowering.run .qubit (lower (managers p ≤ 1)) p c).context := by
  unfold run
  split <;> rfl

theorem run_failure (p : Program) (c : Context) :
    (run p c).failure = (Lowering.run .qubit (lower (managers p ≤ 1)) p c).failure := by
  unfold run
  split <;> rfl

/-- Lowering a program of one definition is deciding its instructions. -/
theorem run_eq_plan {p : Program} {f : Function} (hf : p.functions = [f])
    (hd : f.isDeclaration = false) (c : Context) :
    (run p c).failure = (plan (managers p ≤ 1) (c.stock .qubit) f).failure ∧
      (run p c).context =
        c.withStock .qubit (plan (managers p ≤ 1) (c.stock .qubit) f).stock := by
  rw [run_failure, run_context]
  simp only [Lowering.run, hf, Lowering.sweep, hd, Bool.false_eq_true, if_false, lower_failure,
    lower_stock]
  cases (plan (managers p ≤ 1) (c.stock .qubit) f).failure <;> exact ⟨rfl, rfl⟩

/-- If that does not fail, what is left of the definition is left of the program. -/
theorem functions_run_eq_lower {p : Program} {f : Function} (hf : p.functions = [f])
    (hd : f.isDeclaration = false) {c : Context}
    (h : (plan (managers p ≤ 1) (c.stock .qubit) f).failure = none) :
    (run p c).program.functions = [(lower (managers p ≤ 1) (c.stock .qubit) f).function] := by
  rw [run_program]
  simp only [Lowering.run, hf, Lowering.sweep, hd, Bool.false_eq_true, if_false, lower_failure, h]

theorem tracker_run_eq_plan {p : Program} {f : Function} (hf : p.functions = [f])
    (hd : f.isDeclaration = false) (c : Context) :
    (run p c).context.tracker = (plan (managers p ≤ 1) (c.stock .qubit) f).stock.tracker := by
  rw [(run_eq_plan hf hd c).2]
  rfl

end QubitLowering

end QuantumLowering
