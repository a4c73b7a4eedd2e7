import QuantumLowering.Proofs.Demand.Lowering
import QuantumLowering.Proofs.Lowering.Qubits
import QuantumLowering.Proofs.Lowering.Results
/-!
# Lowering draws what a program asks for

Lowering qubits binds the values of acquisitions and of whatever names
qubits, lowering results those of measurements and of whatever names
results. Each serves its instructions, so a run draws exactly what the
program asks for.
-/


namespace QuantumLowering

open Lowering

/-! ## Lowering qubits -/

namespace QubitLowering

variable {honored : Bool} {policy : ReusePolicy} {i : Instruction} {s s' : Stock} {d : Decision}

/-- What an instruction of a role asks for. -/
def Role.demand? : Role → Option (ValueId × ℕ)
  | acquire v => some (v, 1)
  | acquireArray v size => size.map fun n => (v, n)
  | project _ _ | release _ | copy _ _ | phi _ _ | other => none

/-- The value that lowering binds at an instruction of a role. -/
def Role.value? : Role → Option ValueId
  | acquire v | acquireArray v _ | project v _ | copy v _ | phi v _ => some v
  | release _ | other => none

/-- The value that lowering binds at an instruction. -/
def binds? (i : Instruction) : Option ValueId := (role i).value?

theorem demand?_role (i : Instruction) : i.demand? .qubit = (role i).demand? := by
  obtain ⟨result, ty, operation⟩ := i
  cases operation with
  | call callee args =>
    cases result with
    | some v =>
      simp only [Instruction.demand?, role, valueCallRole]
      split
      · rfl
      split
      · rfl
      split <;> rfl
    | none =>
      simp only [Instruction.demand?, role, plainCallRole]
      split
      · cases args <;> rfl
      · rfl
  | _ =>
    cases result with
    | none => rfl
    | some v =>
      simp only [Instruction.demand?, role]
      split <;> rfl

/-- What is bound is the value that the instruction computes. -/
theorem result_of_binds {v : ValueId} (h : binds? i = some v) : i.result = some v := by
  obtain ⟨result, ty, operation⟩ := i
  cases result with
  | none =>
    cases operation with
    | call callee args =>
      simp only [binds?, role, plainCallRole] at h
      split at h
      · cases args <;> cases h
      · cases h
    | _ => cases h
  | some u =>
    cases operation with
    | call callee args =>
      simp only [binds?, role, valueCallRole] at h
      split at h
      · exact h
      split at h
      · exact h
      split at h
      · exact h
      · cases h
    | _ =>
      simp only [binds?, role] at h
      split at h
      · exact h
      · cases h

theorem binds_of_demand {d : ValueId × ℕ} (h : i.demand? .qubit = some d) :
    binds? i = some d.1 := by
  rw [demand?_role] at h
  unfold binds?
  cases hr : role i with
  | acquire v =>
    rw [hr] at h
    cases h
    rfl
  | acquireArray v size =>
    rw [hr] at h
    obtain ⟨n, -, rfl⟩ := Option.map_eq_some_iff.1 h
    rfl
  | _ =>
    rw [hr] at h
    cases h

/-- A role with other operands. -/
def Role.mapOperands (σ : Operand → Operand) : Role → Role
  | acquire v => acquire v
  | acquireArray v size => acquireArray v size
  | project v element => project v (element.map fun e => (σ e.1, e.2))
  | release target => release (σ target)
  | copy v source => copy v (σ source)
  | phi v sources => phi v (sources.map σ)
  | other => other

section MapOperands

variable {σ : Operand → Operand} (hσ : ∀ o, constant? (σ o) = constant? o)

include hσ

theorem element?_map (args : List Operand) :
    element? (args.map σ) = (element? args).map fun e => (σ e.1, e.2) := by
  match args with
  | [] | [_] => rfl
  | array :: index :: args =>
    simp only [List.map_cons, element?, hσ]
    cases constant? index <;> rfl

/-- **Where the numbers stay, the roles do.** -/
theorem role_mapOperands (i : Instruction) :
    role (i.mapOperands σ) = (role i).mapOperands σ := by
  obtain ⟨result, ty, operation⟩ := i
  cases operation with
  | call callee args =>
    cases result with
    | some v =>
      have size : (args.map σ).head?.bind constant? = args.head?.bind constant? := by
        cases args with
        | nil => rfl
        | cons a args => exact hσ a
      simp only [role, valueCallRole, Instruction.mapOperands, Operation.mapOperands, size,
        element?_map hσ]
      split
      · rfl
      split
      · rfl
      split <;> rfl
    | none =>
      simp only [role, plainCallRole, Instruction.mapOperands, Operation.mapOperands]
      cases args <;> split <;> rfl
  | _ =>
    cases result with
    | none => rfl
    | some v =>
      by_cases hty : carriesQubits ty <;>
        simp [role, Instruction.mapOperands, Operation.mapOperands, hty, Role.mapOperands,
          Function.comp_def]

theorem binds?_mapOperands (i : Instruction) : binds? (i.mapOperands σ) = binds? i := by
  rw [binds?, binds?, role_mapOperands hσ]
  cases role i <;> rfl

theorem demand?_mapOperands (i : Instruction) :
    (i.mapOperands σ).demand? .qubit = i.demand? .qubit := by
  rw [demand?_role, demand?_role, role_mapOperands hσ]
  cases role i <;> rfl

end MapOperands

/-- Numbers stay where nothing put in is a number. -/
theorem constant?_substitute_of {resolve : ValueId → Option Operand}
    (h : ∀ v o, resolve v = some o → constant? o = none) (op : Operand) :
    constant? (op.substitute resolve) = constant? op := by
  cases op with
  | value v =>
    rw [Operand.substitute_value]
    cases ha : resolve v with
    | none => rfl
    | some a => exact h v a ha
  | _ => rfl

/-- **No address is a number.** -/
theorem constant?_substitute {t : Tracker} (op : Operand) :
    constant? (op.substitute (address? t)) = constant? op := by
  refine constant?_substitute_of (fun v a ha => ?_) op
  obtain ⟨r, -, hr⟩ := Option.bind_eq_some_iff.1 ha
  unfold Resource.operand? at hr
  split at hr
  · cases hr
  · cases hr
    cases r.kind <;> rfl

/-- **A step draws what its instruction asks for**, and gives back what that releases if
releases count. -/
theorem effect_judge (honored : Bool) (s : Stock) (i : Instruction) :
    s.Effect .qubit
      (fun r => honored = true ∧ ∃ target, role i = .release target ∧
        s.tracker.resolveAs? .qubit target = some r)
      (i.demand? .qubit) (binds? i) (judge honored s i) := by
  rw [demand?_role, binds?, judge]
  cases role i with
  | acquire v => exact .acquire _
  | acquireArray v size =>
    cases size with
    | some n => exact .acquireBlock _
    | none => exact .derive _
  | project v element => exact .derive _
  | release target =>
    simp only [judgeRole]
    cases hr : s.tracker.resolveAs? .qubit target with
    | none => exact .still _
    | some r =>
      cases honored with
      | false => exact .still _
      | true => exact .release _ ⟨rfl, target, rfl, hr⟩
  | copy v source => exact .derive _
  | phi v sources => exact .derive _
  | other => exact .still _

/-- A step binds no other value, whatever comes of it. -/
theorem resolve?_judge {u : ValueId} (hu : binds? i ≠ some u) :
    (judge honored s i).1.tracker.resolve? u = s.tracker.resolve? u :=
  (effect_judge honored s i).frame hu

/-- **A step serves its instruction**, where releases count only with reuse. -/
theorem serves_judge (honors : honored = true → policy = .reuse) :
    Serves .qubit policy binds? (judge honored) :=
  .of_effect (fun _ _ => binds_of_demand) (effect_judge honored)
    fun _ _ _ hp ⟨counts, _, _, hr⟩ =>
      ⟨hp.trans (honors counts), (Tracker.resolveAs?_eq_some_iff.1 hr).2⟩

/-- A step that succeeds binds no other value. -/
theorem frames_binds (h : judge honored s i = (s', .ok d)) (u : ValueId)
    (hu : binds? i ≠ some u) : s'.tracker.resolve? u = s.tracker.resolve? u := by
  have frame : (judge honored s i).1.tracker.resolve? u = s.tracker.resolve? u := resolve?_judge hu
  rwa [h] at frame

/-- Releases count only with reuse. -/
theorem policy_of_honors {sole : Bool} {pool : Pool} {f : Function} (h : honors sole pool f) :
    pool.policy = .reuse := by
  simp only [honors, Pool.reuses, Bool.and_eq_true, decide_eq_true_eq] at h
  exact h.1.1.1

theorem serves_lower (sole : Bool) : Sweeps.Serves .qubit binds? (lower sole) :=
  sweeps_serves (fun pool f => judge (honors sole pool f)) (fun _ _ => result_of_binds)
    (fun _ _ => binds_of_demand) (fun _ _ => serves_judge policy_of_honors) (lower_stock sole)
    (lower_failure sole)

variable {p : Program} {c : Context}

/-- **Lowering the qubits of a program draws what it asks for.** -/
theorem spends_run (nodup : (p.definitions.flatMap Function.definedValues).Nodup)
    (new : ∀ v, c.tracker.resolve? v = none) :
    c.qubits.Spends .qubit (total (p.demands .qubit)) (run p c).context.qubits
      (run p c).failure := by
  rw [run_context, run_failure]
  exact (serves_lower _).spends_run nodup fun v _ => new v

/-- **What every step keeps, lowering the qubits of a program keeps**, even if it
fails. -/
theorem invariant_run {P : Stock → Prop} (hs : P (c.stock .qubit))
    (nodup : (p.definitions.flatMap Function.definedValues).Nodup)
    (new : ∀ v, c.tracker.resolve? v = none)
    (hstep : ∀ f ∈ p.definitions, ∀ i ∈ f.instructions, ∀ honored s, P s →
      (∀ v, binds? i = some v → s.tracker.resolve? v = none) → P (judge honored s i).1) :
    P ((run p c).context.stock .qubit) := by
  rw [run_context]
  refine (serves_lower _).invariant_run hs nodup (fun v _ => new v) fun f hf s hs inside new => ?_
  have perm := Function.gather_visited binds? f
  rw [lower_stock]
  exact (serves_judge policy_of_honors).invariant_decideAll hs (perm.nodup_iff.2 inside)
    (fun v hv => new v (perm.mem_iff.1 hv)) fun e he =>
      hstep f hf e.2 (Function.mem_instructions.2 ⟨e.1, Function.mem_visited.1 he⟩) _

/-- **Without reuse it gives the first handles to what the program asks
for.** -/
theorem partitions_run (hp : c.qubits.policy = .noReuse) (fresh : c.qubits.highWater = 0)
    (nodup : (p.definitions.flatMap Function.definedValues).Nodup)
    (new : ∀ v, c.tracker.resolve? v = none) (h : (run p c).failure = none) :
    (run p c).context.tracker.Partitions .qubit (total (p.demands .qubit))
      (p.demands .qubit) := by
  rw [run_failure] at h
  rw [run_context]
  exact (serves_lower _).partitions_run hp fresh nodup (fun v _ => new v) h

end QubitLowering

/-! ## Lowering results -/

namespace ResultLowering

variable {i : Instruction} {s s' : Stock} {d : Decision}

/-- What an instruction of a role asks for. -/
def Role.demand? : Role → Option (ValueId × ℕ)
  | measure v _ => some (v, 1)
  | copy _ _ | phi _ _ | other => none

/-- The value that lowering binds at an instruction of a role. -/
def Role.value? : Role → Option ValueId
  | measure v _ | copy v _ | phi v _ => some v
  | other => none

/-- The value that lowering binds at an instruction. -/
def binds? (i : Instruction) : Option ValueId := (role i).value?

/-- Lowering looks at instructions that compute results. -/
theorem role_of_type_ne {result : Option ValueId} {ty : Ty} {operation : Operation}
    (hty : ty ≠ .result) : role ⟨result, ty, operation⟩ = .other := by
  cases ty <;> first | rfl | exact absurd rfl hty

theorem demand?_role (i : Instruction) : i.demand? .result = (role i).demand? := by
  obtain ⟨result, ty, operation⟩ := i
  cases result with
  | none => cases ty <;> rfl
  | some v =>
    by_cases hty : ty = .result
    · subst hty
      match operation with
      | .call callee [qubit] =>
        simp only [Instruction.demand?, role, operationRole]
        split <;> rfl
      | .call _ [] => rfl
      | .call _ (_ :: _ :: _) => rfl
      | .copy _ => rfl
      | .phi _ => rfl
    · rw [role_of_type_ne hty]
      cases ty <;> first | rfl | exact absurd rfl hty

/-- The instructions at which lowering binds a value. -/
theorem exists_of_binds {v : ValueId} (h : binds? i = some v) :
    ∃ operation, i = ⟨some v, .result, operation⟩ ∧
      ((∃ qubit, operation = .call Intrinsics.measure [qubit]) ∨
        (∃ source, operation = .copy source) ∨ ∃ incoming, operation = .phi incoming) := by
  obtain ⟨result, ty, operation⟩ := i
  unfold binds? at h
  by_cases hty : ty = .result
  · subst hty
    cases result with
    | none => cases h
    | some u =>
      match operation with
      | .call callee [qubit] =>
        simp only [role, operationRole] at h
        split at h
        · rename_i hc
          obtain rfl : u = v := Option.some.inj h
          exact ⟨_, rfl, .inl ⟨qubit, by rw [hc]⟩⟩
        · cases h
      | .copy source =>
        obtain rfl : u = v := Option.some.inj h
        exact ⟨_, rfl, .inr (.inl ⟨source, rfl⟩)⟩
      | .phi incoming =>
        obtain rfl : u = v := Option.some.inj h
        exact ⟨_, rfl, .inr (.inr ⟨incoming, rfl⟩)⟩
  · rw [role_of_type_ne hty] at h
    cases h

/-- What is bound is the value that the instruction computes. -/
theorem result_of_binds {v : ValueId} (h : binds? i = some v) : i.result = some v := by
  obtain ⟨operation, rfl, -⟩ := exists_of_binds h
  rfl

/-- Such an instruction means nothing for qubits. -/
theorem role_of_binds {v : ValueId} (h : binds? i = some v) : QubitLowering.role i = .other := by
  obtain ⟨operation, rfl, ⟨qubit, rfl⟩ | ⟨source, rfl⟩ | ⟨incoming, rfl⟩⟩ := exists_of_binds h
  · rfl
  · rfl
  · rfl

/-- A role with other operands. -/
def Role.mapOperands (σ : Operand → Operand) : Role → Role
  | measure v qubit => measure v (σ qubit)
  | copy v source => copy v (σ source)
  | phi v sources => phi v (sources.map σ)
  | other => other

theorem role_mapOperands (σ : Operand → Operand) (i : Instruction) :
    role (i.mapOperands σ) = (role i).mapOperands σ := by
  obtain ⟨result, ty, operation⟩ := i
  by_cases hty : ty = .result
  · subst hty
    cases result with
    | none => rfl
    | some v =>
      match operation with
      | .call callee [qubit] =>
        simp only [Instruction.mapOperands, Operation.mapOperands, List.map_cons, List.map_nil,
          role, operationRole]
        split <;> rfl
      | .call _ [] => rfl
      | .call _ (_ :: _ :: _) => rfl
      | .copy _ => rfl
      | .phi incoming =>
        simp [role, operationRole, Instruction.mapOperands, Operation.mapOperands,
          Role.mapOperands, Function.comp_def]
  · rw [role_of_type_ne hty, Instruction.mapOperands, role_of_type_ne hty]
    rfl

/-- What operands there are is no matter. -/
theorem binds?_mapOperands (σ : Operand → Operand) (i : Instruction) :
    binds? (i.mapOperands σ) = binds? i := by
  rw [binds?, binds?, role_mapOperands]
  cases role i <;> rfl

theorem demand?_mapOperands (σ : Operand → Operand) (i : Instruction) :
    (i.mapOperands σ).demand? .result = i.demand? .result := by
  rw [demand?_role, demand?_role, role_mapOperands]
  cases role i <;> rfl

theorem binds_of_demand {d : ValueId × ℕ} (h : i.demand? .result = some d) :
    binds? i = some d.1 := by
  rw [demand?_role] at h
  unfold binds?
  cases hr : role i with
  | measure v qubit =>
    rw [hr] at h
    cases h
    rfl
  | _ =>
    rw [hr] at h
    cases h

/-- **A step draws what its instruction asks for**, and gives nothing back. -/
theorem effect_judge (s : Stock) (i : Instruction) :
    s.Effect .result (fun _ => False) (i.demand? .result) (binds? i) (judge s i) := by
  rw [demand?_role, binds?, judge]
  cases role i with
  | measure v qubit => exact .acquire _
  | copy v source => exact .derive _
  | phi v sources => exact .derive _
  | other => exact .still _

/-- A step binds no other value, whatever comes of it. -/
theorem resolve?_judge {u : ValueId} (hu : binds? i ≠ some u) :
    (judge s i).1.tracker.resolve? u = s.tracker.resolve? u :=
  (effect_judge s i).frame hu

/-- **A step serves its instruction.** -/
theorem serves_judge (policy : ReusePolicy) : Serves .result policy binds? judge :=
  .of_effect (fun _ _ => binds_of_demand) effect_judge fun _ _ _ _ given => given.elim

theorem serves_lower : Sweeps.Serves .result binds? lower :=
  sweeps_serves (fun _ _ => judge) (fun _ _ => result_of_binds) (fun _ _ => binds_of_demand)
    (fun pool _ => serves_judge pool.policy) lower_stock lower_failure

variable {p : Program} {c : Context}

/-- **Lowering the results of a program draws what it asks for**, where nothing
is known of the values that it binds. -/
theorem spends_run (nodup : (p.definitions.flatMap Function.definedValues).Nodup)
    (new : ∀ v ∈ p.gather binds?, c.tracker.resolve? v = none) :
    c.results.Spends .result (total (p.demands .result)) (run p c).context.results
      (run p c).failure := by
  rw [run_context, run_failure]
  exact serves_lower.spends_run nodup new

/-- **What every step keeps, lowering the results of a program keeps**, even if
it fails. -/
theorem invariant_run {P : Stock → Prop} (hs : P (c.stock .result))
    (nodup : (p.definitions.flatMap Function.definedValues).Nodup)
    (new : ∀ v ∈ p.gather binds?, c.tracker.resolve? v = none)
    (hstep : ∀ f ∈ p.definitions, ∀ i ∈ f.instructions, ∀ s, P s →
      (∀ v, binds? i = some v → s.tracker.resolve? v = none) → P (judge s i).1) :
    P ((run p c).context.stock .result) := by
  rw [run_context]
  refine serves_lower.invariant_run hs nodup new fun f hf s hs inside new => ?_
  have perm := Function.gather_visited binds? f
  rw [lower_stock]
  exact (serves_judge s.pool.policy).invariant_decideAll hs (perm.nodup_iff.2 inside)
    (fun v hv => new v (perm.mem_iff.1 hv)) fun e he =>
      hstep f hf e.2 (Function.mem_instructions.2 ⟨e.1, Function.mem_visited.1 he⟩)

/-- **Without reuse it gives the first handles to what the program asks
for.** -/
theorem partitions_run (hp : c.results.policy = .noReuse) (fresh : c.results.highWater = 0)
    (nodup : (p.definitions.flatMap Function.definedValues).Nodup)
    (new : ∀ v ∈ p.gather binds?, c.tracker.resolve? v = none) (h : (run p c).failure = none) :
    (run p c).context.tracker.Partitions .result (total (p.demands .result))
      (p.demands .result) := by
  rw [run_failure] at h
  rw [run_context]
  exact serves_lower.partitions_run hp fresh nodup new h

/-- What lowering does not bind stays as it is. -/
theorem frame_run (h : (run p c).failure = none) {u : ValueId} (hu : u ∉ p.gather binds?) :
    (run p c).context.tracker.resolve? u = c.tracker.resolve? u := by
  rw [run_failure] at h
  rw [run_context]
  exact serves_lower.frame_run h hu

end ResultLowering

end QuantumLowering
