import QuantumLowering.Proofs.Demand.Steps
import QuantumLowering.Proofs.Execution.Lowering
import QuantumLowering.Proofs.Pass.Transparency
/-!
# What a pass does where it is not needed

A schedule skips the lowering of qubits where nothing manages qubits, and
that of results where nothing measures. Run all the same, it draws on no
pool and does not fail, since it only derives values from their operands.
It changes the program exactly where an instruction restates a static
address (`Instruction.Restates`): the first value that becomes known can
only be one of these.
-/


namespace QuantumLowering

/-- Whether values of a type name resources of a kind. -/
def ResourceKind.carries : ResourceKind → Ty → Bool
  | qubit, ty => QubitLowering.carriesQubits ty
  | result, ty => ty = .result

/-- **An instruction restates an address**: it copies a static address or
joins it with itself. -/
structure Instruction.Restates (kind : ResourceKind) (i : Instruction) (v : ValueId)
    (h : Handle) : Prop where
  /-- It computes the value. -/
  result : i.result = some v
  /-- The value is for a resource of the kind. -/
  carried : kind.carries i.type
  /-- It is no call. -/
  moves : i.callee? = none
  /-- It has an operand. -/
  nonempty : i.operands ≠ []
  /-- All of its operands are the address. -/
  operands : ∀ o ∈ i.operands, o = kind.operand h

/-- The pass that gives addresses to the resources of a kind. -/
def Pass.lowering : ResourceKind → Pass
  | .qubit => .qubitLowering
  | .result => .resultLowering

/-! ## Addresses and empty tables -/

namespace Tracker

variable {t : Tracker} {kind : ResourceKind} {r : Resource}

/-- An address stands for itself. -/
theorem resolveAs?_operand (t : Tracker) (kind : ResourceKind) (h : Handle) :
    t.resolveAs? kind (kind.operand h) = some (.single kind h) := by
  cases kind <;> rfl

/-- Where no value is known, nothing else stands for a resource. -/
theorem eq_operand_of_resolveAs? (new : ∀ v, t.resolve? v = none) {op : Operand}
    (h : t.resolveAs? kind op = some r) : op = kind.operand r.handle := by
  obtain ⟨ho, rfl⟩ := resolveAs?_eq_some_iff.1 h
  cases op with
  | value v =>
    rw [resolveOperand?_value, new v] at ho
    cases ho
  | qubit a =>
    cases ho
    rfl
  | result a =>
    cases ho
    rfl
  | _ => cases ho

/-- **An instruction that restates an address stands for it**, whatever is
known. -/
theorem joinAs?_of_restates {i : Instruction} {v : ValueId} {h : Handle}
    (hi : i.Restates kind v h) : t.joinAs? kind i.operands = some (.single kind h) := by
  refine joinAs?_eq_some_iff.2 ⟨hi.nonempty, fun o ho => ?_⟩
  rw [hi.operands o ho, resolveAs?_operand]

/-- And where nothing is known, no other copy or phi stands for anything. -/
theorem joinAs?_eq_none (new : ∀ v, t.resolve? v = none) {i : Instruction} {v : ValueId}
    (hno : ∀ h, ¬ i.Restates kind v h) (hv : i.result = some v) (carried : kind.carries i.type)
    (moves : i.callee? = none) : t.joinAs? kind i.operands = none := by
  refine Option.eq_none_iff_forall_ne_some.2 fun r hr => ?_
  obtain ⟨hne, hops⟩ := joinAs?_eq_some_iff.1 hr
  exact hno r.handle ⟨hv, carried, moves, hne, fun o ho => eq_operand_of_resolveAs? new (hops o ho)⟩

/-- A value of which nothing is found stays unknown with all others. -/
theorem Sets.unknown {t' : Tracker} {v : ValueId} {o : Option Resource} (ht : t.Sets t' v o)
    (new : ∀ v, t.resolve? v = none) (ho : o = none) (u : ValueId) : t'.resolve? u = none := by
  rw [ht u, ho, new u, ite_self]

end Tracker

/-- A value not looked at before can be derived from anything. -/
theorem Stock.exists_derive {s : Stock} {v : ValueId} (new : s.tracker.resolve? v = none)
    (o : Option Resource) : ∃ s', s.derive v o = (s', .ok o.isSome) ∧ s'.pool = s.pool := by
  cases o with
  | none => exact ⟨_, rfl, rfl⟩
  | some r =>
    have bound : s.tracker.bind v (some r) = (s.tracker.associate v (.known r), .ok ()) := by
      simp [Tracker.bind, Tracker.assign, new]
    exact ⟨⟨s.pool, s.tracker.associate v (.known r)⟩, by simp only [Stock.derive, bound], rfl⟩

namespace Lowering

variable {α : Type} {kind : ResourceKind} {policy : ReusePolicy} {s s' : Stock}
variable {binds : Instruction → Option ValueId} {step : Stock → Instruction → Draw α}
variable {lower : Stock → Function → Lowered} {fs gs : List Function} {p : Program} {c : Context}

/-! ## Runs that draw nothing -/

/-- **Steps that only derive values end well**, and the pool stays. -/
theorem Serves.quiet_decideAll (serves : Serves kind policy binds step)
    {l : List (Site × Instruction)} (nodup : (l.filterMap fun e => binds e.2).Nodup)
    (new : ∀ v ∈ l.filterMap (fun e => binds e.2), s.tracker.resolve? v = none)
    (quiet : ∀ e ∈ l, ∀ s, (∀ v, binds e.2 = some v → s.tracker.resolve? v = none) →
      ∃ s' a, step s e.2 = (s', .ok a) ∧ s'.pool = s.pool) :
    (decideAll step s l).failure = none ∧ (decideAll step s l).stock.pool = s.pool := by
  induction l generalizing s with
  | nil => exact ⟨rfl, rfl⟩
  | cons e l ih =>
    obtain ⟨x, i⟩ := e
    obtain ⟨s', a, hs, hpool⟩ := quiet (x, i) List.mem_cons_self s fun v hv =>
      new v (List.mem_filterMap.2 ⟨(x, i), List.mem_cons_self, hv⟩)
    have nodup' := nodup.sublist ((List.sublist_cons_self (x, i) l).filterMap _)
    have rest := ih nodup' (serves.new_step hs nodup new) fun e he =>
      quiet e (List.mem_cons_of_mem _ he)
    simp only [decideAll, hs]
    exact ⟨rest.1, rest.2.trans hpool⟩

/-- So do functions. -/
theorem Sweeps.Serves.quiet_sweep (serves : Sweeps.Serves kind binds lower)
    (nodup : (gatherFrom binds fs).Nodup)
    (new : ∀ v ∈ gatherFrom binds fs, s.tracker.resolve? v = none)
    (quiet : ∀ f ∈ fs, ¬ f.isDeclaration → ∀ s, (f.gather binds).Nodup →
      (∀ v ∈ f.gather binds, s.tracker.resolve? v = none) →
        (lower s f).failure = none ∧ (lower s f).stock.pool = s.pool) :
    (sweep lower s fs).failure = none ∧ (sweep lower s fs).stock.pool = s.pool := by
  induction fs generalizing s with
  | nil => exact ⟨rfl, rfl⟩
  | cons f fs ih =>
    have quiet' := fun g hg => quiet g (List.mem_cons_of_mem f hg)
    unfold sweep
    by_cases hd : f.isDeclaration
    · rw [gatherFrom_cons_declaration hd] at nodup new
      rw [if_pos hd]
      exact ih nodup new quiet'
    · rw [gatherFrom_cons hd] at nodup new
      obtain ⟨inside, nodup', -⟩ := List.nodup_append.1 nodup
      obtain ⟨hl, hpool⟩ := quiet f List.mem_cons_self hd s inside
        fun v hv => new v (List.mem_append_left _ hv)
      have rest := ih nodup'
        (serves.new_lower hl nodup fun v hv => new v (List.mem_append_right _ hv)) quiet'
      rw [if_neg hd]
      simp only [hl]
      exact ⟨rest.1, rest.2.trans hpool⟩

/-! ## Runs that change nothing -/

/-- **Where an instruction went, a function is not what it was.** -/
theorem Finished.ne_of_gone {resolve : ValueId → Option Operand}
    {change : Site × Instruction → Instruction} {candidates gone : List Site} {f g : Function}
    (h : Finished resolve change candidates f g gone) {e : Site × Instruction}
    (he : e ∈ f.located) (hgone : e.1 ∈ gone) : g ≠ f := by
  intro heq
  have hlt : g.instructions.length < f.located.length := by
    rw [h.eq, Function.instructions_rewrite]
    exact List.length_filterMap_lt_length_iff_exists.2 ⟨e, he, by simp [hgone]⟩
  rw [heq, ← Function.map_snd_located, List.length_map] at hlt
  exact Nat.lt_irrefl _ hlt

/-- Where nothing is known and no decision picks its instruction, a
function stays. -/
theorem Finished.eq_of_unknown {resolve : ValueId → Option Operand}
    {candidates gone : List Site} {f g : Function}
    (h : Finished resolve Prod.snd candidates f g gone) (hc : candidates = [])
    (hr : ∀ v, resolve v = none) : g = f := by
  have hσ : Operand.substitute resolve = id := by
    funext o
    cases o <;> simp [Operand.substitute, Operand.value?, hr]
  have hgone : ∀ s, s ∉ gone := by
    intro s hs
    have := h.chosen s hs
    simp [hc] at this
  rw [h.eq, hσ]
  simp only [hgone, if_false, Instruction.mapOperands_id]
  exact Function.rewrite_id

/-- **A run changes nothing** if and only if it changes no definition. -/
theorem program_run_eq_iff {changes : Function → Prop}
    (new : ∀ v, c.tracker.resolve? v = none) (h : (run kind lower p c).failure = none)
    (keeps : ∀ f ∈ p.definitions, ¬ changes f → ∀ s, (∀ v, s.tracker.resolve? v = none) →
      (lower s f).failure = none →
        (lower s f).function = f ∧ ∀ v, (lower s f).stock.tracker.resolve? v = none)
    (breaks : ∀ f ∈ p.definitions, changes f → ∀ s, (lower s f).failure = none →
      (lower s f).function ≠ f) :
    (run kind lower p c).program = p ↔ ∀ f ∈ p.definitions, ¬ changes f := by
  have hfunctions : (run kind lower p c).program = p ↔
      (run kind lower p c).program.functions = p.functions :=
    ⟨congrArg Program.functions, fun heq => congrArg (fun fs => { p with functions := fs }) heq⟩
  obtain ⟨s', sweeps, -⟩ := sweeps_run h
  rw [hfunctions]
  constructor
  · intro heq
    have all := sweeps.forall₂ (R := fun f g => f ∈ p.definitions → changes f → g ≠ f)
      (fun f _ hd hf _ => absurd hd (Program.mem_definitions.1 hf).2)
      fun s f _ _ hl hf hchange => breaks f hf hchange s hl
    rw [heq, List.forall₂_same] at all
    intro f hf hchange
    exact all f (Program.mem_definitions.1 hf).1 hf hchange rfl
  · intro hno
    have all := sweeps.forall₂_of_invariant (P := fun s => ∀ v, s.tracker.resolve? v = none)
      (R := fun f g => f = g) new (fun _ _ _ => rfl) fun f hf hd s hs hl => by
        have hdef := Program.mem_definitions.2 ⟨hf, hd⟩
        obtain ⟨heq, hnew⟩ := keeps f hdef (hno f hdef) s hs hl
        exact ⟨hnew, heq.symm⟩
    exact (List.forall₂_eq_eq_eq ▸ all.2 : p.functions = _).symm

end Lowering

open Lowering

/-! ## Qubits -/

namespace QubitLowering

variable {honored sole : Bool} {i : Instruction} {s s' : Stock} {f : Function} {d : Decision}

/-- What does not manage qubits at most derives a value. -/
theorem role_of_unmanaged (h : i.managesQubits = false) :
    (∃ v element, role i = .project v element) ∨ (∃ v source, role i = .copy v source) ∨
      (∃ v sources, role i = .phi v sources) ∨ role i = .other := by
  obtain ⟨result, ty, operation⟩ := i
  cases operation with
  | call callee args =>
    rw [role_of_call h]
    cases result with
    | none => simp
    | some v =>
      simp only
      split <;> simp
  | _ =>
    cases result with
    | none => simp [role]
    | some v =>
      simp only [role]
      split <;> simp

/-- So its step ends well and draws nothing. -/
theorem quiet_judge (h : i.managesQubits = false) (honored : Bool) (s : Stock)
    (new : ∀ v, binds? i = some v → s.tracker.resolve? v = none) :
    ∃ s' d, judge honored s i = (s', .ok d) ∧ s'.pool = s.pool := by
  unfold binds? at new
  unfold judge
  obtain ⟨v, element, hr⟩ | ⟨v, source, hr⟩ | ⟨v, sources, hr⟩ | hr := role_of_unmanaged h
  · rw [hr] at new ⊢
    obtain ⟨s', hs, hpool⟩ := Stock.exists_derive (new v rfl) (elementOf? s.tracker element)
    exact ⟨s', _, by rw [judgeRole, hs]; rfl, hpool⟩
  · rw [hr] at new ⊢
    obtain ⟨s', hs, hpool⟩ := Stock.exists_derive (new v rfl) (s.tracker.resolveAs? .qubit source)
    exact ⟨s', _, by rw [judgeRole, hs]; rfl, hpool⟩
  · rw [hr] at new ⊢
    obtain ⟨s', hs, hpool⟩ := Stock.exists_derive (new v rfl) (s.tracker.joinAs? .qubit sources)
    exact ⟨s', _, by rw [judgeRole, hs]; rfl, hpool⟩
  · rw [hr]
    exact ⟨s, _, rfl, rfl⟩

/-- And so does a definition of such instructions. -/
theorem quiet_lower (unmanaged : ∀ i ∈ f.instructions, i.managesQubits = false)
    (nodup : (f.gather binds?).Nodup) (new : ∀ v ∈ f.gather binds?, s.tracker.resolve? v = none) :
    (lower sole s f).failure = none ∧ (lower sole s f).stock.pool = s.pool := by
  have perm := Function.gather_visited binds? f
  have serves : Serves .qubit s.pool.policy binds? (judge (honors sole s.pool f)) :=
    serves_judge policy_of_honors
  rw [lower_failure, lower_stock]
  exact serves.quiet_decideAll (perm.nodup_iff.2 nodup) (fun v hv => new v (perm.mem_iff.1 hv))
    fun e he s => quiet_judge
      (unmanaged e.2 (Function.mem_instructions.2 ⟨e.1, Function.mem_visited.1 he⟩)) _ s

/-- A copy or a phi stands for what its operands stand for together. -/
theorem moves_judge {v : ValueId} (hv : i.result = some v) (carried : carriesQubits i.type)
    (moves : i.callee? = none) (h : judge honored s i = (s', .ok d)) :
    s.tracker.Sets s'.tracker v (s.tracker.joinAs? .qubit i.operands) ∧
      d.isDroppable = (s.tracker.joinAs? .qubit i.operands).isSome := by
  cases judges_of_judge h with
  | @copy u ty source _ _ _ ht =>
    cases hv
    have hone : s.tracker.joinAs? .qubit [source] = _ := Tracker.joinAs?_singleton
    simp only [Instruction.operands, Operation.operands, hone]
    refine ⟨ht, ?_⟩
    cases s.tracker.resolveAs? .qubit source <;> rfl
  | @phi u ty incoming _ _ _ ht =>
    cases hv
    refine ⟨ht, ?_⟩
    simp only [Instruction.operands, Operation.operands]
    cases s.tracker.joinAs? .qubit (incoming.map Prod.snd) <;> rfl
  | other hrole =>
    obtain ⟨result, ty, operation⟩ := i
    cases hv
    cases operation <;> simp_all [role, Instruction.callee?]
  | _ => cases moves

/-- Where nothing is known, neither is an element of an array. -/
theorem elementOf?_of_unknown {t : Tracker} (new : ∀ v, t.resolve? v = none)
    (element : Option (Operand × Nat)) : elementOf? t element = none := by
  rcases element with - | ⟨array, index⟩
  · rfl
  · cases h : t.resolveAs? .qubit array with
    | none => simp [elementOf?, h]
    | some r =>
      -- only an address stands for anything, and that is no block
      have hr := Tracker.eq_operand_of_resolveAs? new h
      rw [hr, Tracker.resolveAs?_operand] at h
      rw [elementOf?, hr, Tracker.resolveAs?_operand]
      rfl

/-- **Where nothing is known nothing becomes known**, but what restates an
address. -/
theorem unknown_judge (unmanaged : i.managesQubits = false)
    (hno : ∀ v h, ¬ i.Restates .qubit v h) (new : ∀ v, s.tracker.resolve? v = none)
    (h : judge honored s i = (s', .ok d)) :
    (∀ v, s'.tracker.resolve? v = none) ∧ d.isDroppable = false := by
  have judged := judges_of_judge h
  cases judged with
  | project _ ht =>
    have hnone := elementOf?_of_unknown new
    simp only [hnone] at ht ⊢
    exact ⟨ht.unknown new rfl, rfl⟩
  | copy hty | phi hty =>
    obtain ⟨ht, hd⟩ := moves_judge rfl hty rfl h
    have hnone := Tracker.joinAs?_eq_none new (hno _) rfl hty rfl
    rw [hnone] at hd
    exact ⟨ht.unknown new hnone, hd⟩
  | unresolved => exact ⟨new, rfl⟩
  | other => exact ⟨new, rfl⟩
  | release hc =>
    rw [Instruction.managesQubits_call] at unmanaged
    rcases hc with rfl | rfl <;> exact absurd unmanaged (by decide)
  | _ =>
    rw [Instruction.managesQubits_call] at unmanaged
    exact absurd unmanaged (by decide)

/-- A definition in which nothing restates an address stays as it is. -/
theorem lower_of_unknown (unmanaged : ∀ i ∈ f.instructions, i.managesQubits = false)
    (hno : ∀ i ∈ f.instructions, ∀ v h, ¬ i.Restates .qubit v h)
    (new : ∀ v, s.tracker.resolve? v = none) (h : (lower sole s f).failure = none) :
    (lower sole s f).function = f ∧
      ∀ v, (lower sole s f).stock.tracker.resolve? v = none := by
  obtain ⟨ds, gone, decides, finished⟩ := exists_lowered h
  have mem {e : Site × Instruction} (he : e ∈ f.visited) : e.2 ∈ f.instructions :=
    Function.mem_instructions.2 ⟨e.1, Function.mem_visited.1 he⟩
  have keep (pool : Pool) : ∀ e ∈ f.visited, ∀ s s' a, (∀ v, s.tracker.resolve? v = none) →
      judge (honors sole pool f) s e.2 = (s', .ok a) → ∀ v, s'.tracker.resolve? v = none :=
    fun e he s s' a hs ha => (unknown_judge (unmanaged _ (mem he)) (hno _ (mem he)) hs ha).1
  have hnew := decides.invariant new (keep s.pool)
  refine ⟨finished.eq_of_unknown ?_ fun v => ?_, hnew⟩
  · simp only [List.map_eq_nil_iff, List.filter_eq_nil_iff]
    rintro ⟨x, d⟩ hd
    obtain ⟨i, s₁, s₂, hi, hs₁, hstep⟩ := decides.exists_step_of_mem new (keep s.pool) hd
    rw [(unknown_judge (unmanaged _ (mem hi)) (hno _ (mem hi)) hs₁ hstep).2]
    exact Bool.false_ne_true
  · simp [address?, hnew v]

/-- **And one with such an instruction does not.** -/
theorem lower_ne_of_restates (nodup : f.definedValues.Nodup)
    (h : (lower sole s f).failure = none) (hi : i ∈ f.instructions) {v : ValueId} {a : Handle}
    (hr : i.Restates .qubit v a) : (lower sole s f).function ≠ f := by
  obtain ⟨ds, gone, decides, finished⟩ := exists_lowered h
  obtain ⟨x, he⟩ := Function.mem_instructions.1 hi
  obtain ⟨s₁, s₂, d, visit⟩ := decides.exists_visit frames_judge nodup he
  obtain ⟨ht, hd⟩ := moves_judge hr.result hr.carried hr.moves visit.step
  rw [Tracker.joinAs?_of_restates hr] at ht hd
  refine finished.ne_of_gone he (finished.mem_gone visit he hd fun u hu => ?_)
  obtain rfl := Option.some.inj (hr.result.symm.trans hu)
  rw [address?, visit.result v hu, ht.self]
  rfl

variable {p : Program} {c : Context}

/-- **Lowering the qubits of a program that manages none** draws nothing,
and changes what restates an address. -/
theorem run_of_unmanaged (nodup : (p.definitions.flatMap Function.definedValues).Nodup)
    (new : ∀ v, c.tracker.resolve? v = none) (unmanaged : p.managesQubits = false) :
    (run p c).failure = none ∧ (run p c).context.qubits = c.qubits ∧
      (run p c).context.results = c.results ∧
      ((run p c).program = p ↔ ∀ f ∈ p.definitions, ∀ i ∈ f.instructions, ∀ v h,
        ¬ i.Restates .qubit v h) := by
  have none_managed := (Program.any_instructions_eq_false _).1 unmanaged
  have serves := serves_lower (managers p ≤ 1)
  have quiet := serves.quiet_sweep (s := c.stock .qubit) (serves.nodup_gather nodup)
    (fun v _ => new v) fun f hf hd s =>
      quiet_lower (none_managed f (Program.mem_definitions.2 ⟨hf, hd⟩))
  have hrun : (Lowering.run .qubit (lower (managers p ≤ 1)) p c).failure = none := quiet.1
  let changes (f : Function) : Prop := ∃ i ∈ f.instructions, ∃ v h, i.Restates .qubit v h
  have hiff : _ ↔ ∀ f ∈ p.definitions, ¬ changes f := program_run_eq_iff new hrun
    (fun f hf hno s hs hl => lower_of_unknown (none_managed f hf)
      (fun i hi v h hr => hno ⟨i, hi, v, h, hr⟩) hs hl)
    fun f hf ⟨i, hi, v, h, hr⟩ s hl =>
      lower_ne_of_restates ((List.nodup_flatMap.1 nodup).1 f hf) hl hi hr
  rw [run_failure, run_context, run_program]
  refine ⟨hrun, quiet.2, rfl, ?_⟩
  simpa [changes] using hiff

end QubitLowering

/-! ## Results -/

namespace ResultLowering

variable {i : Instruction} {s s' : Stock} {f : Function} {d : Decision}

/-- What measures nothing at most derives a value. -/
theorem role_of_unmeasured (h : i.isCallTo Intrinsics.measure = false) :
    (∃ v source, role i = .copy v source) ∨ (∃ v sources, role i = .phi v sources) ∨
      role i = .other := by
  obtain ⟨result, ty, operation⟩ := i
  by_cases hty : ty = .result
  swap
  · exact .inr (.inr (role_of_type_ne hty))
  subst hty
  cases result with
  | none => exact .inr (.inr rfl)
  | some v =>
    cases operation with
    | call callee args =>
      refine .inr (.inr (by_contra fun hr => ?_))
      obtain ⟨qubit, -, rfl, -⟩ := operationRole_call hr
      simp at h
    | copy source => exact .inl ⟨v, source, rfl⟩
    | phi incoming => exact .inr (.inl ⟨v, _, rfl⟩)

/-- So its step ends well and draws nothing. -/
theorem quiet_judge (h : i.isCallTo Intrinsics.measure = false) (s : Stock)
    (new : ∀ v, binds? i = some v → s.tracker.resolve? v = none) :
    ∃ s' d, judge s i = (s', .ok d) ∧ s'.pool = s.pool := by
  unfold binds? at new
  unfold judge
  obtain ⟨v, source, hr⟩ | ⟨v, sources, hr⟩ | hr := role_of_unmeasured h
  · rw [hr] at new ⊢
    obtain ⟨s', hs, hpool⟩ := Stock.exists_derive (new v rfl) (s.tracker.resolveAs? .result source)
    exact ⟨s', _, by rw [judgeRole, hs]; rfl, hpool⟩
  · rw [hr] at new ⊢
    obtain ⟨s', hs, hpool⟩ := Stock.exists_derive (new v rfl) (s.tracker.joinAs? .result sources)
    exact ⟨s', _, by rw [judgeRole, hs]; rfl, hpool⟩
  · rw [hr]
    exact ⟨s, _, rfl, rfl⟩

/-- And so does a definition of such instructions. -/
theorem quiet_lower (unmeasured : ∀ i ∈ f.instructions, i.isCallTo Intrinsics.measure = false)
    (nodup : (f.gather binds?).Nodup) (new : ∀ v ∈ f.gather binds?, s.tracker.resolve? v = none) :
    (lower s f).failure = none ∧ (lower s f).stock.pool = s.pool := by
  have perm := Function.gather_visited binds? f
  rw [lower_failure, lower_stock]
  exact (serves_judge s.pool.policy).quiet_decideAll (perm.nodup_iff.2 nodup)
    (fun v hv => new v (perm.mem_iff.1 hv)) fun e he s => quiet_judge
      (unmeasured e.2 (Function.mem_instructions.2 ⟨e.1, Function.mem_visited.1 he⟩)) s

/-- A copy or a phi stands for what its operands stand for together. -/
theorem moves_judge {v : ValueId} (hv : i.result = some v)
    (carried : ResourceKind.carries .result i.type) (moves : i.callee? = none)
    (h : judge s i = (s', .ok d)) :
    s.tracker.Sets s'.tracker v (s.tracker.joinAs? .result i.operands) ∧
      (d = .known ↔ (s.tracker.joinAs? .result i.operands).isSome) := by
  cases judges_of_judge h with
  | measure => cases moves
  | @copy u source _ _ ht =>
    cases hv
    have hone : s.tracker.joinAs? .result [source] = _ := Tracker.joinAs?_singleton
    simp only [Instruction.operands, Operation.operands, hone]
    refine ⟨ht, ?_⟩
    cases s.tracker.resolveAs? .result source <;> simp [derived]
  | @phi u incoming _ _ ht =>
    cases hv
    refine ⟨ht, ?_⟩
    simp only [Instruction.operands, Operation.operands]
    cases s.tracker.joinAs? .result (incoming.map Prod.snd) <;> simp [derived]
  | other hrole =>
    obtain ⟨result, ty, operation⟩ := i
    cases hv
    have hty : ty = .result := of_decide_eq_true carried
    subst hty
    cases operation with
    | call => cases moves
    | copy => cases hrole
    | phi => cases hrole

/-- **Where nothing is known nothing becomes known**, but what restates an
address. -/
theorem unknown_judge (unmeasured : i.isCallTo Intrinsics.measure = false)
    (hno : ∀ v h, ¬ i.Restates .result v h) (new : ∀ v, s.tracker.resolve? v = none)
    (h : judge s i = (s', .ok d)) :
    (∀ v, s'.tracker.resolve? v = none) ∧ d = .stays := by
  have judged := judges_of_judge h
  cases judged with
  | measure => simp at unmeasured
  | @copy v source | @phi v incoming =>
    obtain ⟨ht, hd⟩ := moves_judge rfl rfl rfl h
    have hnone := Tracker.joinAs?_eq_none new (hno v) rfl rfl rfl
    refine ⟨ht.unknown new hnone, ?_⟩
    rw [hnone] at hd
    unfold derived at hd ⊢
    split at hd <;> simp_all
  | other => exact ⟨new, rfl⟩

/-- A definition in which nothing restates an address stays as it is. -/
theorem lower_of_unknown
    (unmeasured : ∀ i ∈ f.instructions, i.isCallTo Intrinsics.measure = false)
    (hno : ∀ i ∈ f.instructions, ∀ v h, ¬ i.Restates .result v h)
    (new : ∀ v, s.tracker.resolve? v = none) (h : (lower s f).failure = none) :
    (lower s f).function = f ∧ ∀ v, (lower s f).stock.tracker.resolve? v = none := by
  obtain ⟨ds, gone, decides, finished⟩ := exists_lowered h
  have mem {e : Site × Instruction} (he : e ∈ f.visited) : e.2 ∈ f.instructions :=
    Function.mem_instructions.2 ⟨e.1, Function.mem_visited.1 he⟩
  have keep : ∀ e ∈ f.visited, ∀ s s' a, (∀ v, s.tracker.resolve? v = none) →
      judge s e.2 = (s', .ok a) → ∀ v, s'.tracker.resolve? v = none :=
    fun e he s s' a hs ha => (unknown_judge (unmeasured _ (mem he)) (hno _ (mem he)) hs ha).1
  have hnew := decides.invariant new keep
  have hstays : ∀ x d, (x, d) ∈ ds → d = .stays := by
    intro x d hd
    obtain ⟨i, s₁, s₂, hi, hs₁, hstep⟩ := decides.exists_step_of_mem new keep hd
    exact (unknown_judge (unmeasured _ (mem hi)) (hno _ (mem hi)) hs₁ hstep).2
  have hreplaced : replaced ds = Prod.snd := by
    funext e
    have hnil : replacements ds = [] := List.filterMap_eq_nil_iff.2 fun d hd => by
      rw [hstays d.1 d.2 hd]
      rfl
    rw [replaced, hnil]
    rfl
  rw [hreplaced] at finished
  refine ⟨finished.eq_of_unknown ?_ fun v => ?_, hnew⟩
  · simp only [List.map_eq_nil_iff, List.filter_eq_nil_iff]
    rintro ⟨x, d⟩ hd
    simp [hstays x d hd]
  · simp [address?, hnew v]

/-- **And one with such an instruction does not.** -/
theorem lower_ne_of_restates (nodup : f.definedValues.Nodup) (h : (lower s f).failure = none)
    (hi : i ∈ f.instructions) {v : ValueId} {a : Handle} (hr : i.Restates .result v a) :
    (lower s f).function ≠ f := by
  obtain ⟨ds, gone, decides, finished⟩ := exists_lowered h
  obtain ⟨x, he⟩ := Function.mem_instructions.1 hi
  obtain ⟨s₁, s₂, d, visit⟩ := decides.exists_visit frames_judge nodup he
  obtain ⟨ht, hd⟩ := moves_judge hr.result hr.carried hr.moves visit.step
  rw [Tracker.joinAs?_of_restates hr] at ht hd
  obtain rfl := hd.2 rfl
  refine finished.ne_of_gone he
    (finished.mem_gone (P := fun d => d = .known) visit he (by simp) fun u hu => ?_)
  rw [replaced_eq visit.decision] at hu
  obtain rfl := Option.some.inj (hr.result.symm.trans hu)
  rw [address?_of_single ((visit.result v hr.result).trans ht.self)]
  rfl

variable {p : Program} {c : Context}

/-- **Lowering the results of a program that measures none** draws nothing,
and changes what restates an address. -/
theorem run_of_unmeasured (nodup : (p.definitions.flatMap Function.definedValues).Nodup)
    (new : ∀ v, c.tracker.resolve? v = none)
    (unmeasured : (p.instructions.any fun e => e.2.isCallTo Intrinsics.measure) = false) :
    (run p c).failure = none ∧ (run p c).context.qubits = c.qubits ∧
      (run p c).context.results = c.results ∧
      ((run p c).program = p ↔ ∀ f ∈ p.definitions, ∀ i ∈ f.instructions, ∀ v h,
        ¬ i.Restates .result v h) := by
  have none_measured :=
    (Program.any_instructions_eq_false (·.isCallTo Intrinsics.measure)).1 unmeasured
  have quiet := serves_lower.quiet_sweep (s := c.stock .result) (serves_lower.nodup_gather nodup)
    (fun v _ => new v) fun f hf hd s =>
      quiet_lower (none_measured f (Program.mem_definitions.2 ⟨hf, hd⟩))
  have hrun : (Lowering.run .result lower p c).failure = none := quiet.1
  let changes (f : Function) : Prop := ∃ i ∈ f.instructions, ∃ v h, i.Restates .result v h
  have hiff : _ ↔ ∀ f ∈ p.definitions, ¬ changes f := program_run_eq_iff new hrun
    (fun f hf hno s hs hl => lower_of_unknown (none_measured f hf)
      (fun i hi v h hr => hno ⟨i, hi, v, h, hr⟩) hs hl)
    fun f hf ⟨i, hi, v, h, hr⟩ s hl =>
      lower_ne_of_restates ((List.nodup_flatMap.1 nodup).1 f hf) hl hi hr
  -- nothing measures, so there is nothing to declare
  have hmeasures : measures p = false := by
    refine (Program.any_instructions_eq_false isMeasurement).2 fun f hf i hi => ?_
    obtain ⟨v, source, hr⟩ | ⟨v, sources, hr⟩ | hr :=
      role_of_unmeasured (none_measured f hf i hi) <;> simp [isMeasurement, hr]
  have hprogram : (run p c).program = (Lowering.run .result lower p c).program := by
    simp [run, hmeasures]
  rw [run_failure, run_context, hprogram]
  refine ⟨hrun, rfl, quiet.2, ?_⟩
  simpa [changes] using hiff

end ResultLowering

/-! ## Both passes -/

/-- A program with static addresses only. -/
def Pass.addressed : Program := Schedule.straightLine "addressed" [
  .call "__quantum__qis__h__body" [.qubit 3]]

/-- A program that names its static addresses by values. -/
def Pass.renamed : Program := Schedule.straightLine "renamed" [
  ⟨some ⟨0⟩, .qubit, .copy (.qubit 3)⟩,
  .call "__quantum__qis__h__body" [.value ⟨0⟩],
  ⟨some ⟨1⟩, .result, .copy (.result 1)⟩,
  .call "__quantum__rt__result_record_output" [.value ⟨1⟩, .null]]

/-- **A pass that is not needed** does no harm if it runs: it does not fail
and draws on no pool. It leaves the program as it is if and only if no
instruction restates a static address. -/
theorem Pass.run_of_not_shouldRun (kind : ResourceKind) (p : Program) (hp : p.verify = .ok ())
    (c : Context) (new : ∀ v, c.tracker.resolve? v = none)
    (skipped : (Pass.lowering kind).shouldRun p c = false) :
    ((Pass.lowering kind).run p c).failure = none ∧
      ((Pass.lowering kind).run p c).context.qubits = c.qubits ∧
      ((Pass.lowering kind).run p c).context.results = c.results ∧
      (((Pass.lowering kind).run p c).program = p ↔
        ∀ f ∈ p.definitions, ∀ i ∈ f.instructions, ∀ v h, ¬ i.Restates kind v h) := by
  have nodup := (Program.verify_eq_ok_iff.1 hp).values
  cases kind with
  | qubit => exact QubitLowering.run_of_unmanaged nodup new skipped
  | result => exact ResultLowering.run_of_unmeasured nodup new skipped

theorem Pass.run_of_not_shouldRun_addressed :
    addressed.verify = .ok () ∧ (∀ v, Context.default.tracker.resolve? v = none) ∧
      (Pass.lowering .qubit).shouldRun addressed .default = false ∧
      ((Pass.lowering .qubit).run addressed .default).failure = none ∧
      (((Pass.lowering .qubit).run addressed .default).program = addressed ↔
        ∀ f ∈ addressed.definitions, ∀ i ∈ f.instructions, ∀ v h, ¬ i.Restates .qubit v h) := by
  have key := run_of_not_shouldRun .qubit addressed (by decide) .default (fun _ => rfl) (by decide)
  exact ⟨by decide, fun _ => rfl, by decide, key.1, key.2.2.2⟩

/-- **Such a pass can change a program**: no qubit is managed and nothing
is measured, and yet each pass puts addresses in place of their copies. -/
theorem Pass.not_shouldRun_renamed :
    renamed.verify = .ok () ∧ Context.default.tracker = .empty ∧
      Pass.qubitLowering.shouldRun renamed .default = false ∧
      (Pass.qubitLowering.run renamed .default).failure = none ∧
      (Pass.qubitLowering.run renamed .default).program ≠ renamed ∧
      Pass.resultLowering.shouldRun renamed .default = false ∧
      (Pass.resultLowering.run renamed .default).failure = none ∧
      (Pass.resultLowering.run renamed .default).program ≠ renamed :=
  ⟨by decide, rfl, by decide, rfl, by decide, by decide, rfl, by decide⟩

end QuantumLowering
