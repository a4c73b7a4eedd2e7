import QuantumLowering.Proofs.Compliance.Needs
import QuantumLowering.Proofs.Compliance.Static
import QuantumLowering.Proofs.Demand.Pool
/-!
# The passes of the base profile

Pass by pass a program comes to comply: lowering qubits leaves no value
that is a qubit, lowering results none that is a result, and the last pass
states what is needed. All of them keep the entry point and the flags that
were there, and the pools stay within what addresses can count.
-/


namespace QuantumLowering

open Lowering

/-! ## What every lowering keeps -/

namespace Lowering

variable {drawn : ResourceKind} {lower : Stock → Function → Lowered} {p : Program} {c : Context}

/-- Where every step draws from the pool, all of them do. -/
theorem Decides.exists_drawn {δ : Type} {judge : Stock → Instruction → Draw δ} {s s' : Stock}
    {is : List (Site × Instruction)} {ds : List (Site × δ)} (h : Decides judge s is ds s')
    (draws : ∀ s i s' d, judge s i = (s', .ok d) → ∃ m, s.pool.Drawn m s'.pool) :
    ∃ m, s.pool.Drawn m s'.pool := by
  refine h.invariant (P := fun s₁ => ∃ m, s.pool.Drawn m s₁.pool) ⟨0, .refl _⟩
    fun e _ s₁ s₂ d ⟨m, hm⟩ hstep => ?_
  obtain ⟨k, hk⟩ := draws s₁ e.2 s₂ d hstep
  exact ⟨m + k, hm.trans hk⟩

/-- Both pools are drawn on, or left alone. -/
theorem exists_drawn_run
    (draws : ∀ s f, (lower s f).failure = none → ∃ m, s.pool.Drawn m (lower s f).stock.pool)
    (h : (run drawn lower p c).failure = none) (kind : ResourceKind) :
    ∃ m, (c.pool kind).Drawn m ((run drawn lower p c).context.pool kind) := by
  obtain ⟨s', sweeps, hc⟩ := sweeps_run h
  have drawn' : ∃ m, (c.pool drawn).Drawn m s'.pool := by
    refine sweeps.invariant (P := fun s => ∃ m, (c.pool drawn).Drawn m s.pool) ⟨0, .refl _⟩
      fun f _ _ s ⟨m, hm⟩ hl => ?_
    obtain ⟨k, hk⟩ := draws s f hl
    exact ⟨m + k, hm.trans hk⟩
  rw [hc]
  cases drawn <;> cases kind
  · exact drawn'
  · exact ⟨0, .refl _⟩
  · exact ⟨0, .refl _⟩
  · exact drawn'

end Lowering

/-- Pools that are drawn on stay bounded. -/
theorem Context.bounded_of_drawn {c c' : Context}
    (h : ∀ kind, ∃ m, (c.pool kind).Drawn m (c'.pool kind)) (hq : c.qubits.Bounded)
    (hr : c.results.Bounded) : c'.qubits.Bounded ∧ c'.results.Bounded := by
  obtain ⟨m, qubits⟩ := h .qubit
  obtain ⟨k, results⟩ := h .result
  exact ⟨qubits.bounded hq, results.bounded hr⟩

theorem Program.flags_declare (p : Program) (name : String) (signature : List Ty)
    (returnType : Ty) : (p.declare name signature returnType).flags = p.flags := by
  unfold declare
  cases p.function? name <;> rfl

/-- Where attributes stay, as many definitions are entry points. -/
theorem length_entries {fs gs : List Function}
    (h : List.Forall₂ (fun f g : Function => g.isEntryPoint = f.isEntryPoint) fs gs) :
    (gs.filter Function.isEntryPoint).length = (fs.filter Function.isEntryPoint).length := by
  induction h with
  | nil => rfl
  | @cons f g fs gs hfg _ ih => cases hf : f.isEntryPoint <;> simp [hfg, hf, ih]

/-! ## Lowering qubits -/

namespace QubitLowering

variable {honored sole : Bool} {s s' : Stock} {i : Instruction} {d : Decision} {f : Function}
variable {p p' : Program} {c c' : Context}

/-- A definition that can be made static has no arrays of qubits. -/
theorem managesArrays_eq_false (hf : f.Lowerable) :
    ∀ i ∈ f.instructions, i.managesArrays = false := by
  intro i hi
  by_contra h
  have arrays : ∃ callee ∈ [Intrinsics.acquireArray, Intrinsics.arrayElement,
      Intrinsics.releaseArray], i.callee? = some callee := by
    have h : i.managesArrays := by simpa using h
    simpa only [Instruction.managesArrays, Instruction.isCallTo, Bool.or_eq_true, beq_iff_eq,
      or_assoc, List.mem_cons, List.not_mem_nil, or_false, exists_eq_or_imp, exists_eq_left] using h
  obtain ⟨callee, hmem, hcallee⟩ := arrays
  have excluded : ∀ name ∈ [Intrinsics.acquireArray, Intrinsics.arrayElement,
      Intrinsics.releaseArray], Intrinsics.isBaseCallee name = false ∧
        name ≠ Intrinsics.acquireQubit ∧ name ≠ Intrinsics.releaseQubit ∧
          name ≠ Intrinsics.measure := by decide
  obtain ⟨hbase, hacquire, hrelease, hmeasure⟩ := excluded callee hmem
  rcases hf.callees i hi callee hcallee with h | h | ⟨-, v, hop, -⟩ | h
  · exact absurd (hbase.symm.trans h) Bool.false_ne_true
  · obtain ⟨v, args, rfl⟩ := acquiresQubit_iff.1 h
    exact hacquire (Option.some.inj hcallee).symm
  · rw [Instruction.callee?, hop] at hcallee
    exact hrelease (Option.some.inj hcallee).symm
  · obtain ⟨v, qubit, rfl⟩ := ResultLowering.isMeasurement_iff.1 h
    exact hmeasure (Option.some.inj hcallee).symm

/-- A step draws from the pool. -/
theorem Judges.exists_drawn (h : Judges honored s i s' d) : ∃ m, s.pool.Drawn m s'.pool := by
  have same : s'.pool = s.pool → ∃ m, s.pool.Drawn m s'.pool := by
    intro hp
    rw [hp]
    exact ⟨0, .refl _⟩
  cases h with
  | acquire hp => exact ⟨1, Pool.drawn_allocate hp⟩
  | acquireArray _ hp => exact ⟨_, Pool.drawn_allocateBlock hp⟩
  | unsized _ hp | project hp | copy _ hp | phi _ hp => exact same hp
  | release _ _ _ hp hn =>
    cases honored with
    | true => exact ⟨0, Pool.drawn_releaseBlock (hp rfl)⟩
    | false => exact same (hn rfl)
  | unresolved | other => exact same rfl

theorem exists_drawn_lower (h : (lower sole s f).failure = none) :
    ∃ m, s.pool.Drawn m (lower sole s f).stock.pool := by
  obtain ⟨ds, gone, decides, -⟩ := exists_lowered h
  exact decides.exists_drawn fun _ _ _ _ hstep => (judges_of_judge hstep).exists_drawn

theorem attributes_lower (h : (lower sole s f).failure = none) :
    (lower sole s f).function.attributes = f.attributes := by
  obtain ⟨ds, gone, -, finished⟩ := exists_lowered h
  exact finished.attributes

/-- **Lowering the qubits of a program leaves no value that is a qubit.** -/
theorem qubitFree_of_ends (ends : Pass.qubitLowering.Ends p c p' c') (wf : p.WellFormed)
    (new : ∀ v, c.tracker.resolve? v = none) (hp : ∀ f ∈ p.definitions, f.Lowerable) :
    List.Forall₂ (fun f g => g.attributes = f.attributes ∧ g.QubitFree) p.definitions
      p'.definitions := by
  have inOrder : ∀ f ∈ p.definitions, f.InOrder := fun f hf =>
    Function.inOrder_of_dominated (wf.definitions f hf) (hp f hf).reachable (hp f hf).dominated
      (hp f hf).acyclic
  cases ends with
  | skipped hskip =>
    have unmanaged := (Program.any_instructions_eq_false Instruction.managesQubits).1 hskip
    refine forall₂_imp_of_mem (List.forall₂_same.2 fun f _ => rfl) fun f hf g hfg => ?_
    obtain rfl : f = g := hfg
    exact ⟨rfl, qubitFree_of_unmanaged (hp f hf) (inOrder f hf) (unmanaged f hf)⟩
  | ran _ h =>
    change (run p c).failure = none at h
    change List.Forall₂ _ _ (run p c).program.definitions
    rw [run_failure] at h
    rw [run_program]
    obtain ⟨s', -, -, turns⟩ := exists_turns frames_lower (fun _ _ => isDeclaration_lower)
      wf.values h
    refine forall₂_imp_of_mem turns fun f hf g ⟨s₁, turn⟩ => ?_
    rw [turn.function]
    exact ⟨attributes_lower turn.failure, qubitFree_lower turn.failure (hp f hf) (inOrder f hf)
      (wf.nodup_definedValues hf) fun v hv => (turn.new v hv).trans (new v)⟩

theorem flags_of_ends (ends : Pass.qubitLowering.Ends p c p' c') : p'.flags = p.flags := by
  cases ends with
  | skipped => rfl
  | ran =>
    change (run p c).program.flags = _
    rw [run_program]
    rfl

/-- It draws on the pools, if anything. -/
theorem exists_drawn_of_ends (ends : Pass.qubitLowering.Ends p c p' c') (kind : ResourceKind) :
    ∃ m, (c.pool kind).Drawn m (c'.pool kind) := by
  cases ends with
  | skipped => exact ⟨0, .refl _⟩
  | ran _ h =>
    change (run p c).failure = none at h
    change ∃ m, (c.pool kind).Drawn m ((run p c).context.pool kind)
    rw [run_failure] at h
    rw [run_context]
    exact exists_drawn_run (fun _ _ => exists_drawn_lower) h kind

end QubitLowering

/-! ## Lowering results -/

namespace ResultLowering

variable {s s' : Stock} {i : Instruction} {d : Decision} {f : Function}
variable {p p' : Program} {c c' : Context}

/-- A step draws from the pool. -/
theorem Judges.exists_drawn (h : Judges s i s' d) : ∃ m, s.pool.Drawn m s'.pool := by
  have same : s'.pool = s.pool → ∃ m, s.pool.Drawn m s'.pool := by
    intro hp
    rw [hp]
    exact ⟨0, .refl _⟩
  cases h with
  | measure hp => exact ⟨1, Pool.drawn_allocate hp⟩
  | copy hp | phi hp => exact same hp
  | other => exact same rfl

theorem exists_drawn_lower (h : (lower s f).failure = none) :
    ∃ m, s.pool.Drawn m (lower s f).stock.pool := by
  obtain ⟨ds, gone, decides, -⟩ := exists_lowered h
  exact decides.exists_drawn fun _ _ _ _ hstep => (judges_of_judge hstep).exists_drawn

theorem attributes_lower (h : (lower s f).failure = none) :
    (lower s f).function.attributes = f.attributes := by
  obtain ⟨ds, gone, -, finished⟩ := exists_lowered h
  exact finished.attributes

/-- **Lowering the results of a program makes it static.** -/
theorem static_of_ends (ends : Pass.resultLowering.Ends p c p' c')
    (nodup : (p.definitions.flatMap Function.definedValues).Nodup)
    (qubits : c.tracker.All fun r => r.kind = .qubit ∧ r.width = 1)
    (hp : ∀ f ∈ p.definitions, f.QubitFree) :
    List.Forall₂ (fun f g => g.attributes = f.attributes ∧ g.IsStatic) p.definitions
      p'.definitions := by
  cases ends with
  | skipped hskip =>
    have unmeasured :=
      (Program.any_instructions_eq_false (·.isCallTo Intrinsics.measure)).1 hskip
    refine forall₂_imp_of_mem (List.forall₂_same.2 fun f _ => rfl) fun f hf g hfg => ?_
    obtain rfl : f = g := hfg
    exact ⟨rfl, static_of_unmeasured (hp f hf) (unmeasured f hf)⟩
  | ran _ h =>
    change (run p c).failure = none at h
    change List.Forall₂ _ _ (run p c).program.definitions
    rw [run_failure] at h
    rw [definitions_run]
    have new : ∀ v, c.tracker.resolveAs? .result (.value v) = none :=
      (qubits.imp fun r hr => hr.1).resolveAs?_eq_none (by decide)
    obtain ⟨s', -, -, turns⟩ := exists_turns frames_lower (fun _ _ => isDeclaration_lower) nodup h
    refine forall₂_imp_of_mem turns fun f hf g ⟨s₁, turn⟩ => ?_
    have inside := (List.nodup_flatMap.1 nodup).1 f hf
    rw [turn.function]
    exact ⟨attributes_lower turn.failure, static_lower turn.failure (hp f hf) inside
      fun v hv => (Tracker.resolveAs?_value_congr (turn.new v hv)).trans (new v)⟩

theorem flags_of_ends (ends : Pass.resultLowering.Ends p c p' c') : p'.flags = p.flags := by
  cases ends with
  | skipped => rfl
  | ran =>
    change (run p c).program.flags = _
    rcases run_program p c with hp | hp
    · rw [hp]
      rfl
    · rw [hp, Program.flags_declare]
      rfl

/-- It draws on the pools, if anything. -/
theorem exists_drawn_of_ends (ends : Pass.resultLowering.Ends p c p' c') (kind : ResourceKind) :
    ∃ m, (c.pool kind).Drawn m (c'.pool kind) := by
  cases ends with
  | skipped => exact ⟨0, .refl _⟩
  | ran _ h =>
    change (run p c).failure = none at h
    change ∃ m, (c.pool kind).Drawn m ((run p c).context.pool kind)
    rw [run_failure] at h
    rw [run_context]
    exact exists_drawn_run (fun _ _ => exists_drawn_lower) h kind

end ResultLowering

end QuantumLowering
