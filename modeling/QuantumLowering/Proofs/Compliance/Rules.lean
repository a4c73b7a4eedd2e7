import QuantumLowering.Compliance.Validator
import QuantumLowering.Proofs.Compliance.Passes
/-!
# The rules that a static program meets

Four rules of the base profile ask for what `Function.IsStatic` says of
every definition, one for an entry point, and two for what the last pass
states. So a static program with one entry point complies once its needs
are stated (`Requirements.complies_run`).
-/


namespace QuantumLowering

variable {p : Program} {c : Context}

theorem Program.mem_instructions {e : Function × Instruction} :
    e ∈ p.instructions ↔ e.1 ∈ p.definitions ∧ e.2 ∈ e.1.instructions := by
  obtain ⟨f, i⟩ := e
  simp only [instructions, List.mem_flatMap, List.mem_map, Prod.mk.injEq]
  constructor
  · rintro ⟨f, hf, i, hi, rfl, rfl⟩
    exact ⟨hf, hi⟩
  · rintro ⟨hf, hi⟩
    exact ⟨f, hf, i, hi, rfl, rfl⟩

/-- **A static program**: every definition is. -/
def Program.IsStatic (p : Program) : Prop := ∀ f ∈ p.definitions, f.IsStatic

/-! ## Static programs -/

namespace Program.IsStatic

/-- No call of a static program manages qubits. -/
theorem managesQubits_instruction (h : p.IsStatic) {e : Function × Instruction}
    (he : e ∈ p.instructions) : e.2.managesQubits = false := by
  obtain ⟨hf, hi⟩ := mem_instructions.1 he
  unfold Instruction.managesQubits
  cases hc : e.2.callee? with
  | none => rfl
  | some callee => exact Intrinsics.not_isQubitManagement ((h e.1 hf).callees e.2 hi callee hc)

theorem managesQubits (h : p.IsStatic) : p.managesQubits = false :=
  List.any_eq_false.2 fun e he => by simp [h.managesQubits_instruction he]

/-- No instruction of a static program computes a result. -/
theorem acquiresResult (h : p.IsStatic) {e : Function × Instruction} (he : e ∈ p.instructions) :
    Requirements.acquiresResult e.2 = false := by
  obtain ⟨hf, hi⟩ := mem_instructions.1 he
  have values := (h e.1 hf).values e.2 hi
  unfold Requirements.acquiresResult
  cases hr : e.2.result with
  | none => rfl
  | some v =>
    have hv := values v hr
    cases hty : e.2.type <;> simp_all [Ty.isResource]

theorem acquiresResults (h : p.IsStatic) : Requirements.acquiresResults p = false :=
  List.any_eq_false.2 fun e he => by simp [h.acquiresResult he]

/-- No value of a static definition is a qubit or a result. -/
theorem isDynamicOperand (h : p.IsStatic) {f : Function} (hf : f ∈ p.definitions)
    (op : Operand) : Rules.isDynamicOperand f op = false := by
  cases op with
  | value v =>
    simp only [Rules.isDynamicOperand]
    cases hty : Rules.typeOf? f v with
    | none => rfl
    | some ty =>
      rcases Rules.exists_of_typeOf? hty with ⟨q, hq, -, rfl⟩ | ⟨i, hi, hv, rfl⟩
      · exact (h f hf).params q hq
      · exact (h f hf).values i hi v hv
  | _ => rfl

/-! ## The rules -/

theorem noDynamicQubits (h : p.IsStatic) : Rules.noDynamicQubits p = .pass := by
  have : p.instructions.find? (fun e => e.2.managesQubits) = none :=
    List.find?_eq_none.2 fun e he => by simp [h.managesQubits_instruction he]
  simp only [Rules.noDynamicQubits, this]

theorem noDynamicResults (h : p.IsStatic) : Rules.noDynamicResults p = .pass := by
  have : p.instructions.find? (fun e => e.2.result.isSome && e.2.type = .result) = none :=
    List.find?_eq_none.2 fun e he => by
      have := h.acquiresResult he
      simpa [Requirements.acquiresResult] using this
  simp only [Rules.noDynamicResults, this]

theorem staticOperands (h : p.IsStatic) : Rules.staticOperands p = .pass := by
  unfold Rules.staticOperands
  rw [List.flatMap_eq_nil_iff.2 fun e he => ?_]
  · rfl
  · have static := h.isDynamicOperand (mem_instructions.1 he).1
    simp [Rules.dynamicArguments, static]

theorem allowedIntrinsics (h : p.IsStatic) : Rules.allowedIntrinsics p = .pass := by
  unfold Rules.allowedIntrinsics
  rw [List.filter_eq_nil_iff.2 fun name hname => ?_]
  · rfl
  · obtain ⟨e, he, hc⟩ := List.mem_filterMap.1 hname
    obtain ⟨hf, hi⟩ := mem_instructions.1 he
    simp [(h e.1 hf).callees e.2 hi name hc]

end Program.IsStatic

/-- One definition that is an entry point. -/
theorem Rules.singleEntry_eq_pass
    (h : (p.definitions.filter Function.isEntryPoint).length = 1) :
    singleEntry p = .pass := by
  obtain ⟨f, hf⟩ := List.length_eq_one_iff.1 h
  simp only [singleEntry, hf]

/-- It is the entry point that is found. -/
theorem Program.isSome_entryPoint?
    (h : (p.definitions.filter Function.isEntryPoint).length = 1) : p.entryPoint?.isSome := by
  obtain ⟨f, hf⟩ := List.length_eq_one_iff.1 h
  obtain ⟨hdef, hentry⟩ := List.mem_filter.1 (hf ▸ List.mem_singleton_self f)
  obtain ⟨hmem, hd⟩ := mem_definitions.1 hdef
  exact List.find?_isSome.2 ⟨f, hmem, by simp [isEntry, hd, hentry]⟩

/-! ## Once the needs are stated -/

namespace Requirements

/-- Stating the needs changes attributes only, and no entry point. -/
theorem forall₂_run : List.Forall₂
    (fun f g => g.isEntryPoint = f.isEntryPoint ∧ (f.IsStatic → g.IsStatic)) p.definitions
      (run p c).program.definitions := by
  have functions : List.Forall₂ (fun f g : Function => g.isDeclaration = f.isDeclaration ∧
      g.isEntryPoint = f.isEntryPoint ∧ (f.IsStatic → g.IsStatic)) p.functions
        (run p c).program.functions := by
    change List.Forall₂ _ p.functions
      (p.updateEntryPoint (withNeeds (extent p c .qubit) (extent p c .result))).functions
    refine p.forall₂_updateEntryPoint (fun f => ⟨rfl, rfl, id⟩) fun f => ⟨rfl, ?_, fun h => ?_⟩
    · exact isEntryPoint_withNeeds _ _ f
    · exact ⟨h.params, h.callees, h.values⟩
  exact (Program.forall₂_definitions (fun f g h => h.1) functions).imp fun f g h => h.2

/-- **A static program with one entry point complies** once its needs are
stated. -/
theorem complies_run (static : p.IsStatic)
    (entries : (p.definitions.filter Function.isEntryPoint).length = 1)
    (version : ∀ flag, p.flag? Intrinsics.majorVersion = some flag → flag = .int 1)
    (hq : c.qubits.Bounded) (hr : c.results.Bounded) :
    (Validator.base.report (run p c).program).passed := by
  have changes := forall₂_run (p := p) (c := c)
  have static' : (run p c).program.IsStatic := by
    intro g hg
    obtain ⟨f, hf, -, h⟩ := exists_left_of_forall₂ changes hg
    exact h (static f hf)
  have entries' : ((run p c).program.definitions.filter Function.isEntryPoint).length = 1 :=
    (length_entries (changes.imp fun f g h => h.1)).trans entries
  have counted : ∀ kind, (c.pool kind).highWater < addressLimit := by
    intro kind
    cases kind with
    | qubit => exact lt_of_le_of_lt hq c.qubits.limit_lt
    | result => exact lt_of_le_of_lt hr c.results.limit_lt
  have verdicts : ∀ r ∈ Rules.base, r.judge (run p c).program = .pass := by
    intro r hmem
    simp only [Rules.base, List.mem_cons, List.not_mem_nil, or_false] at hmem
    rcases hmem with rfl | rfl | rfl | rfl | rfl | rfl | rfl
    · exact static'.noDynamicQubits
    · exact static'.noDynamicResults
    · exact static'.staticOperands
    · exact Rules.singleEntry_eq_pass entries'
    · exact statedNeeds_run counted (Program.isSome_entryPoint? entries)
    · exact static'.allowedIntrinsics
    · exact declaredFlags_run_iff.2 ⟨static.managesQubits, static.acquiresResults, version⟩
  refine List.all_eq_true.2 fun finding hfinding => ?_
  obtain ⟨r, hmem, rfl⟩ := List.mem_map.1 hfinding
  rw [verdicts r hmem]
  rfl

end Requirements

end QuantumLowering
