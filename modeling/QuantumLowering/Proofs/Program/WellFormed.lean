import QuantumLowering.Program.Verify
/-!
# Well-formed programs

What structural verification decides, said without the order of its
checks: a program is well formed if its names are told apart, every block
ends and leads to blocks that exist, and every instruction is typed, reads
values of its own function and stands where its kind may stand. The main
fact is `verify_eq_ok_iff`; everything that lowering keeps of a program is
stated of `Program.WellFormed`.
-/


namespace QuantumLowering

/-! ## The conditions -/

/-- The values that an operand list reads. -/
def readValues (operands : List Operand) : List ValueId := operands.filterMap Operand.value?

theorem mem_readValues {ops : List Operand} {v : ValueId} :
    v ∈ readValues ops ↔ .value v ∈ ops := by
  simp only [readValues, List.mem_filterMap]
  constructor
  · rintro ⟨o, ho, hv⟩
    cases o <;> simp_all [Operand.value?]
  · exact fun h => ⟨_, h, rfl⟩

/-- **A well-formed instruction** of a block. -/
structure Instruction.WellFormed (p : Program) (f : Function) (b : Block) (i : Instruction) :
    Prop where
  /-- It has a type exactly if it computes a value. -/
  typed : i.result.isSome ↔ i.type ≠ .void
  /-- It reads values of its function. -/
  reads : ∀ v ∈ readValues i.operands, v ∈ f.definedValues
  /-- A phi lists blocks that lead to its own. -/
  incoming : ∀ l, i.operation = .phi l → ∀ e ∈ l, e.1 ∈ Verify.predecessors f b.id
  /-- A call passes what its callee takes. -/
  arity : ∀ callee args, i.operation = .call callee args →
    ∀ g, p.function? callee = some g → g.arity = args.length

/-- **A well-formed block** of a function. -/
structure Block.WellFormed (p : Program) (f : Function) (b : Block) : Prop where
  /-- It ends. -/
  ends : b.terminator.isSome
  /-- It leads to blocks of its function. -/
  exits : ∀ s ∈ b.successors, s ∈ f.blocks.map Block.id
  /-- Its instructions are well formed. -/
  instructions : ∀ i ∈ b.instructions, i.WellFormed p f b
  /-- No phi follows an instruction of another kind. -/
  phisFirst : b.instructions.Pairwise fun i j => j.isPhi → i.isPhi
  /-- Its terminator reads values of its function. -/
  reads : ∀ v ∈ readValues b.exitOperands, v ∈ f.definedValues

/-- **A well-formed definition** of a program. -/
structure Function.WellFormed (p : Program) (f : Function) : Prop where
  /-- Its blocks are named apart. -/
  ids : (f.blocks.map Block.id).Nodup
  /-- Its blocks are well formed. -/
  blocks : ∀ b ∈ f.blocks, b.WellFormed p f

/-- **A well-formed program.** -/
structure Program.WellFormed (p : Program) : Prop where
  /-- Its functions are named apart. -/
  names : (p.functions.map Function.name).Nodup
  /-- No value is defined twice. -/
  values : (p.definitions.flatMap Function.definedValues).Nodup
  /-- Its definitions are well formed. -/
  definitions : ∀ f ∈ p.definitions, f.WellFormed p

namespace Verify

/-! ## The small checks -/

variable {α : Type}

/-- One check after another passes if both do. -/
theorem bind_eq_ok {x : Except Defect Unit} {g : Unit → Except Defect Unit} :
    (x >>= g) = .ok () ↔ x = .ok () ∧ g () = .ok () := by
  cases x <;> simp [bind, Except.bind]

theorem rejectSome_eq_ok {found : Option α} {defect : α → Defect} :
    rejectSome found defect = .ok () ↔ found = none := by
  cases found <;> simp [rejectSome]

theorem checkAll_eq_ok {check : α → Except Defect Unit} {l : List α} :
    checkAll check l = .ok () ↔ ∀ a ∈ l, check a = .ok () := by
  induction l with
  | nil => simp [checkAll]
  | cons a l ih => simp [checkAll, bind_eq_ok, ih]

/-- Nothing repeats in a list without duplicates that avoids what was seen
before it. -/
theorem firstRepeat?_eq_none [DecidableEq α] {seen l : List α} :
    firstRepeat? seen l = none ↔ l.Nodup ∧ ∀ a ∈ l, a ∉ seen := by
  induction l generalizing seen with
  | nil => simp [firstRepeat?]
  | cons a l ih =>
    unfold firstRepeat?
    split
    · rename_i h
      simp [h]
    · rename_i h
      rw [ih]
      simp only [List.mem_cons, not_or, List.nodup_cons, forall_eq_or_imp]
      constructor
      · rintro ⟨hl, hs⟩
        exact ⟨⟨fun ha => (hs a ha).1 rfl, hl⟩, h, fun b hb => (hs b hb).2⟩
      · rintro ⟨⟨ha, hl⟩, -, hs⟩
        exact ⟨hl, fun b hb => ⟨fun e => ha (e ▸ hb), hs b hb⟩⟩

theorem checkUses_eq_ok {f : Function} {operands : List Operand} :
    checkUses f operands = .ok () ↔ ∀ v ∈ readValues operands, v ∈ f.definedValues := by
  rw [checkUses, rejectSome_eq_ok, List.find?_eq_none]
  simp [readValues]

theorem checkExits_eq_ok {f : Function} {b : Block} :
    checkExits f b = .ok () ↔
      b.terminator.isSome ∧ ∀ s ∈ b.successors, s ∈ f.blocks.map Block.id := by
  unfold checkExits
  cases h : b.terminator with
  | none => simp [bind, Except.bind, throw, throwThe, MonadExceptOf.throw]
  | some t =>
    simp [rejectSome_eq_ok]

/-- The blocks that lead to a block are blocks of the function. -/
theorem mem_predecessors {f : Function} {a b : BlockId} :
    a ∈ predecessors f b ↔ ∃ c ∈ f.blocks, b ∈ c.successors ∧ c.id = a := by
  simp [predecessors, and_assoc]

theorem predecessors_subset {f : Function} {a b : BlockId} (h : a ∈ predecessors f b) :
    a ∈ f.blocks.map Block.id := by
  obtain ⟨c, hc, -, rfl⟩ := mem_predecessors.1 h
  exact List.mem_map_of_mem hc

/-- A listed block passes if it leads to the phi's block; that it exists
follows. -/
theorem checkIncoming_eq_ok {f : Function} {b : Block} {i : Instruction} {a : BlockId} :
    checkIncoming f b i a = .ok () ↔ a ∈ predecessors f b.id := by
  unfold checkIncoming
  split
  · rename_i h
    simpa using fun hp => h (predecessors_subset hp)
  · split <;> simp_all

/-! ## Instructions and blocks -/

variable {p : Program} {f : Function} {b : Block}

theorem checkOperation_eq_ok {afterOther : Bool} {i : Instruction} :
    checkOperation p f b afterOther i = .ok () ↔
      (afterOther → ¬ i.isPhi) ∧
      (∀ l, i.operation = .phi l → ∀ e ∈ l, e.1 ∈ predecessors f b.id) ∧
      ∀ callee args, i.operation = .call callee args →
        ∀ g, p.function? callee = some g → g.arity = args.length := by
  unfold checkOperation Instruction.isPhi
  cases h : i.operation with
  | call callee args =>
    cases hg : p.function? callee with
    | none => simp [hg]
    | some g => by_cases ha : g.arity = args.length <;> simp [hg, ha]
  | copy source => simp
  | phi incoming =>
    cases afterOther with
    | true => simp [bind, Except.bind, throw, throwThe, MonadExceptOf.throw]
    | false => simp [checkAll_eq_ok, checkIncoming_eq_ok]

theorem checkInstruction_eq_ok {afterOther : Bool} {i : Instruction} :
    checkInstruction p f b afterOther i = .ok () ↔
      (afterOther → ¬ i.isPhi) ∧ i.WellFormed p f b := by
  unfold checkInstruction
  by_cases ht : i.result.isSome = decide (i.type = .void)
  · rw [if_pos ht]
    constructor
    · intro h
      cases h
    · rintro ⟨-, w⟩
      have := w.typed
      by_cases hv : i.type = .void <;> simp_all
  · rw [if_neg ht]
    have typed : i.result.isSome ↔ i.type ≠ .void := by
      cases hr : i.result <;> by_cases hv : i.type = .void <;> simp_all
    change (checkUses f i.operands >>= fun _ => _) = _ ↔ _
    rw [bind_eq_ok, checkUses_eq_ok, checkOperation_eq_ok]
    constructor
    · rintro ⟨reads, place, incoming, arity⟩
      exact ⟨place, typed, reads, incoming, arity⟩
    · rintro ⟨place, w⟩
      exact ⟨w.reads, place, w.incoming, w.arity⟩

/-- `afterOther` forbids phis from the start; otherwise they only have to
stand in front. -/
theorem checkInstructions_eq_ok {afterOther : Bool} {l : List Instruction} :
    checkInstructions p f b afterOther l = .ok () ↔
      (afterOther → ∀ i ∈ l, ¬ i.isPhi) ∧ (∀ i ∈ l, i.WellFormed p f b) ∧
        l.Pairwise fun i j => j.isPhi → i.isPhi := by
  induction l generalizing afterOther with
  | nil => simp [checkInstructions]
  | cons i l ih =>
    simp only [checkInstructions, bind_eq_ok, checkInstruction_eq_ok, ih, List.forall_mem_cons,
      List.pairwise_cons, Bool.or_eq_true, Bool.not_eq_true']
    constructor
    · rintro ⟨⟨place, wi⟩, after, wl, first⟩
      refine ⟨fun h => ⟨place h, after (.inl h)⟩, ⟨wi, wl⟩, fun j hj hp => ?_, first⟩
      cases hi : i.isPhi with
      | true => rfl
      | false => exact absurd hp (after (.inr hi) j hj)
    · rintro ⟨place, ⟨wi, wl⟩, before, first⟩
      refine ⟨⟨fun h => (place h).1, wi⟩, ?_, wl, first⟩
      rintro (h | h) j hj hp
      · exact (place h).2 j hj hp
      · simp [before j hj hp] at h

theorem checkBlock_eq_ok :
    checkBlock p f b = .ok () ↔
      (∀ i ∈ b.instructions, i.WellFormed p f b) ∧
        b.instructions.Pairwise (fun i j => j.isPhi → i.isPhi) ∧
          ∀ v ∈ readValues b.exitOperands, v ∈ f.definedValues := by
  change (checkInstructions p f b false b.instructions >>= fun _ => _) = _ ↔ _
  rw [bind_eq_ok, checkInstructions_eq_ok, checkUses_eq_ok]
  simp [and_assoc]

/-! ## Definitions and programs -/

theorem checkDefinition_eq_ok {defined : List ValueId} :
    checkDefinition p defined f = .ok () ↔
      f.WellFormed p ∧ f.definedValues.Nodup ∧ ∀ v ∈ f.definedValues, v ∉ defined := by
  simp only [checkDefinition, bind_eq_ok, rejectSome_eq_ok, firstRepeat?_eq_none, checkAll_eq_ok,
    checkExits_eq_ok, checkBlock_eq_ok]
  constructor
  · rintro ⟨⟨ids, -⟩, exits, ⟨values, fresh⟩, bodies⟩
    refine ⟨⟨ids, fun b hb => ?_⟩, values, fresh⟩
    obtain ⟨ends, exits⟩ := exits b hb
    obtain ⟨instructions, first, reads⟩ := bodies b hb
    exact ⟨ends, exits, instructions, first, reads⟩
  · rintro ⟨w, values, fresh⟩
    refine ⟨⟨w.ids, by simp⟩, fun b hb => ?_, ⟨values, fresh⟩, fun b hb => ?_⟩
    · exact ⟨(w.blocks b hb).ends, (w.blocks b hb).exits⟩
    · exact ⟨(w.blocks b hb).instructions, (w.blocks b hb).phisFirst, (w.blocks b hb).reads⟩

theorem checkDefinitions_eq_ok {defined : List ValueId} {l : List Function} :
    checkDefinitions p defined l = .ok () ↔
      (∀ f ∈ l, f.WellFormed p) ∧ (l.flatMap Function.definedValues).Nodup ∧
        ∀ v ∈ l.flatMap Function.definedValues, v ∉ defined := by
  induction l generalizing defined with
  | nil => simp [checkDefinitions]
  | cons f l ih =>
    simp only [checkDefinitions, bind_eq_ok, checkDefinition_eq_ok, ih, List.forall_mem_cons,
      List.flatMap_cons, List.nodup_append, List.mem_append, not_or]
    constructor
    · rintro ⟨⟨wf, nf, ff⟩, wl, nl, fl⟩
      refine ⟨⟨wf, wl⟩, ⟨nf, nl, fun v hv u hu e => (fl u hu).2 (e ▸ hv)⟩, fun v hv => ?_⟩
      rcases hv with hv | hv
      · exact ff v hv
      · exact (fl v hv).1
    · rintro ⟨⟨wf, wl⟩, ⟨nf, nl, apart⟩, fresh⟩
      exact ⟨⟨wf, nf, fun v hv => fresh v (.inl hv)⟩, wl, nl, fun v hv =>
        ⟨fresh v (.inr hv), fun h => apart v h v hv rfl⟩⟩

end Verify

/-- **Verification accepts exactly the well-formed programs.** -/
theorem Program.verify_eq_ok_iff {p : Program} : p.verify = .ok () ↔ p.WellFormed := by
  simp only [Program.verify, Verify.bind_eq_ok, Verify.rejectSome_eq_ok,
    Verify.firstRepeat?_eq_none, Verify.checkDefinitions_eq_ok]
  constructor
  · rintro ⟨⟨names, -⟩, definitions, values, -⟩
    exact ⟨names, values, definitions⟩
  · rintro ⟨names, values, definitions⟩
    exact ⟨⟨names, by simp⟩, definitions, values, by simp⟩

/-- The values of a definition are told apart. -/
theorem Program.WellFormed.nodup_definedValues {p : Program} (h : p.WellFormed) {f : Function}
    (hf : f ∈ p.definitions) : f.definedValues.Nodup := by
  obtain ⟨l₁, l₂, hsplit⟩ := List.append_of_mem hf
  have := h.values
  rw [hsplit, List.flatMap_append, List.flatMap_cons] at this
  exact (List.nodup_append.1 (List.nodup_append.1 this).2.1).1

/-- An instruction reads values of its definition. -/
theorem Program.WellFormed.instruction_reads {p : Program} (h : p.WellFormed) {f : Function}
    (hf : f ∈ p.definitions) {i : Instruction} (hi : i ∈ f.instructions) {v : ValueId}
    (hv : v ∈ readValues i.operands) : v ∈ f.definedValues := by
  obtain ⟨b, hb, hib⟩ := List.mem_flatMap.1 hi
  exact (((h.definitions f hf).blocks b hb).instructions i hib).reads v hv

end QuantumLowering
