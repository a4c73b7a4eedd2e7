import Mathlib.Data.List.Nodup
import QuantumLowering.Proofs.Program.WellFormed
/-!
# Defects

A defect names a place where a condition of well-formed programs is
violated. `Defect.Holds` says of each kind of defect what it claims, without
the order in which verification looks. What verification reports holds, so
a program is well formed exactly if no defect holds of it
(`Program.verify_decides`).
-/


namespace QuantumLowering

/-! ## What a defect claims -/

namespace Function

variable (f : Function)

/-- A terminator or a phi of the function names a block. -/
def NamesBlock (id : BlockId) : Prop :=
  ∃ b ∈ f.blocks, id ∈ b.successors ∨
    ∃ i ∈ b.instructions, ∃ incoming, i.operation = .phi incoming ∧ id ∈ incoming.map Prod.fst

/-- A phi of the function follows an instruction of another kind. It is named by
its value, or by the largest number if it has none. -/
def MisplacesPhi (v : ValueId) : Prop :=
  ∃ b ∈ f.blocks, ∃ before i after, b.instructions = before ++ i :: after ∧
    i.isPhi ∧ i.result.getD ⟨numberLimit - 1⟩ = v ∧ ∃ j ∈ before, ¬ j.isPhi

/-- A phi of the function lists a block of the function that does not lead to its
own. -/
def MisleadsPhi (v : ValueId) (id : BlockId) : Prop :=
  ∃ b ∈ f.blocks, ∃ i ∈ b.instructions, ∃ incoming, i.operation = .phi incoming ∧
    i.result.getD ⟨numberLimit - 1⟩ = v ∧ id ∈ incoming.map Prod.fst ∧
      id ∈ f.blocks.map Block.id ∧ ∀ c ∈ f.blocks, c.id = id → b.id ∉ c.successors

/-- An instruction of the function has a value but no type for it, or a type but no
value. -/
def Mistypes (instruction : String) : Prop :=
  ∃ i ∈ f.instructions, i.name = instruction ∧ (i.result.isSome ↔ i.type = .void)

/-- The function passes so many arguments to another one. -/
def Passes (callee : String) (got : ℕ) : Prop :=
  ∃ i ∈ f.instructions, ∃ args, i.operation = .call callee args ∧ args.length = got

end Function

/-- **A defect holds of a program**: the program violates the condition that the
defect stands for, at the place that it names. -/
def Defect.Holds (p : Program) : Defect → Prop
  | duplicateFunction name => 2 ≤ (p.functions.map Function.name).count name
  | duplicateBlock name id =>
    ∃ f ∈ p.definitions, f.name = name ∧ 2 ≤ (f.blocks.map Block.id).count id
  | missingTerminator name id =>
    ∃ f ∈ p.definitions, f.name = name ∧ ∃ b ∈ f.blocks, b.id = id ∧ b.terminator = none
  | unknownBlock name id =>
    ∃ f ∈ p.definitions, f.name = name ∧ f.NamesBlock id ∧ id ∉ f.blocks.map Block.id
  | duplicateDefinition v => 2 ≤ (p.definitions.flatMap Function.definedValues).count v
  | undefinedValue name v =>
    ∃ f ∈ p.definitions, f.name = name ∧ v ∈ readValues f.operands ∧ v ∉ f.definedValues
  | misplacedPhi name v => ∃ f ∈ p.definitions, f.name = name ∧ f.MisplacesPhi v
  | phiPredecessor name v id => ∃ f ∈ p.definitions, f.name = name ∧ f.MisleadsPhi v id
  | resultTypeMismatch name instruction =>
    ∃ f ∈ p.definitions, f.name = name ∧ f.Mistypes instruction
  | arityMismatch callee expected got =>
    (∃ g ∈ p.functions, g.name = callee ∧ g.arity = expected) ∧
      (∃ f ∈ p.definitions, f.Passes callee got) ∧ expected ≠ got

/-! ## Operands of a function -/

/-- The values that a function reads are read by an instruction or a terminator of
one of its blocks. -/
theorem Function.mem_readValues_operands {f : Function} {v : ValueId} :
    v ∈ readValues f.operands ↔ ∃ b ∈ f.blocks,
      (∃ i ∈ b.instructions, v ∈ readValues i.operands) ∨ v ∈ readValues b.exitOperands := by
  simp only [readValues, operands, List.mem_filterMap, List.mem_flatMap, List.mem_append]
  constructor
  · rintro ⟨o, ⟨b, hb, ⟨i, hi, ho⟩ | ho⟩, hv⟩
    · exact ⟨b, hb, .inl ⟨i, hi, o, ho, hv⟩⟩
    · exact ⟨b, hb, .inr ⟨o, ho, hv⟩⟩
  · rintro ⟨b, hb, ⟨i, hi, o, ho, hv⟩ | ⟨o, ho, hv⟩⟩
    · exact ⟨o, ⟨b, hb, .inl ⟨i, hi, ho⟩⟩, hv⟩
    · exact ⟨o, ⟨b, hb, .inr ho⟩, hv⟩

/-! ## What is reported holds -/

namespace Verify

variable {α : Type} {d : Defect}

/-- One check after another fails where the first does, or else where the second
does. -/
theorem bind_eq_error {x : Except Defect Unit} {g : Unit → Except Defect Unit} :
    (x >>= g) = .error d ↔ x = .error d ∨ x = .ok () ∧ g () = .error d := by
  cases x <;> simp [bind, Except.bind]

theorem rejectSome_eq_error {found : Option α} {defect : α → Defect} :
    rejectSome found defect = .error d ↔ ∃ a, found = some a ∧ defect a = d := by
  cases found <;> simp [rejectSome]

/-- If checking a list fails, the check of an item does. -/
theorem exists_of_checkAll {check : α → Except Defect Unit} {l : List α}
    (h : checkAll check l = .error d) : ∃ a ∈ l, check a = .error d := by
  induction l with
  | nil => cases h
  | cons a l ih =>
    rcases bind_eq_error.1 h with h | ⟨-, h⟩
    · exact ⟨a, List.mem_cons_self, h⟩
    · obtain ⟨b, hb, h⟩ := ih h
      exact ⟨b, List.mem_cons_of_mem a hb, h⟩

/-- The item found stands twice in the list and what was seen before it. -/
theorem two_le_count_of_firstRepeat? [DecidableEq α] {seen l : List α} {a : α}
    (h : firstRepeat? seen l = some a) : 2 ≤ (seen ++ l).count a := by
  induction l generalizing seen with
  | nil => cases h
  | cons b l ih =>
    unfold firstRepeat? at h
    split at h
    · rename_i hb
      cases h
      have := List.count_pos_iff.2 hb
      rw [List.count_append, List.count_cons_self]
      omega
    · rw [(List.perm_middle : (seen ++ b :: l).Perm (b :: (seen ++ l))).count_eq]
      exact ih h

section Function

variable {p : Program} {f : Function} {b : Block} {i : Instruction}

theorem holds_of_checkUses (hf : f ∈ p.definitions) {operands : List Operand}
    (used : ∀ v ∈ readValues operands, v ∈ readValues f.operands)
    (h : checkUses f operands = .error d) : d.Holds p := by
  obtain ⟨v, hv, rfl⟩ := rejectSome_eq_error.1 h
  have undefined := List.find?_some hv
  exact ⟨f, hf, rfl, used v (List.mem_of_find?_eq_some hv), by simpa using undefined⟩

theorem holds_of_checkExits (hf : f ∈ p.definitions) (hb : b ∈ f.blocks)
    (h : checkExits f b = .error d) : d.Holds p := by
  unfold checkExits at h
  cases ht : b.terminator with
  | none =>
    simp only [ht, Option.isNone_none, if_true] at h
    cases h
    exact ⟨f, hf, rfl, b, hb, rfl, ht⟩
  | some t =>
    simp only [ht, Option.isNone_some, Bool.false_eq_true, if_false] at h
    obtain ⟨s, hs, rfl⟩ := rejectSome_eq_error.1 h
    have unknown := List.find?_some hs
    exact ⟨f, hf, rfl, ⟨b, hb, .inl (List.mem_of_find?_eq_some hs)⟩, by simpa using unknown⟩

theorem holds_of_checkIncoming (hf : f ∈ p.definitions) (hb : b ∈ f.blocks)
    (hi : i ∈ b.instructions) {incoming : List (BlockId × Operand)}
    (hop : i.operation = .phi incoming) {id : BlockId} (hid : id ∈ incoming.map Prod.fst)
    (h : checkIncoming f b i id = .error d) : d.Holds p := by
  unfold checkIncoming at h
  split at h
  · rename_i unknown
    cases h
    exact ⟨f, hf, rfl, ⟨b, hb, .inr ⟨i, hi, incoming, hop, hid⟩⟩, unknown⟩
  · rename_i known
    split at h
    · rename_i misled
      cases h
      refine ⟨f, hf, rfl, b, hb, i, hi, incoming, hop, rfl, hid, not_not.1 known, ?_⟩
      rintro c hc rfl hlead
      exact misled (mem_predecessors.2 ⟨c, hc, hlead, rfl⟩)
    · cases h

/-- `afterOther` tells of an instruction in front that is no phi. -/
theorem holds_of_checkOperation (hf : f ∈ p.definitions) (hb : b ∈ f.blocks)
    {before after : List Instruction} (split : b.instructions = before ++ i :: after)
    {afterOther : Bool} (other : afterOther → ∃ j ∈ before, ¬ j.isPhi)
    (h : checkOperation p f b afterOther i = .error d) : d.Holds p := by
  have hi : i ∈ b.instructions := by simp [split]
  unfold checkOperation at h
  cases hop : i.operation with
  | copy source => simp [hop] at h
  | phi incoming =>
    simp only [hop] at h
    cases afterOther with
    | true =>
      cases h
      exact ⟨f, hf, rfl, b, hb, before, i, after, split, by simp [Instruction.isPhi, hop], rfl,
        other rfl⟩
    | false =>
      obtain ⟨id, hid, h⟩ := exists_of_checkAll h
      exact holds_of_checkIncoming hf hb hi hop hid h
  | call callee args =>
    simp only [hop] at h
    cases hg : p.function? callee with
    | none => simp [hg] at h
    | some g =>
      simp only [hg] at h
      split at h
      · cases h
      · rename_i hne
        cases h
        have hname := List.find?_some hg
        exact ⟨⟨g, List.mem_of_find?_eq_some hg, by simpa using hname, rfl⟩,
          ⟨f, hf, i, List.mem_flatMap.2 ⟨b, hb, hi⟩, args, hop, rfl⟩, hne⟩

theorem holds_of_checkInstruction (hf : f ∈ p.definitions) (hb : b ∈ f.blocks)
    {before after : List Instruction} (split : b.instructions = before ++ i :: after)
    {afterOther : Bool} (other : afterOther → ∃ j ∈ before, ¬ j.isPhi)
    (h : checkInstruction p f b afterOther i = .error d) : d.Holds p := by
  have hi : i ∈ b.instructions := by simp [split]
  unfold checkInstruction at h
  by_cases ht : i.result.isSome = decide (i.type = .void)
  · rw [if_pos ht] at h
    cases h
    exact ⟨f, hf, rfl, i, List.mem_flatMap.2 ⟨b, hb, hi⟩, rfl, by simp [ht]⟩
  · rw [if_neg ht] at h
    change (checkUses f i.operands >>= fun _ => _) = _ at h
    rcases bind_eq_error.1 h with h | ⟨-, h⟩
    · exact holds_of_checkUses hf
        (fun v hv => Function.mem_readValues_operands.2 ⟨b, hb, .inl ⟨i, hi, hv⟩⟩) h
    · exact holds_of_checkOperation hf hb split other h

/-- The instructions checked so far stand in front of the others. -/
theorem holds_of_checkInstructions (hf : f ∈ p.definitions) (hb : b ∈ f.blocks)
    (before : List Instruction) {l : List Instruction} (split : b.instructions = before ++ l)
    {afterOther : Bool} (other : afterOther → ∃ j ∈ before, ¬ j.isPhi)
    (h : checkInstructions p f b afterOther l = .error d) : d.Holds p := by
  induction l generalizing before afterOther with
  | nil => cases h
  | cons i l ih =>
    rcases bind_eq_error.1 h with h | ⟨-, h⟩
    · exact holds_of_checkInstruction hf hb split other h
    · refine ih (before ++ [i]) (by simp [split]) (fun hother => ?_) h
      rcases Bool.or_eq_true_iff.1 hother with hother | hi
      · obtain ⟨j, hj, hphi⟩ := other hother
        exact ⟨j, List.mem_append_left _ hj, hphi⟩
      · exact ⟨i, by simp, by simpa using hi⟩

theorem holds_of_checkBlock (hf : f ∈ p.definitions) (hb : b ∈ f.blocks)
    (h : checkBlock p f b = .error d) : d.Holds p := by
  rcases bind_eq_error.1 h with h | ⟨-, h⟩
  · exact holds_of_checkInstructions hf hb [] rfl (by simp) h
  · exact holds_of_checkUses hf
      (fun v hv => Function.mem_readValues_operands.2 ⟨b, hb, .inr hv⟩) h

/-- The values seen are those of the definitions in front. -/
theorem holds_of_checkDefinition {fs gs : List Function} (split : p.definitions = fs ++ f :: gs)
    (h : checkDefinition p (fs.flatMap Function.definedValues) f = .error d) : d.Holds p := by
  have hf : f ∈ p.definitions := by simp [split]
  rcases bind_eq_error.1 h with h | ⟨-, h⟩
  · obtain ⟨id, hid, rfl⟩ := rejectSome_eq_error.1 h
    exact ⟨f, hf, rfl, by simpa using two_le_count_of_firstRepeat? hid⟩
  rcases bind_eq_error.1 h with h | ⟨-, h⟩
  · obtain ⟨b, hb, h⟩ := exists_of_checkAll h
    exact holds_of_checkExits hf hb h
  rcases bind_eq_error.1 h with h | ⟨-, h⟩
  · obtain ⟨v, hv, rfl⟩ := rejectSome_eq_error.1 h
    have twice := two_le_count_of_firstRepeat? hv
    change 2 ≤ (p.definitions.flatMap Function.definedValues).count v
    rw [split, List.flatMap_append, List.flatMap_cons, ← List.append_assoc, List.count_append]
    exact Nat.le_trans twice (Nat.le_add_right _ _)
  · obtain ⟨b, hb, h⟩ := exists_of_checkAll h
    exact holds_of_checkBlock hf hb h

theorem holds_of_checkDefinitions (fs : List Function) {gs : List Function}
    (split : p.definitions = fs ++ gs)
    (h : checkDefinitions p (fs.flatMap Function.definedValues) gs = .error d) : d.Holds p := by
  induction gs generalizing fs with
  | nil => cases h
  | cons f gs ih =>
    rcases bind_eq_error.1 h with h | ⟨-, h⟩
    · exact holds_of_checkDefinition split h
    · exact ih (fs ++ [f]) (by simp [split]) (by simpa using h)

end Function

end Verify

/-- **What verification reports holds of the program.** -/
theorem Program.holds_of_verify {p : Program} {d : Defect} (h : p.verify = .error d) :
    d.Holds p := by
  rcases Verify.bind_eq_error.1 h with h | ⟨-, h⟩
  · obtain ⟨name, hname, rfl⟩ := Verify.rejectSome_eq_error.1 h
    change 2 ≤ ([] ++ p.functions.map Function.name).count name
    exact Verify.two_le_count_of_firstRepeat? hname
  · exact Verify.holds_of_checkDefinitions [] rfl h

/-! ## A well-formed program has none -/

/-- Where names are told apart, a function is the first one of its name. -/
theorem Program.function?_eq_of_nodup {p : Program}
    (nodup : (p.functions.map Function.name).Nodup) {g : Function} (hg : g ∈ p.functions) :
    p.function? g.name = some g := by
  cases h : p.function? g.name with
  | none =>
    have hne := List.find?_eq_none.1 h g hg
    simp at hne
  | some g' =>
    have hname : g'.name = g.name := by simpa using List.find?_some h
    rw [List.inj_on_of_nodup_map nodup (List.mem_of_find?_eq_some h) hg hname]

/-- Nothing stands twice in a list without duplicates. -/
theorem not_two_le_count {α : Type} [DecidableEq α] {l : List α} (nodup : l.Nodup) (a : α) :
    ¬ 2 ≤ l.count a := by
  have := List.nodup_iff_count_le_one.1 nodup a
  omega

theorem Program.WellFormed.not_holds {p : Program} (h : p.WellFormed) (d : Defect) :
    ¬ d.Holds p := by
  cases d with
  | duplicateFunction name => exact not_two_le_count h.names name
  | duplicateBlock name id =>
    rintro ⟨f, hf, -, twice⟩
    exact not_two_le_count (h.definitions f hf).ids id twice
  | missingTerminator name id =>
    rintro ⟨f, hf, -, b, hb, -, unterminated⟩
    have := ((h.definitions f hf).blocks b hb).ends
    simp [unterminated] at this
  | unknownBlock name id =>
    rintro ⟨f, hf, -, ⟨b, hb, hnames⟩, unknown⟩
    have wb := (h.definitions f hf).blocks b hb
    rcases hnames with exit | ⟨i, hi, incoming, hop, hid⟩
    · exact unknown (wb.exits id exit)
    · obtain ⟨e, he, rfl⟩ := List.mem_map.1 hid
      exact unknown (Verify.predecessors_subset ((wb.instructions i hi).incoming incoming hop e he))
  | duplicateDefinition v => exact not_two_le_count h.values v
  | undefinedValue name v =>
    rintro ⟨f, hf, -, hv, undefined⟩
    obtain ⟨b, hb, hv⟩ := Function.mem_readValues_operands.1 hv
    have wb := (h.definitions f hf).blocks b hb
    rcases hv with ⟨i, hi, hv⟩ | hv
    · exact undefined ((wb.instructions i hi).reads v hv)
    · exact undefined (wb.reads v hv)
  | misplacedPhi name v =>
    rintro ⟨f, hf, -, b, hb, before, i, after, split, hi, -, j, hj, other⟩
    have first := ((h.definitions f hf).blocks b hb).phisFirst
    rw [split] at first
    exact other ((List.pairwise_append.1 first).2.2 j hj i List.mem_cons_self hi)
  | phiPredecessor name v id =>
    rintro ⟨f, hf, -, b, hb, i, hi, incoming, hop, -, hid, -, misled⟩
    obtain ⟨e, he, rfl⟩ := List.mem_map.1 hid
    have leads := (((h.definitions f hf).blocks b hb).instructions i hi).incoming incoming hop e he
    obtain ⟨c, hc, hsucc, hce⟩ := Verify.mem_predecessors.1 leads
    exact misled c hc hce hsucc
  | resultTypeMismatch name instruction =>
    rintro ⟨f, hf, -, i, hi, -, mistyped⟩
    obtain ⟨b, hb, hi⟩ := List.mem_flatMap.1 hi
    have typed := (((h.definitions f hf).blocks b hb).instructions i hi).typed
    exact iff_not_self (mistyped.symm.trans typed)
  | arityMismatch callee expected got =>
    rintro ⟨⟨g, hg, rfl, rfl⟩, ⟨f, hf, i, hi, args, hop, rfl⟩, hne⟩
    obtain ⟨b, hb, hi⟩ := List.mem_flatMap.1 hi
    have arity := (((h.definitions f hf).blocks b hb).instructions i hi).arity
    exact hne (arity g.name args hop g (Program.function?_eq_of_nodup h.names hg))

/-- **Verification decides well-formedness and reports nothing false.** It accepts
exactly the well-formed programs. These are the programs of which no defect holds,
and what is reported of the others holds of them. -/
theorem Program.verify_decides (p : Program) :
    (p.verify = .ok () ↔ p.WellFormed) ∧ (p.WellFormed ↔ ∀ d : Defect, ¬ d.Holds p) ∧
      ∀ d, p.verify = .error d → d.Holds p := by
  refine ⟨verify_eq_ok_iff, ⟨WellFormed.not_holds, fun none => ?_⟩, fun d => holds_of_verify⟩
  cases h : p.verify with
  | ok u => exact verify_eq_ok_iff.1 h
  | error d => exact absurd (holds_of_verify h) (none d)

/-- A phi without a value is named by the largest number. -/
example : Program.verify ⟨"late phi", [⟨"main", [], [], .void, [
    ⟨⟨0⟩, "entry", [.call "f" [], ⟨none, .void, .phi []⟩], some (.ret none)⟩], .empty⟩],
    .empty, 0⟩ = .error (.misplacedPhi "main" ⟨numberLimit - 1⟩) := by
  decide

end QuantumLowering
