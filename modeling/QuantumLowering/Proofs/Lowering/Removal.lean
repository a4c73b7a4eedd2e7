import QuantumLowering.Proofs.Lowering.Run
import QuantumLowering.Proofs.Lowering.Unused
/-!
# What removal leaves behind

Removal takes the greatest set of candidates that may go, so nothing left
behind reads a value that went (`unread_removable`), and the value of a
candidate that stays is read by what is left
(`reads_of_not_mem_removable`). With the substitution before it, this is
what `Lowering.exists_finished` says of the last step of lowering.
-/


namespace QuantumLowering

namespace Function

variable {f : Function} {sites : List Site} {v : ValueId}

/-- A function reads a value if an instruction or a terminator does. -/
def Reads (f : Function) (v : ValueId) : Prop :=
  (∃ i ∈ f.instructions, v ∈ readValues i.operands) ∨ v ∈ readValues f.exitOperands

/-- What is read outside of some sites is what is read once they are
erased. -/
theorem reads_erase : (f.erase sites).Reads v ↔ f.ReadOutside sites.toFinset v := by
  rw [← mem_usedOutside]
  simp only [Reads, erase_eq, mem_instructions_rewrite, exitOperands_rewrite, usedOutside,
    List.map_id, List.filterMap_append, List.mem_append, readValues]
  refine or_congr ?_ Iff.rfl
  simp only [List.mem_filterMap, List.mem_flatMap, List.mem_filter]
  constructor
  · rintro ⟨i, ⟨e, he, hi⟩, o, ho, hv⟩
    by_cases hs : e.1 ∈ sites
    · simp [hs] at hi
    · simp only [hs, if_false, Option.some.injEq] at hi
      exact ⟨o, ⟨e, ⟨he, by simpa using hs⟩, hi ▸ ho⟩, hv⟩
  · rintro ⟨o, ⟨e, ⟨he, hs⟩, ho⟩, hv⟩
    refine ⟨e.2, ⟨e, he, ?_⟩, o, ho, hv⟩
    simp at hs
    simp [hs]

/-- Erasing makes a function read less. -/
theorem reads_of_reads_erase (h : (f.erase sites).Reads v) : f.Reads v := by
  rw [erase_eq] at h
  rcases h with ⟨i, hi, hv⟩ | hv
  · obtain ⟨e, he, hi⟩ := mem_instructions_rewrite.1 hi
    split at hi
    · cases hi
    · obtain rfl := Option.some.inj hi
      exact .inl ⟨e.2, mem_instructions.2 ⟨e.1, he⟩, hv⟩
  · rw [exitOperands_rewrite, List.map_id] at hv
    exact .inr hv

/-! ## Removing -/

/-- **Candidates go together** if nothing outside of them reads their values. -/
theorem removable_of_unread {together : List Site} (h : together ⊆ sites)
    (unread : ∀ s ∈ together, ∀ v, f.resultAt? s = some v → ¬ (f.erase together).Reads v) :
    together ⊆ f.removable sites := by
  have may : f.MayGo together.toFinset := fun s hs v hv read =>
    unread s (List.mem_toFinset.1 hs) v hv (reads_erase.2 read)
  have chosen : together.toFinset ⊆ sites.toFinset := fun s hs =>
    List.mem_toFinset.2 (h (List.mem_toFinset.1 hs))
  intro s hs
  exact List.mem_toFinset.1
    ((isGreatest_removable f sites).2 ⟨chosen, may⟩ (List.mem_toFinset.2 hs))

/-- **Nothing left behind reads a value that went.** -/
theorem unread_removable {s : Site} (h : s ∈ f.removable sites) (hv : f.resultAt? s = some v) :
    ¬ (f.removeUnused sites).Reads v := fun reads =>
  (isGreatest_removable f sites).1.2 s (List.mem_toFinset.2 h) v hv (reads_erase.1 reads)

/-- **The value of a candidate that stays is read** by what is left behind. -/
theorem reads_of_not_mem_removable {s : Site} (h : s ∈ sites) (hs : s ∉ f.removable sites) :
    ∃ v, f.resultAt? s = some v ∧ (f.removeUnused sites).Reads v := by
  obtain ⟨v, hv, read⟩ := readOutside_of_isGreatest (isGreatest_removable f sites)
    (List.mem_toFinset.2 h) (mt List.mem_toFinset.1 hs)
  exact ⟨v, hv, reads_erase.2 read⟩

/-- What a site computes after a change that drops nothing. -/
theorem resultAt?_rewrite {change : Site × Instruction → Instruction} {σ : Operand → Operand}
    {e : Site × Instruction} (he : e ∈ f.located) :
    (f.rewrite (fun e => some (change e)) σ).resultAt? e.1 = (change e).result := by
  obtain ⟨b, hb, hi⟩ := exists_block_of_located he
  simp only [resultAt?, instruction?, getElem?_blocks_rewrite, hb, Option.map_some,
    Option.bind_some]
  have : (b.rewrite (fun e => some (change e)) σ e.1.block).instructions[e.1.index]? =
      some (change e) := by
    simp [Block.rewrite, Block.located, hi]
  simp [this]

end Function

/-! ## Substitution -/

theorem Operand.substitute_value {resolve : ValueId → Option Operand} {v : ValueId} :
    (Operand.value v).substitute resolve = (resolve v).getD (.value v) := rfl

theorem Operand.substitute_constant {resolve : ValueId → Option Operand} {o : Operand}
    (h : o.isConstant) : o.substitute resolve = o := by
  cases o <;> first | rfl | simp [isConstant, value?] at h

/-- Where constants are put in place of values, what is still read is read
before and has none. -/
theorem Operand.substitute_eq_value {resolve : ValueId → Option Operand}
    (hc : ∀ v o, resolve v = some o → o.isConstant) {o : Operand} {v : ValueId}
    (h : o.substitute resolve = .value v) : o = .value v ∧ resolve v = none := by
  by_cases ho : o.isConstant
  · rw [substitute_constant ho] at h
    subst h
    simp [isConstant, value?] at ho
  · cases o with
    | value u =>
      rw [substitute_value] at h
      cases hu : resolve u with
      | none =>
        obtain rfl : u = v := by simpa [hu] using h
        exact ⟨rfl, hu⟩
      | some c =>
        have := hc u c hu
        simp_all [isConstant, value?]
    | _ => simp [isConstant, value?] at ho

theorem Function.not_reads_substitute {f : Function} {resolve : ValueId → Option Operand}
    (hc : ∀ v o, resolve v = some o → o.isConstant) {v : ValueId} (hv : (resolve v).isSome) :
    ¬ (f.substitute resolve).Reads v := by
  have key : ∀ ops : List Operand, v ∉ readValues (ops.map (Operand.substitute resolve)) := by
    intro ops h
    obtain ⟨o, -, ho⟩ := List.mem_map.1 (mem_readValues.1 h)
    simp [(Operand.substitute_eq_value hc ho).2] at hv
  rw [substitute_eq]
  rintro (⟨i, hi, h⟩ | h)
  · obtain ⟨e, -, hi⟩ := mem_instructions_rewrite.1 hi
    obtain rfl := Option.some.inj hi
    rw [Instruction.operands_mapOperands] at h
    exact key _ h
  · rw [exitOperands_rewrite] at h
    exact key _ h

/-! ## The last step of lowering -/

namespace Lowering

/-- **What the last step makes of a function** whose instructions were
changed before it. -/
structure Finished (resolve : ValueId → Option Operand)
    (change : Site × Instruction → Instruction) (candidates : List Site) (f g : Function)
    (gone : List Site) : Prop where
  /-- Constants stand in place of values, and some instructions went. -/
  eq : g = f.rewrite
    (fun e => if e.1 ∈ gone then none
      else some ((change e).mapOperands (Operand.substitute resolve)))
    (Operand.substitute resolve)
  /-- Only candidates went. -/
  chosen : ∀ s ∈ gone, s ∈ candidates
  /-- Nothing reads a value that went. -/
  unread : ∀ e ∈ f.located, e.1 ∈ gone → ∀ v, (change e).result = some v → ¬ g.Reads v
  /-- Nothing reads a value that has an address. -/
  resolved : ∀ v, (resolve v).isSome → ¬ g.Reads v
  /-- The value of a candidate that stays is read. -/
  kept : ∀ e ∈ f.located, e.1 ∈ candidates → e.1 ∉ gone →
    ∃ v, (change e).result = some v ∧ g.Reads v

theorem Finished.isDeclaration {resolve : ValueId → Option Operand}
    {change : Site × Instruction → Instruction} {candidates gone : List Site} {f g : Function}
    (h : Finished resolve change candidates f g gone) : g.isDeclaration = f.isDeclaration := by
  rw [h.eq, Function.isDeclaration_rewrite]

theorem Finished.attributes {resolve : ValueId → Option Operand}
    {change : Site × Instruction → Instruction} {candidates gone : List Site} {f g : Function}
    (h : Finished resolve change candidates f g gone) : g.attributes = f.attributes := by
  rw [h.eq]
  rfl

theorem Finished.name {resolve : ValueId → Option Operand}
    {change : Site × Instruction → Instruction} {candidates gone : List Site} {f g : Function}
    (h : Finished resolve change candidates f g gone) : g.name = f.name := by
  rw [h.eq]
  rfl

/-- A candidate went if its value has an address. -/
theorem Finished.complete {resolve : ValueId → Option Operand}
    {change : Site × Instruction → Instruction} {candidates gone : List Site} {f g : Function}
    (h : Finished resolve change candidates f g gone) {e : Site × Instruction} (he : e ∈ f.located)
    (hc : e.1 ∈ candidates) (hv : ∀ v, (change e).result = some v → (resolve v).isSome) :
    e.1 ∈ gone := by
  by_contra hstays
  obtain ⟨v, hresult, reads⟩ := h.kept e he hc hstays
  exact h.resolved v (hv v hresult) reads

/-- What is left are the instructions that did not go. -/
theorem Finished.mem_instructions_iff {resolve : ValueId → Option Operand}
    {change : Site × Instruction → Instruction} {candidates gone : List Site} {f g : Function}
    (h : Finished resolve change candidates f g gone) {j : Instruction} :
    j ∈ g.instructions ↔ ∃ e ∈ f.located, e.1 ∉ gone ∧
      (change e).mapOperands (Operand.substitute resolve) = j := by
  simp [h.eq, Function.mem_instructions_rewrite]

section Picked

variable {α : Type} {step : Stock → Instruction → Draw α} {s s' s₁ s₂ : Stock}
variable {resolve : ValueId → Option Operand} {change : Site × Instruction → Instruction}
variable {f g : Function} {ds : List (Site × α)} {gone : List Site} {P : α → Bool}
variable {e : Site × Instruction} {a : α}

/-- An instruction whose decision picks it goes if its value has an
address. -/
theorem Finished.mem_gone
    (h : Finished resolve change ((ds.filter fun d => P d.2).map Prod.fst) f g gone)
    (visit : Decides.Visit step s f ds s' e s₁ s₂ a) (he : e ∈ f.located) (ha : P a = true)
    (hv : ∀ v, (change e).result = some v → (resolve v).isSome) : e.1 ∈ gone :=
  h.complete he ((mem_picked visit.decision).2 ha) hv

/-- An instruction whose decision does not pick it stays. -/
theorem Finished.not_mem_gone
    (h : Finished resolve change ((ds.filter fun d => P d.2).map Prod.fst) f g gone)
    (visit : Decides.Visit step s f ds s' e s₁ s₂ a) (ha : P a = false) : e.1 ∉ gone := by
  intro hgone
  have picked := (mem_picked visit.decision).1 (h.chosen e.1 hgone)
  rw [ha] at picked
  cases picked

/-- An instruction that no decision picks stays, whatever values the function defines. -/
theorem Finished.not_mem_gone_of_forall
    (h : Finished resolve change ((ds.filter fun d => P d.2).map Prod.fst) f g gone)
    (decides : Decides step s f.visited ds s') (he : e ∈ f.located)
    (idle : ∀ s₁ s₂ a, step s₁ e.2 = (s₂, .ok a) → P a = false) : e.1 ∉ gone := by
  intro hgone
  obtain ⟨⟨x, a⟩, hmem, hx⟩ := List.mem_map.1 (h.chosen e.1 hgone)
  obtain ⟨hds, hpicked⟩ := List.mem_filter.1 hmem
  obtain ⟨i, s₁, s₂, hi, -, hstep⟩ :=
    decides.exists_step_of_mem (P := fun _ => True) trivial (fun _ _ _ _ _ _ _ => trivial) hds
  have hi := Function.mem_visited.1 hi
  obtain rfl : (x, i) = e := List.inj_on_of_nodup_map Function.nodup_located hi he hx
  rw [idle s₁ s₂ a hstep] at hpicked
  cases hpicked

end Picked

/-- **Substituting and removing is such a step.** -/
theorem finished_removable {resolve : ValueId → Option Operand}
    (hc : ∀ v o, resolve v = some o → o.isConstant)
    {change : Site × Instruction → Instruction} (candidates : List Site) {f f' : Function}
    (hf : f' = f.rewrite (fun e => some (change e)) id) :
    Finished resolve change candidates f ((f'.substitute resolve).removeUnused candidates)
      ((f'.substitute resolve).removable candidates) := by
  have hs : f'.substitute resolve =
      f.rewrite (fun e => some ((change e).mapOperands (Operand.substitute resolve)))
        (Operand.substitute resolve) := by
    rw [hf, Function.substitute_eq, Function.rewrite_rewrite]
    rfl
  have hresult : ∀ e ∈ f.located, (f'.substitute resolve).resultAt? e.1 = (change e).result := by
    intro e he
    rw [hs, Function.resultAt?_rewrite he, Instruction.result_mapOperands]
  have hread : ∀ v, (resolve v).isSome → ¬ (f'.substitute resolve).Reads v :=
    fun v hv => Function.not_reads_substitute hc hv
  refine ⟨?_, ?_, ?_, ?_, ?_⟩
  · rw [Function.removeUnused, Function.erase_eq, hs, Function.rewrite_rewrite]
    rfl
  · exact fun s => Function.removable_subset
  · intro e he hgone v hv
    exact Function.unread_removable hgone ((hresult e he).trans hv)
  · exact fun v hv h => hread v hv (Function.reads_of_reads_erase h)
  · intro e he hcand hstays
    obtain ⟨v, hv, reads⟩ := Function.reads_of_not_mem_removable hcand hstays
    exact ⟨v, (hresult e he).symm.trans hv, reads⟩

theorem exists_finished {resolve : ValueId → Option Operand}
    (hc : ∀ v o, resolve v = some o → o.isConstant)
    {change : Site × Instruction → Instruction} (candidates : List Site) {f f' : Function}
    (hf : f' = f.rewrite (fun e => some (change e)) id) :
    ∃ gone, Finished resolve change candidates f
      ((f'.substitute resolve).removeUnused candidates) gone :=
  ⟨_, finished_removable hc candidates hf⟩

end Lowering

end QuantumLowering
