import QuantumLowering.Proofs.ControlFlow.Dominance
import QuantumLowering.Proofs.Lowering.Removal
/-!
# Definitions are visited before their uses

The order of visits respects dominance, so the definition of an operand is
visited before the instruction that reads it, if every use is dominated by
its definition. Only a phi can be visited before: of a value that comes in
along an edge on a cycle. Without cycles no instruction reads a value that
it or a later one computes (`Function.InOrder`). Lowering keeps that order:
it changes and removes instructions but moves none.
-/


namespace QuantumLowering

/-- An instruction reads what another computes. -/
def Instruction.ReadsFrom (i j : Instruction) : Prop :=
  ∃ v ∈ readValues i.operands, j.result = some v

/-- The operands of a phi with the blocks that it lists. -/
def Instruction.incoming (i : Instruction) : List (BlockId × Operand) :=
  match i.operation with
  | .phi incoming => incoming
  | _ => []

namespace Function

open ControlFlow

variable {f : Function}

/-- **One site dominates another**: it comes earlier in the same block, or
in another block that dominates. -/
def SiteDominates (f : Function) (d e : Site) : Prop :=
  d.block = e.block ∧ d.index < e.index ∨ d.block ≠ e.block ∧ f.Dominates d.block e.block

/-- **Instructions use what dominates them.** A phi uses a value at the end
of the block that it lists with it. -/
structure UsesDominated (f : Function) : Prop where
  /-- The definition of an operand dominates the instruction. -/
  operands : ∀ d ∈ f.located, ∀ e ∈ f.located, ∀ v, d.2.result = some v → e.2.isPhi = false →
    .value v ∈ e.2.operands → f.SiteDominates d.1 e.1
  /-- The definition of an operand of a phi dominates the end of the block
  that is listed with it. -/
  incoming : ∀ d ∈ f.located, ∀ e ∈ f.located, ∀ v, d.2.result = some v →
    ∀ l, e.2.operation = .phi l → ∀ b, (b, .value v) ∈ l → ∀ k, f.position? b = some k →
      f.Dominates d.1.block k

/-- **Instructions in order**: none reads what it or a later one computes. -/
structure InOrder (f : Function) : Prop where
  /-- No instruction reads what it computes. -/
  itself : ∀ e ∈ f.located, ¬ e.2.ReadsFrom e.2
  /-- No instruction reads what a later one computes. -/
  later : f.visited.Pairwise fun e d => ¬ e.2.ReadsFrom d.2

/-- The first block dominates every block. -/
theorem dominates_of_entry {k : ℕ} (h : f.entry? = some k) (l : ℕ) : f.Dominates k l :=
  fun _ hw => hw.entry_mem h

/-- **Uses are dominated** if every value is computed in the first block or where it is
used. -/
theorem usesDominated_of_first {k : ℕ} (hf : f.entry? = some k)
    (operands : ∀ d ∈ f.located, ∀ e ∈ f.located, ∀ v ∈ readValues e.2.operands,
      d.2.result = some v → e.2.isPhi = false →
        d.1.block = e.1.block ∧ d.1.index < e.1.index ∨
          d.1.block ≠ e.1.block ∧ d.1.block = k)
    (incoming : ∀ d ∈ f.located, ∀ e ∈ f.located, ∀ s ∈ e.2.incoming,
      s.2.value?.isSome → d.2.result = s.2.value? →
        d.1.block = k ∨ f.position? s.1 = some d.1.block) : f.UsesDominated where
  operands d hd e he v hv hphi hop := by
    refine (operands d hd e he v (mem_readValues.2 hop) hv hphi).imp_right fun ⟨hne, hfirst⟩ => ?_
    exact ⟨hne, hfirst ▸ dominates_of_entry hf _⟩
  incoming d hd e he v hv l hl b hb m hm := by
    have hmem : (b, Operand.value v) ∈ e.2.incoming := by rwa [Instruction.incoming, hl]
    rcases incoming d hd e he _ hmem rfl hv with hfirst | hpos
    · exact hfirst ▸ dominates_of_entry hf m
    · obtain rfl := Option.some.inj (hpos.symm.trans hm)
      exact fun w _ => List.mem_cons_self

/-! ## From dominance to the order -/

/-- What dominates a site is visited before it. -/
theorem SiteDominates.visitedBefore {d e : Site} (h : f.SiteDominates d e)
    (he : f.Reachable e.block) : f.VisitedBefore d e := by
  rcases h with hsame | ⟨hne, hdom⟩
  · exact .inl hsame
  · exact .inr ((eq_or_before_of_dominates he hdom).resolve_left hne).append

/-- The block of a phi follows those that it lists. -/
theorem edge_of_incoming {p : Program} (wf : f.WellFormed p) {e : Site × Instruction}
    (he : e ∈ f.located) {l : List (BlockId × Operand)} (hl : e.2.operation = .phi l)
    {b : BlockId} {o : Operand} (hb : (b, o) ∈ l) :
    ∃ k, f.position? b = some k ∧ k < f.blocks.length ∧ Edge f.edges k e.1.block := by
  obtain ⟨c, hc, hi⟩ := exists_block_of_located he
  have wc := wf.blocks c (List.mem_of_getElem? hc)
  have hpred := (wc.instructions e.2 (List.mem_of_getElem? hi)).incoming l hl _ hb
  obtain ⟨a, ha, hs, rfl⟩ := Verify.mem_predecessors.1 hpred
  obtain ⟨k, hk⟩ := List.mem_iff_getElem?.1 ha
  exact ⟨k, position?_eq wf.ids hk, (List.getElem?_eq_some_iff.1 hk).1,
    (edge_iff wf.ids hk).2 ⟨c, hc, hs⟩⟩

section Reads

variable {p : Program} (wf : f.WellFormed p) (reachable : ∀ k < f.blocks.length, f.Reachable k)
variable (dominated : f.UsesDominated) {d e : Site × Instruction} {v : ValueId}

include reachable

theorem reachable_of_located (he : e ∈ f.located) : f.Reachable e.1.block := by
  obtain ⟨b, hb, -⟩ := exists_block_of_located he
  exact reachable _ (List.getElem?_eq_some_iff.1 hb).1

include dominated

/-- **The definition of an operand is visited before.** -/
theorem visitedBefore_of_operand (hd : d ∈ f.located) (he : e ∈ f.located)
    (hv : d.2.result = some v) (hphi : e.2.isPhi = false) (hop : .value v ∈ e.2.operands) :
    f.VisitedBefore d.1 e.1 :=
  (dominated.operands d hd e he v hv hphi hop).visitedBefore (reachable_of_located reachable he)

/-- **An operand was found as it is in the end** when an instruction was visited that
is no phi. -/
theorem resolveAs?_eq_of_operand {α : Type} {step : Stock → Instruction → Draw α}
    {s s' s₁ s₂ : Stock} {ds : List (Site × α)} {a : α} (kind : ResourceKind)
    (visit : Lowering.Decides.Visit step s f ds s' e s₁ s₂ a) (he : e ∈ f.located)
    (hphi : e.2.isPhi = false) {op : Operand} (hop : op ∈ e.2.operands) :
    s₁.tracker.resolveAs? kind op = s'.tracker.resolveAs? kind op :=
  visit.resolveAs?_eq_of_visitedBefore fun _ hu _ hd hdu =>
    visitedBefore_of_operand reachable dominated hd he hdu hphi (hu ▸ hop)

include wf

/-- **The definition of an operand of a phi is visited before**, unless the operand
comes in along an edge on a cycle. -/
theorem visitedBefore_or_reaches_of_incoming (hd : d ∈ f.located) (he : e ∈ f.located)
    (hv : d.2.result = some v) {l : List (BlockId × Operand)} (hl : e.2.operation = .phi l)
    {b : BlockId} (hb : (b, .value v) ∈ l) :
    f.VisitedBefore d.1 e.1 ∨
      ∃ k, f.position? b = some k ∧ Edge f.edges k e.1.block ∧ Reaches f.edges e.1.block k := by
  obtain ⟨k, hk, hlt, edge⟩ := edge_of_incoming wf he hl hb
  refine or_iff_not_imp_right.2 fun forward => ?_
  have hdom := dominated.incoming d hd e he v hv l hl b hb k hk
  have hke : Before f.reversePostOrder k e.1.block :=
    before_of_edge (reachable k hlt) edge fun back => forward ⟨k, hk, edge, back⟩
  -- the block of the definition is the one that is listed or comes before it
  rcases eq_or_before_of_dominates (reachable k hlt) hdom with heq | hdk
  · exact .inr (heq ▸ hke)
  · exact .inr (hdk.append.trans hke)

/-- **What is read is computed in front**, where there are no cycles. -/
theorem visitedBefore_of_readsFrom (acyclic : Acyclic f.edges) (he : e ∈ f.located)
    (hd : d ∈ f.located) (h : e.2.ReadsFrom d.2) : f.VisitedBefore d.1 e.1 := by
  obtain ⟨v, hv, hdv⟩ := h
  rw [mem_readValues] at hv
  cases hphi : e.2.isPhi with
  | false => exact visitedBefore_of_operand reachable dominated hd he hdv hphi hv
  | true =>
    obtain ⟨l, hl⟩ : ∃ l, e.2.operation = .phi l := by
      unfold Instruction.isPhi at hphi
      split at hphi
      · exact ⟨_, ‹_›⟩
      · cases hphi
    obtain ⟨⟨b, o⟩, hb, rfl⟩ : ∃ s ∈ l, s.2 = .value v := by
      simpa [Instruction.operands, hl, Operation.operands] using hv
    refine (visitedBefore_or_reaches_of_incoming wf reachable dominated hd he hdv hl
      hb).resolve_right ?_
    rintro ⟨k, -, edge, back⟩
    exact acyclic k (Relation.TransGen.head' edge back)

/-- **Where uses are dominated and there are no cycles, instructions are visited in
order.** -/
theorem inOrder_of_dominated (acyclic : Acyclic f.edges) : f.InOrder := by
  have before := fun e he d hd => visitedBefore_of_readsFrom wf reachable dominated acyclic
    (e := e) (d := d) he hd
  refine ⟨fun e he h => (before e he e he h).asymm (before e he e he h), ?_⟩
  exact pairwise_visited.imp_of_mem fun he hd hed h =>
    hed.asymm (before _ (mem_visited.1 he) _ (mem_visited.1 hd) h)

end Reads

/-! ## What lowering keeps -/

/-- **Changes that add no uses and no values keep the order.** -/
theorem InOrder.rewrite (h : f.InOrder) {fate : Site × Instruction → Option Instruction}
    {σ : Operand → Operand}
    (reads : ∀ e ∈ f.located, ∀ j, fate e = some j → ∀ v ∈ readValues j.operands,
      v ∈ readValues e.2.operands)
    (results : ∀ e ∈ f.located, ∀ j, fate e = some j → ∀ v, j.result = some v →
      e.2.result = some v) : (f.rewrite fate σ).InOrder := by
  have key : ∀ {e d}, e ∈ f.located → d ∈ f.located → ∀ {i j}, fate e = some i →
      fate d = some j → i.ReadsFrom j → e.2.ReadsFrom d.2 := by
    rintro e d he hd i j hi hj ⟨v, hv, hjv⟩
    exact ⟨v, reads e he i hi v hv, results d hd j hj v hjv⟩
  constructor
  · rintro ⟨x, i⟩ hi hread
    obtain ⟨e, he, hfate⟩ := mem_instructions_rewrite.1 (mem_instructions.2 ⟨x, hi⟩)
    exact h.itself e he (key he he hfate hfate hread)
  · have visited : ((f.rewrite fate σ).visited.map Prod.snd).Pairwise fun i j =>
        ¬ i.ReadsFrom j := by
      rw [visited_rewrite, List.pairwise_filterMap]
      exact h.later.imp_of_mem fun he hd hnot i hi j hj hread =>
        hnot (key (mem_visited.1 he) (mem_visited.1 hd) hi hj hread)
    exact List.pairwise_map.1 visited

end Function

/-- The last step of lowering keeps the order if the change before it does. -/
theorem Lowering.Finished.inOrder {resolve : ValueId → Option Operand}
    {change : Site × Instruction → Instruction} {candidates gone : List Site} {f g : Function}
    (h : Finished resolve change candidates f g gone)
    (hc : ∀ v o, resolve v = some o → o.isConstant) (inOrder : f.InOrder)
    (reads : ∀ e ∈ f.located, ∀ v ∈ readValues (change e).operands, v ∈ readValues e.2.operands)
    (results : ∀ e ∈ f.located, ∀ v, (change e).result = some v → e.2.result = some v) :
    g.InOrder := by
  have stays : ∀ e j, (if e.1 ∈ gone then none
      else some ((change e).mapOperands (Operand.substitute resolve))) = some j →
      j = (change e).mapOperands (Operand.substitute resolve) := by
    intro e j hj
    split at hj
    · cases hj
    · exact (Option.some.inj hj).symm
  rw [h.eq]
  refine inOrder.rewrite (fun e he j hj v hv => ?_) fun e he j hj v hv => ?_
  · rw [stays e j hj, Instruction.operands_mapOperands, mem_readValues] at hv
    obtain ⟨o, ho, hov⟩ := List.mem_map.1 hv
    obtain ⟨rfl, -⟩ := Operand.substitute_eq_value hc hov
    exact reads e he v (mem_readValues.2 ho)
  · rw [stays e j hj] at hv
    exact results e he v hv

end QuantumLowering
