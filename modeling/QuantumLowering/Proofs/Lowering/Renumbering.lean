import QuantumLowering.Proofs.Lowering.Removal
/-!
# One change after another

A change that drops instructions moves those behind them to other sites
(`Function.renumber`). A second change finds an instruction at its new
site, so two changes in a row are one change (`rewrite_rewrite_renumber`).
Two changes are the same if they agree on what stands in the function
(`rewrite_congr`).
-/


namespace QuantumLowering

section Items

variable {α β : Type} {g : α → Option β}

/-- What is picked from a list stands behind as many items as were picked
before it. -/
theorem zipIdx_filterMap (l : List α) :
    (l.filterMap g).zipIdx = l.zipIdx.filterMap fun e =>
      (g e.1).map fun b => (b, (l.take e.2).countP fun a => (g a).isSome) := by
  induction l using List.reverseRecOn with
  | nil => rfl
  | append_singleton l a ih =>
    have front : ∀ e ∈ l.zipIdx, (l ++ [a]).take e.2 = l.take e.2 := by
      rintro ⟨b, n⟩ he
      obtain ⟨hn, -⟩ := List.getElem?_eq_some_iff.1 (List.mem_zipIdx_iff_getElem?.1 he)
      exact List.take_append_of_le_length hn.le
    rw [List.filterMap_append, List.zipIdx_append, List.zipIdx_append, List.filterMap_append, ih]
    congr 1
    · exact List.filterMap_congr fun e he => by rw [front e he]
    · cases ha : g a <;> simp [ha, List.countP_eq_length_filter, List.length_filterMap_eq_countP]

/-- Items that picking tells apart are told apart. -/
theorem eq_of_nodup_filterMap {l : List α} (h : (l.filterMap g).Nodup) {a a' : α} (ha : a ∈ l)
    (ha' : a' ∈ l) {b : β} (hb : g a = some b) (hb' : g a' = some b) : a = a' := by
  by_contra hne
  have apart := List.pairwise_filterMap.1 h
  have : Std.Symm fun a a' : α => ∀ b, g a = some b → ∀ b', g a' = some b' → b ≠ b' :=
    ⟨fun a a' h b hb b' hb' => (h b' hb' b hb).symm⟩
  exact apart.forall ha ha' hne b hb b hb' rfl

end Items

/-! ## Sites after a change -/

variable {fate fate' : Site × Instruction → Option Instruction} {σ σ' : Operand → Operand}

/-- Every instruction of a block has its place there. -/
theorem Block.zipIdx_located {b : Block} {k : ℕ} :
    (b.located k).zipIdx = (b.located k).map fun e => (e, e.1.index) :=
  List.ext_getElem (by simp) fun n hn hn' => by simp [located]

namespace Function

variable {f : Function}

/-- **The site at which an instruction stands after a change.** -/
def renumber (fate : Site × Instruction → Option Instruction) (f : Function) (s : Site) : Site :=
  ⟨s.block, ((f.locatedAt s.block).take s.index).countP fun e => (fate e).isSome⟩

/-- What becomes of an instruction, at its new site. -/
def moved (fate : Site × Instruction → Option Instruction) (f : Function)
    (e : Site × Instruction) : Option (Site × Instruction) :=
  (fate e).map fun j => (f.renumber fate e.1, j)

theorem moved_eq_some {e d : Site × Instruction} :
    f.moved fate e = some d ↔ fate e = some d.2 ∧ d.1 = f.renumber fate e.1 := by
  simp only [moved, Option.map_eq_some_iff, Prod.ext_iff]
  constructor
  · rintro ⟨j, hj, hs, hd⟩
    exact ⟨hj.trans (congrArg some hd), hs.symm⟩
  · exact fun ⟨hj, hs⟩ => ⟨d.2, hj, hs.symm, rfl⟩

theorem moved_eq_none {e : Site × Instruction} : f.moved fate e = none ↔ fate e = none :=
  Option.map_eq_none_iff

theorem locatedAt_rewrite {k : ℕ} :
    (f.rewrite fate σ).locatedAt k = (f.locatedAt k).filterMap (f.moved fate) := by
  cases hb : f.blocks[k]? with
  | none => simp [locatedAt, getElem?_blocks_rewrite, hb]
  | some b =>
    have hk : f.locatedAt k = b.located k := by simp [locatedAt, hb]
    have hk' : (f.rewrite fate σ).locatedAt k = (b.rewrite fate σ k).located k := by
      simp [locatedAt, getElem?_blocks_rewrite, hb]
    rw [hk, hk', Block.located, Block.rewrite, zipIdx_filterMap, Block.zipIdx_located,
      List.filterMap_map, List.map_filterMap]
    refine List.filterMap_congr fun e he => ?_
    obtain ⟨hs, -⟩ := Block.mem_located.1 he
    simp [moved, renumber, hs, hk, Function.comp_def]

/-- **What is visited after a change**, with its sites. -/
theorem visited_rewrite_moved :
    (f.rewrite fate σ).visited = f.visited.filterMap (f.moved fate) := by
  have located : (f.rewrite fate σ).locatedAt =
      fun k => (f.locatedAt k).filterMap (f.moved fate) := funext fun k => locatedAt_rewrite
  rw [visited_eq, visited_eq, List.filterMap_flatMap, reversePostOrder_congr shape_rewrite, located]

theorem mem_located_rewrite {d : Site × Instruction} :
    d ∈ (f.rewrite fate σ).located ↔ ∃ e ∈ f.located, f.moved fate e = some d := by
  rw [← mem_visited, visited_rewrite_moved, List.mem_filterMap]
  simp only [mem_visited]

/-- Instructions that are left are left at sites of their own. -/
theorem eq_of_renumber_eq {d e : Site × Instruction} (hd : d ∈ f.located) (he : e ∈ f.located)
    (hdf : (fate d).isSome) (hef : (fate e).isSome)
    (h : f.renumber fate d.1 = f.renumber fate e.1) : d = e := by
  have nodup : ((f.rewrite fate id).visited.map Prod.fst).Nodup := nodup_visited
  rw [visited_rewrite_moved, List.map_filterMap] at nodup
  refine eq_of_nodup_filterMap nodup (mem_visited.2 hd) (mem_visited.2 he) ?_ ?_
    (b := f.renumber fate e.1)
  · obtain ⟨j, hj⟩ := Option.isSome_iff_exists.1 hdf
    simp [moved, hj, h]
  · obtain ⟨j, hj⟩ := Option.isSome_iff_exists.1 hef
    simp [moved, hj]

/-- **Two changes in a row are one.** -/
theorem rewrite_rewrite_renumber :
    (f.rewrite fate σ).rewrite fate' σ' =
      f.rewrite (fun e => (f.moved fate e).bind fate') (σ' ∘ σ) := by
  have hb : ((f.rewrite fate σ).rewrite fate' σ').blocks =
      (f.rewrite (fun e => (f.moved fate e).bind fate') (σ' ∘ σ)).blocks := by
    refine List.ext_getElem? fun k => ?_
    rw [getElem?_blocks_rewrite, getElem?_blocks_rewrite, getElem?_blocks_rewrite, Option.map_map]
    cases hk : f.blocks[k]? with
    | none => rfl
    | some b =>
      have located : (b.rewrite fate σ k).located k = (b.located k).filterMap (f.moved fate) := by
        have whole : (f.rewrite fate σ).locatedAt k = _ := locatedAt_rewrite
        simpa only [locatedAt, getElem?_blocks_rewrite, hk, Option.map_some] using whole
      simp only [Option.map_some, Function.comp_apply, Option.some.injEq]
      rw [Block.rewrite, located, List.filterMap_filterMap]
      simp [Block.rewrite, Function.comp_def, Terminator.mapOperands_mapOperands]
  simp only [rewrite] at hb ⊢
  rw [hb]

end Function

namespace Function

/-- **Removing at other sites.** If some sites have sites of their own in another
function, where the same may go, computes the same and is read the same, then
the same goes. -/
theorem removable_iff_of_renumber {f g : Function} {r : Site → Site} {X : Site → Prop}
    {C C' : List Site} {B : List ValueId} (own : ∀ x y, X x → X y → r x = r y → x = y)
    (sites : ∀ x ∈ C, X x) (may : ∀ x, X x → (r x ∈ C' ↔ x ∈ C))
    (results : ∀ x ∈ C, g.resultAt? (r x) = f.resultAt? x)
    (bound : ∀ x ∈ C, ∀ v, f.resultAt? x = some v → v ∈ B)
    (reads : ∀ gone gone', (∀ x, X x → (r x ∈ gone' ↔ x ∈ gone)) → ∀ v ∈ B,
      ((g.erase gone').Reads v ↔ (f.erase gone).Reads v)) {x : Site} (hx : X x) :
    r x ∈ g.removable C' ↔ x ∈ f.removable C := by
  constructor
  · intro h
    have mirrors : ∀ y, X y → (r y ∈ g.removable C' ↔
        y ∈ C.filter fun y => r y ∈ g.removable C') := by
      intro y hy
      simp only [List.mem_filter, decide_eq_true_eq, iff_and_self]
      exact fun h => (may y hy).1 (removable_subset h)
    have together : (C.filter fun y => r y ∈ g.removable C') ⊆ f.removable C := by
      refine removable_of_unread (List.filter_subset_self C) fun y hy v hv hreads => ?_
      obtain ⟨hyC, hyr⟩ := List.mem_filter.1 hy
      exact unread_removable (of_decide_eq_true hyr) ((results y hyC).trans hv)
        ((reads _ _ mirrors v (bound y hyC v hv)).2 hreads)
    exact together ((mirrors x hx).1 h)
  · intro h
    have mirrors : ∀ y, X y → (r y ∈ (f.removable C).map r ↔ y ∈ f.removable C) := by
      intro y hy
      refine ⟨fun h => ?_, List.mem_map_of_mem⟩
      obtain ⟨z, hz, heq⟩ := List.mem_map.1 h
      exact own z y (sites z (removable_subset hz)) hy heq ▸ hz
    have together : (f.removable C).map r ⊆ g.removable C' := by
      refine removable_of_unread (fun y hy => ?_) fun y hy v hv hreads => ?_
      · obtain ⟨z, hz, rfl⟩ := List.mem_map.1 hy
        exact (may z (sites z (removable_subset hz))).2 (removable_subset hz)
      · obtain ⟨z, hz, rfl⟩ := List.mem_map.1 hy
        have hzC := removable_subset hz
        rw [results z hzC] at hv
        exact unread_removable hz hv ((reads _ _ mirrors v (bound z hzC v hv)).1 hreads)
    exact together (List.mem_map_of_mem h)

end Function

/-! ## Changes that agree -/

theorem Operation.mapOperands_congr {o : Operation} (h : ∀ a ∈ o.operands, σ a = σ' a) :
    o.mapOperands σ = o.mapOperands σ' := by
  cases o with
  | call callee args => exact congrArg (call callee) (List.map_congr_left h)
  | copy source => exact congrArg copy (h source List.mem_cons_self)
  | phi incoming =>
    refine congrArg phi (List.map_congr_left fun e he => ?_)
    rw [h e.2 (List.mem_map_of_mem he)]

/-- Only the operands of an instruction matter. -/
theorem Instruction.mapOperands_congr {i : Instruction} (h : ∀ a ∈ i.operands, σ a = σ' a) :
    i.mapOperands σ = i.mapOperands σ' := by
  rw [mapOperands, mapOperands, Operation.mapOperands_congr h]

theorem Instruction.mapOperands_mapOperands (i : Instruction) :
    (i.mapOperands σ).mapOperands σ' = i.mapOperands (σ' ∘ σ) := by
  simp [mapOperands, Operation.mapOperands_mapOperands]

theorem Terminator.mapOperands_congr {t : Terminator} (h : ∀ a ∈ t.operands, σ a = σ' a) :
    t.mapOperands σ = t.mapOperands σ' := by
  cases t with
  | ret value =>
    cases value with
    | none => rfl
    | some a => exact congrArg (fun b => ret (some b)) (h a List.mem_cons_self)
  | condBranch condition _ _ =>
    rw [mapOperands, mapOperands, h condition List.mem_cons_self]
  | _ => rfl

/-- **Only what stands in a function matters.** -/
theorem Function.rewrite_congr {f : Function} (instructions : ∀ e ∈ f.located, fate e = fate' e)
    (exits : ∀ a ∈ f.exitOperands, σ a = σ' a) : f.rewrite fate σ = f.rewrite fate' σ' := by
  have hb : ∀ e ∈ f.blocks.zipIdx, e.1.rewrite fate σ e.2 = e.1.rewrite fate' σ' e.2 := by
    rintro ⟨b, k⟩ he
    have hk : f.blocks[k]? = some b := List.mem_zipIdx_iff_getElem?.1 he
    have ends : b.terminator.map (Terminator.mapOperands σ) =
        b.terminator.map (Terminator.mapOperands σ') := by
      refine Option.map_congr fun t ht => Terminator.mapOperands_congr fun a ha => exits a ?_
      refine List.mem_flatMap.2 ⟨b, List.mem_of_getElem? hk, ?_⟩
      simpa [Block.exitOperands, Option.mem_def.1 ht] using ha
    rw [Block.rewrite, Block.rewrite, ends]
    congr 1
    exact List.filterMap_congr fun e he => instructions e (mem_located_of_block hk he)
  rw [rewrite, rewrite, List.map_congr_left hb]

/-- What a changed function reads. -/
theorem Function.reads_rewrite {f : Function} {v : ValueId} :
    (f.rewrite fate σ).Reads v ↔
      (∃ e ∈ f.located, ∃ j, fate e = some j ∧ .value v ∈ j.operands) ∨
        ∃ a ∈ f.exitOperands, σ a = .value v := by
  simp only [Reads, exitOperands_rewrite, mem_readValues, List.mem_map]
  refine or_congr ⟨?_, ?_⟩ Iff.rfl
  · rintro ⟨j, hj, hv⟩
    obtain ⟨e, he, hfate⟩ := mem_instructions_rewrite.1 hj
    exact ⟨e, he, j, hfate, hv⟩
  · rintro ⟨e, he, j, hfate, hv⟩
    exact ⟨j, mem_instructions_rewrite.2 ⟨e, he, hfate⟩, hv⟩

end QuantumLowering
