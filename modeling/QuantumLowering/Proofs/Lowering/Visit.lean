import Mathlib.Data.List.Pairwise
import Mathlib.Data.List.Perm.Basic
import QuantumLowering.Lowering.Site
import QuantumLowering.Proofs.ControlFlow.Order
/-!
# What lowering visits

Lowering visits every instruction once: the instructions in the order of
visits are those in the order of the blocks, rearranged
(`visited_perm`). Which of two comes first is told by their sites
(`VisitedBefore`).
-/


namespace QuantumLowering

namespace Block

variable {b : Block}

theorem mem_located {k : ℕ} {s : Site} {i : Instruction} :
    (s, i) ∈ b.located k ↔ s.block = k ∧ b.instructions[s.index]? = some i := by
  simp only [located, List.mem_map, List.mem_zipIdx_iff_getElem?, Prod.exists, Prod.mk.injEq]
  constructor
  · rintro ⟨j, n, hn, rfl, rfl⟩
    exact ⟨rfl, hn⟩
  · rintro ⟨rfl, h⟩
    exact ⟨i, s.index, h, rfl, rfl⟩

@[simp] theorem map_snd_located {k : ℕ} : (b.located k).map Prod.snd = b.instructions := by
  simp [located, Function.comp_def, List.zipIdx_map_fst]

/-- The sites of a block are told apart. -/
theorem nodup_located {k : ℕ} : ((b.located k).map Prod.fst).Nodup := by
  have h : (b.instructions.zipIdx.map Prod.snd).Nodup := by
    rw [List.zipIdx_map_snd]
    exact List.nodup_range'
  rw [located, List.map_map, List.Nodup, List.pairwise_map]
  exact (List.pairwise_map.1 h).imp fun h e => h (by simpa using congrArg Site.index e)

end Block

namespace Function

variable {f : Function}

/-- The instructions at a position, with their sites. -/
def locatedAt (f : Function) (k : ℕ) : List (Site × Instruction) :=
  match f.blocks[k]? with
  | some b => b.located k
  | none => []

theorem visited_eq : f.visited = f.reversePostOrder.flatMap f.locatedAt := rfl

theorem located_eq : f.located = (List.range f.blocks.length).flatMap f.locatedAt := by
  rw [located, List.flatMap, List.flatMap]
  congr 1
  refine List.ext_getElem (by simp) fun k hk hk' => ?_
  have hlt : k < f.blocks.length := by simpa using hk
  simp [locatedAt, hlt]

/-- **Every instruction is visited once.** -/
theorem visited_perm : f.visited.Perm f.located := by
  rw [visited_eq, located_eq]
  exact reversePostOrder_perm.flatMap_right _

theorem mem_visited {e : Site × Instruction} : e ∈ f.visited ↔ e ∈ f.located :=
  visited_perm.mem_iff

theorem mem_locatedAt {k : ℕ} {s : Site} {i : Instruction} :
    (s, i) ∈ f.locatedAt k ↔ s.block = k ∧ f.instruction? s = some i := by
  unfold locatedAt instruction?
  cases hb : f.blocks[k]? with
  | none =>
    simp only [List.not_mem_nil, false_iff, not_and]
    rintro rfl
    simp [hb]
  | some b =>
    rw [Block.mem_located]
    constructor
    · rintro ⟨rfl, h⟩
      exact ⟨rfl, by simpa [hb] using h⟩
    · rintro ⟨rfl, h⟩
      exact ⟨rfl, by simpa [hb] using h⟩

theorem mem_located {s : Site} {i : Instruction} :
    (s, i) ∈ f.located ↔ f.instruction? s = some i := by
  simp only [located_eq, List.mem_flatMap, List.mem_range, mem_locatedAt]
  constructor
  · rintro ⟨k, -, -, h⟩
    exact h
  · intro h
    obtain ⟨b, hb, -⟩ := Option.bind_eq_some_iff.1 h
    exact ⟨s.block, (List.getElem?_eq_some_iff.1 hb).1, rfl, h⟩

@[simp] theorem map_snd_located : f.located.map Prod.snd = f.instructions := by
  rw [located, List.map_flatMap, instructions]
  simp only [Block.map_snd_located]
  conv_rhs => rw [← List.zipIdx_map_fst 0 f.blocks, List.flatMap_map]

theorem mem_instructions {i : Instruction} :
    i ∈ f.instructions ↔ ∃ s, (s, i) ∈ f.located := by
  rw [← map_snd_located, List.mem_map]
  constructor
  · rintro ⟨⟨s, j⟩, h, rfl⟩
    exact ⟨s, h⟩
  · rintro ⟨s, h⟩
    exact ⟨(s, i), h, rfl⟩

/-- An instruction at a site stands in a block. -/
theorem exists_block_of_located {s : Site} {i : Instruction} (h : (s, i) ∈ f.located) :
    ∃ b, f.blocks[s.block]? = some b ∧ b.instructions[s.index]? = some i :=
  Option.bind_eq_some_iff.1 (mem_located.1 h)

/-- The instructions of a block stand in the function. -/
theorem mem_located_of_block {k : ℕ} {b : Block} (hb : f.blocks[k]? = some b)
    {e : Site × Instruction} (he : e ∈ b.located k) : e ∈ f.located := by
  obtain ⟨s, i⟩ := e
  obtain ⟨rfl, hi⟩ := Block.mem_located.1 he
  exact mem_located.2 (by simp [instruction?, hb, hi])

/-- The values computed by the instructions visited are those computed in
the order of the blocks, rearranged. -/
theorem visited_results_perm :
    (f.visited.filterMap fun e => e.2.result).Perm
      (f.instructions.filterMap Instruction.result) := by
  rw [← map_snd_located, List.filterMap_map]
  exact visited_perm.filterMap _

/-- Where values are told apart, each is computed at one site. -/
theorem nodup_visited_results (h : f.definedValues.Nodup) :
    (f.visited.filterMap fun e => e.2.result).Nodup :=
  visited_results_perm.nodup_iff.2 (List.nodup_append.1 h).2.1

/-- The sites visited are told apart. -/
theorem nodup_visited : (f.visited.map Prod.fst).Nodup := by
  rw [visited_eq, List.map_flatMap, List.nodup_flatMap]
  constructor
  · intro k _
    unfold locatedAt
    cases f.blocks[k]? with
    | none => simp
    | some b => exact Block.nodup_located
  · refine nodup_reversePostOrder.imp fun {k l} hne s hk hl => hne ?_
    obtain ⟨⟨s, i⟩, hi, rfl⟩ := List.mem_map.1 hk
    obtain ⟨⟨s', j⟩, hj, rfl⟩ := List.mem_map.1 hl
    rw [← (mem_locatedAt.1 hi).1, ← (mem_locatedAt.1 hj).1]

/-- What is defined at a site is defined in the function. -/
theorem result_mem_definedValues {e : Site × Instruction} {v : ValueId} (h : e ∈ f.located)
    (hv : e.2.result = some v) : v ∈ f.definedValues :=
  List.mem_append_right _ (List.mem_filterMap.2 ⟨e.2, mem_instructions.2 ⟨e.1, h⟩, hv⟩)

/-- Where values are told apart, a value names the site that computes
it. -/
theorem located_eq_of_result (h : f.definedValues.Nodup) {d e : Site × Instruction} {v : ValueId}
    (hd : d ∈ f.located) (he : e ∈ f.located) (hdv : d.2.result = some v)
    (hev : e.2.result = some v) : d = e := by
  by_contra hne
  have apart := List.pairwise_filterMap.1 (nodup_visited_results h)
  have : Std.Symm fun a b : Site × Instruction =>
      ∀ u, a.2.result = some u → ∀ w, b.2.result = some w → u ≠ w :=
    ⟨fun a b hab u hu w hw => (hab w hw u hu).symm⟩
  exact apart.forall (mem_visited.2 hd) (mem_visited.2 he) hne v hdv v hev rfl

/-! ## The order of visits -/

/-- The instructions of a block are listed by index. -/
theorem pairwise_locatedAt {k : ℕ} :
    (f.locatedAt k).Pairwise fun e d => e.1.index < d.1.index := by
  unfold locatedAt
  split
  · rename_i b _
    rw [Block.located, List.pairwise_map]
    have h : (b.instructions.zipIdx.map Prod.snd).Pairwise (· < ·) := by
      rw [List.zipIdx_map_snd]
      exact List.pairwise_lt_range'
    exact List.pairwise_map.1 h
  · exact .nil

/-- **One site is visited before another**: it comes earlier in the same block, or
its block comes earlier. -/
def VisitedBefore (f : Function) (d e : Site) : Prop :=
  d.block = e.block ∧ d.index < e.index ∨ ControlFlow.Before f.reversePostOrder d.block e.block

theorem VisitedBefore.asymm {d e : Site} (h : f.VisitedBefore d e) : ¬ f.VisitedBefore e d := by
  rintro (⟨hb, hi⟩ | hb)
  · rcases h with ⟨-, hi'⟩ | hb'
    · omega
    · exact hb'.ne hb.symm
  · rcases h with ⟨hb', -⟩ | hb'
    · exact hb.ne hb'.symm
    · exact hb.asymm hb'

/-- **Sites are visited in that order.** -/
theorem pairwise_visited : f.visited.Pairwise fun d e => f.VisitedBefore d.1 e.1 := by
  have block : ∀ {k e}, e ∈ f.locatedAt k → e.1.block = k := fun h => (mem_locatedAt.1 h).1
  rw [visited_eq, List.pairwise_flatMap]
  constructor
  · intro k _
    exact pairwise_locatedAt.imp_of_mem fun hd he hlt =>
      .inl ⟨(block hd).trans (block he).symm, hlt⟩
  · refine (ControlFlow.pairwise_before nodup_reversePostOrder).imp fun {k l} hkl d hd e he => ?_
    obtain rfl := block hd
    obtain rfl := block he
    exact .inr hkl

/-- Nothing from a visit on is visited before it. -/
theorem not_visitedBefore_of_mem {l₁ l₂ : List (Site × Instruction)} {d e : Site × Instruction}
    (h : f.visited = l₁ ++ e :: l₂) (hd : d ∈ e :: l₂) : ¬ f.VisitedBefore d.1 e.1 := by
  have order : (l₁ ++ e :: l₂).Pairwise fun d e => f.VisitedBefore d.1 e.1 := h ▸ pairwise_visited
  obtain ⟨-, behind, -⟩ := List.pairwise_append.1 order
  intro hde
  rcases List.mem_cons.1 hd with rfl | hl₂
  · exact hde.asymm hde
  · exact hde.asymm ((List.pairwise_cons.1 behind).1 d hl₂)

/-- What stands in front of a visit is visited before it. -/
theorem visitedBefore_of_mem {l₁ l₂ : List (Site × Instruction)} {d e : Site × Instruction}
    (h : f.visited = l₁ ++ e :: l₂) (hd : d ∈ l₁) : f.VisitedBefore d.1 e.1 := by
  have order : (l₁ ++ e :: l₂).Pairwise fun d e => f.VisitedBefore d.1 e.1 := h ▸ pairwise_visited
  exact (List.pairwise_append.1 order).2.2 d hd e List.mem_cons_self

end Function

end QuantumLowering
