import Mathlib.Logic.Relation
import QuantumLowering.Proofs.ControlFlow.Search
/-!
# Walks through a function

A walk goes from the first block along branches; it may go round a cycle
any number of times. Blocks are named by their positions, the latest
first, as in a walk that is still going on. Dominance is said of walks: a
block dominates another if no walk gets to the other without it.
-/


namespace QuantumLowering

namespace Function

variable {f : Function}

/-! ## Positions -/

/-- The position of the first block. -/
def entry? (f : Function) : Option ℕ := f.blocks.head?.bind fun b => f.position? b.id

/-- A position that a name stands for holds a block of that name. -/
theorem exists_block_of_position? {id : BlockId} {k : ℕ} (h : f.position? id = some k) :
    ∃ b, f.blocks[k]? = some b ∧ b.id = id := by
  obtain ⟨e, he, rfl⟩ := Option.map_eq_some_iff.1 h
  refine ⟨e.1, ?_, by simpa using List.find?_some he⟩
  exact List.mem_zipIdx_iff_getElem?.1 (List.mem_reverse.1 (List.mem_of_find?_eq_some he))

theorem position?_lt {id : BlockId} {k : ℕ} (h : f.position? id = some k) :
    k < f.blocks.length := by
  obtain ⟨b, hb, -⟩ := exists_block_of_position? h
  exact (List.getElem?_eq_some_iff.1 hb).1

/-- Every name of a block stands for a position. -/
theorem exists_position? {b : Block} (h : b ∈ f.blocks) : ∃ k, f.position? b.id = some k := by
  obtain ⟨k, hk⟩ := List.mem_iff_getElem?.1 h
  have hmem : (b, k) ∈ f.blocks.zipIdx.reverse := by
    simpa [List.mk_mem_zipIdx_iff_getElem?] using hk
  cases hf : f.blocks.zipIdx.reverse.find? (fun e => decide (e.1.id = b.id)) with
  | none =>
    have := List.find?_eq_none.1 hf _ hmem
    simp at this
  | some e => exact ⟨e.2, by simp [position?, hf]⟩

/-- Where blocks are named apart, two of one name are at one position. -/
theorem position_unique (ids : (f.blocks.map Block.id).Nodup) {k l : ℕ} {b c : Block}
    (hb : f.blocks[k]? = some b) (hc : f.blocks[l]? = some c) (h : b.id = c.id) : k = l := by
  obtain ⟨hk, rfl⟩ := List.getElem?_eq_some_iff.1 hb
  obtain ⟨hl, rfl⟩ := List.getElem?_eq_some_iff.1 hc
  have hk' : k < (f.blocks.map Block.id).length := by simpa using hk
  have hl' : l < (f.blocks.map Block.id).length := by simpa using hl
  have hid : (f.blocks.map Block.id)[k] = (f.blocks.map Block.id)[l] := by simpa using h
  exact (List.getElem_inj ids).1 hid

/-- Where blocks are named apart, a name stands for the position of its
block. -/
theorem position?_eq (ids : (f.blocks.map Block.id).Nodup) {k : ℕ} {b : Block}
    (hb : f.blocks[k]? = some b) : f.position? b.id = some k := by
  obtain ⟨l, hl⟩ := exists_position? (List.mem_of_getElem? hb)
  obtain ⟨c, hc, hid⟩ := exists_block_of_position? hl
  rw [hl, position_unique ids hb hc hid.symm]

/-! ## Edges -/

/-- An edge goes from a block to one of its successors. -/
theorem exists_of_edge {k l : ℕ} (h : ControlFlow.Edge f.edges k l) :
    ∃ b s, b ∈ f.blocks ∧ f.position? b.id = some k ∧ s ∈ b.successors ∧
      f.position? s = some l := by
  obtain ⟨b, hb, hm⟩ := List.mem_flatMap.1 h
  cases hk : f.position? b.id with
  | none => simp [hk] at hm
  | some k' =>
    simp only [hk, List.mem_map, List.mem_filterMap, Prod.mk.injEq] at hm
    obtain ⟨l', ⟨s, hs, hl⟩, rfl, rfl⟩ := hm
    exact ⟨b, s, hb, hk, hs, hl⟩

theorem edge_lt {k l : ℕ} (h : ControlFlow.Edge f.edges k l) : l < f.blocks.length := by
  obtain ⟨_, _, _, _, _, hl⟩ := exists_of_edge h
  exact position?_lt hl

/-- Where blocks are named apart, there is an edge exactly to the
positions of a block's successors. -/
theorem edge_iff (ids : (f.blocks.map Block.id).Nodup) {k l : ℕ} {b : Block}
    (hb : f.blocks[k]? = some b) :
    ControlFlow.Edge f.edges k l ↔ ∃ c, f.blocks[l]? = some c ∧ c.id ∈ b.successors := by
  constructor
  · intro h
    obtain ⟨b', s, hmem, hk, hs, hl⟩ := exists_of_edge h
    obtain ⟨b'', hb'', hid⟩ := exists_block_of_position? hk
    obtain ⟨c, hc, rfl⟩ := exists_block_of_position? hl
    obtain rfl : b'' = b := by simpa [hb''] using hb
    refine ⟨c, hc, ?_⟩
    have : b' = b'' := by
      obtain ⟨m, hm⟩ := List.mem_iff_getElem?.1 hmem
      rw [position_unique ids hm hb'' hid.symm, hb''] at hm
      exact (Option.some.inj hm).symm
    exact this ▸ hs
  · rintro ⟨c, hc, hs⟩
    refine List.mem_flatMap.2 ⟨b, List.mem_of_getElem? hb, ?_⟩
    rw [position?_eq ids hb]
    exact List.mem_map.2 ⟨l, List.mem_filterMap.2 ⟨c.id, hs, position?_eq ids hc⟩, rfl⟩

/-! ## Shape -/

/-- The names of the blocks with those of their successors. -/
def shape (f : Function) : List (BlockId × List BlockId) :=
  f.blocks.map fun b => (b.id, b.successors)

/-- The names in the shape. -/
theorem shape_ids : f.shape.map Prod.fst = f.blocks.map Block.id := by
  simp [shape, Function.comp_def]

theorem position?_eq_shape {id : BlockId} :
    f.position? id = ((f.shape.zipIdx.reverse.find? fun e => e.1.1 = id).map Prod.snd) := by
  simp [shape, position?, List.zipIdx_map, List.find?_map, ← List.map_reverse, Function.comp_def]

theorem edges_eq_shape :
    f.edges = f.shape.flatMap fun e =>
      match f.position? e.1 with
      | some source => (e.2.filterMap f.position?).map fun target => (source, target)
      | none => [] := by
  rw [shape, List.flatMap_map]
  rfl

variable {g : Function}

theorem position?_congr (h : g.shape = f.shape) : g.position? = f.position? := by
  funext id
  rw [position?_eq_shape, position?_eq_shape, h]

/-- **The control flow of a function depends on its shape alone.** -/
theorem edges_congr (h : g.shape = f.shape) : g.edges = f.edges := by
  rw [edges_eq_shape, edges_eq_shape, position?_congr h, h]

theorem entry?_congr (h : g.shape = f.shape) : g.entry? = f.entry? := by
  have head : ∀ f : Function, f.entry? = (f.shape.head?.map Prod.fst).bind f.position? := by
    intro f
    unfold entry? shape
    cases f.blocks <;> rfl
  rw [head, head, position?_congr h, h]

theorem reversePostOrder_congr (h : g.shape = f.shape) :
    g.reversePostOrder = f.reversePostOrder := by
  have hlen : g.blocks.length = f.blocks.length := by simpa [shape] using congrArg List.length h
  have hreach : g.reachableOrder = f.reachableOrder := by
    have he := entry?_congr h
    unfold entry? at he
    simp only [reachableOrder, he, edges_congr h, hlen]
  simp only [reversePostOrder, hreach, hlen]

/-! ## Walks -/

/-- **A walk**: the positions of the blocks it went through, the latest
first. -/
inductive Walk (f : Function) : List ℕ → Prop
  /-- It starts with the first block. -/
  | start {k : ℕ} : f.entry? = some k → Walk f [k]
  /-- It goes on along a branch. -/
  | step {k l : ℕ} {w : List ℕ} :
    Walk f (k :: w) → ControlFlow.Edge f.edges k l → Walk f (l :: k :: w)

/-- Functions of one shape have the same walks. -/
theorem Walk.congr (h : g.shape = f.shape) {w : List ℕ} (hw : Walk f w) : Walk g w := by
  induction hw with
  | start he => exact .start ((entry?_congr h).trans he)
  | step _ edge ih => exact .step ih ((edges_congr h).symm ▸ edge)

/-- A walk gets to a position if some walk ends there. -/
def Reachable (f : Function) (k : ℕ) : Prop := ∃ w, Walk f (k :: w)

/-- **Dominance**: no walk gets to a position without going through the
other. -/
def Dominates (f : Function) (k l : ℕ) : Prop := ∀ w, Walk f (l :: w) → k ∈ l :: w

theorem reachable_iff {k : ℕ} :
    f.Reachable k ↔ ∃ e, f.entry? = some e ∧ ControlFlow.Reaches f.edges e k := by
  constructor
  · rintro ⟨w, hw⟩
    induction w generalizing k with
    | nil =>
      cases hw with
      | start h => exact ⟨k, h, .refl⟩
    | cons l w ih =>
      cases hw with
      | step h edge =>
        obtain ⟨e, he, hr⟩ := ih h
        exact ⟨e, he, hr.tail edge⟩
  · rintro ⟨e, he, hr⟩
    induction hr with
    | refl => exact ⟨[], .start he⟩
    | tail _ edge ih =>
      obtain ⟨w, hw⟩ := ih
      exact ⟨_, .step hw edge⟩

/-- Every position that a walk went through leads to where it is. -/
theorem Walk.reaches {k : ℕ} {w : List ℕ} (h : Walk f (k :: w)) :
    ∀ l ∈ k :: w, ControlFlow.Reaches f.edges l k := by
  induction w generalizing k with
  | nil =>
    intro l hl
    obtain rfl := List.mem_singleton.1 hl
    exact .refl
  | cons m w ih =>
    cases h with
    | step h edge =>
      intro l hl
      rcases List.mem_cons.1 hl with rfl | hl
      · exact .refl
      · exact (ih h l hl).tail edge

/-- Every walk went through the first block. -/
theorem Walk.entry_mem {e : ℕ} {w : List ℕ} (h : Walk f w) (he : f.entry? = some e) : e ∈ w := by
  induction h with
  | start he' =>
    obtain rfl := Option.some.inj (he.symm.trans he')
    exact List.mem_singleton_self e
  | step _ _ ih => exact List.mem_cons_of_mem _ ih

/-- A walk left every position but the last along an edge. -/
theorem Walk.exists_next {k a : ℕ} {w : List ℕ} (h : Walk f (k :: w)) (ha : a ∈ w) :
    ∃ b ∈ k :: w, ControlFlow.Edge f.edges a b := by
  induction w generalizing k with
  | nil => simp at ha
  | cons m w ih =>
    cases h with
    | step h edge =>
      rcases List.mem_cons.1 ha with rfl | ha
      · exact ⟨k, List.mem_cons_self, edge⟩
      · obtain ⟨b, hb, hab⟩ := ih h ha
        exact ⟨b, List.mem_cons_of_mem k hb, hab⟩

end Function

end QuantumLowering
