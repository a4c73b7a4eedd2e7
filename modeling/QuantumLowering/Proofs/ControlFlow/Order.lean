import Mathlib.Data.List.Basic
import QuantumLowering.Proofs.ControlFlow.Walk
/-!
# The order in which blocks are visited

The reverse post-order lists every position once, and the reachable ones
first. Without cycles an edge goes forward in it. A function that never
takes one of two ways has one longest walk, and the order begins with it
(`Walk.isPrefix_reversePostOrder`).
-/


namespace QuantumLowering

namespace ControlFlow

variable {edges : List (Nat × Nat)}

/-- A node comes before another in a list of nodes. -/
def Before (l : List ℕ) (a b : ℕ) : Prop := a ∈ l ∧ b ∈ l ∧ l.idxOf a < l.idxOf b

theorem Before.trans {l : List ℕ} {a b c : ℕ} (h : Before l a b) (k : Before l b c) :
    Before l a c :=
  ⟨h.1, k.2.1, h.2.2.trans k.2.2⟩

theorem Before.ne {l : List ℕ} {a b : ℕ} (h : Before l a b) : a ≠ b := by
  rintro rfl
  exact lt_irrefl _ h.2.2

theorem Before.asymm {l : List ℕ} {a b : ℕ} (h : Before l a b) : ¬ Before l b a :=
  fun k => (h.trans k).ne rfl

/-- A list without duplicates is in its own order. -/
theorem pairwise_before {l : List ℕ} (h : l.Nodup) : l.Pairwise (Before l) := by
  refine List.pairwise_iff_getElem.2 fun i j hi hj hij => ?_
  refine ⟨List.getElem_mem hi, List.getElem_mem hj, ?_⟩
  rwa [h.idxOf_getElem, h.idxOf_getElem]

/-- What comes before in a list comes before in a longer one. -/
theorem Before.append {l m : List ℕ} {a b : ℕ} (h : Before l a b) : Before (l ++ m) a b := by
  refine ⟨List.mem_append_left m h.1, List.mem_append_left m h.2.1, ?_⟩
  rw [List.idxOf_append_of_mem h.1, List.idxOf_append_of_mem h.2.1]
  exact h.2.2

/-- A target that does not lead back stands behind its node. -/
theorem InFront.before_of_edge {l : List ℕ} (h : InFront edges l) (hl : l.Nodup) {a b : ℕ}
    (ha : a ∈ l) (hab : Edge edges a b) (hba : ¬ Reaches edges b a) : Before l a b := by
  induction l with
  | nil => simp at ha
  | cons c l ih =>
    obtain ⟨hc, hl⟩ := List.nodup_cons.1 hl
    rcases List.mem_cons.1 ha with rfl | ha'
    · -- the target does not lead back, so it is among the rest
      have hb : b ∈ l := (h.1 b hab).resolve_right hba
      have hne : a ≠ b := fun e => hc (e ▸ hb)
      refine ⟨ha, List.mem_cons_of_mem a hb, ?_⟩
      rw [List.idxOf_cons_self, List.idxOf_cons_ne _ hne]
      omega
    · obtain ⟨-, hb, hlt⟩ := ih h.2 hl ha'
      have ha_ne : c ≠ a := fun e => hc (e ▸ ha')
      have hb_ne : c ≠ b := fun e => hc (e ▸ hb)
      refine ⟨ha, List.mem_cons_of_mem c hb, ?_⟩
      rw [List.idxOf_cons_ne _ ha_ne, List.idxOf_cons_ne _ hb_ne]
      omega

/-- Where nothing leads back, targets stand behind their nodes. -/
theorem InFront.before (acyclic : Acyclic edges) {l : List ℕ} (h : InFront edges l)
    (hl : l.Nodup) {a b : ℕ} (ha : a ∈ l) (hab : Edge edges a b) : Before l a b :=
  h.before_of_edge hl ha hab fun hba => acyclic a (Relation.TransGen.head' hab hba)

/-- Where nothing leads back, whatever a node leads to stands behind it. -/
theorem InFront.before_of_reaches (acyclic : Acyclic edges) {l : List ℕ}
    (h : InFront edges l) (hl : l.Nodup) {a b : ℕ} (ha : a ∈ l) (hab : Reaches edges a b)
    (hne : a ≠ b) : Before l a b := by
  have key : a = b ∨ Before l a b := by
    clear hne
    induction hab with
    | refl => exact .inl rfl
    | tail _ edge ih =>
      right
      rcases ih with rfl | hd
      · exact h.before acyclic hl ha edge
      · exact hd.trans (h.before acyclic hl hd.2.1 edge)
  exact key.resolve_left hne

end ControlFlow

namespace Function

open ControlFlow

variable {f : Function}

/-! ## The order -/

/-- What the search behind the order does. -/
theorem reachableOrder_explores {e : ℕ} (he : f.entry? = some e) :
    ∃ s : Search, s.finished = f.reachableOrder ∧
      Search.Explores f.edges ⟨[], []⟩ s (· = e) := by
  have hlt : e < f.blocks.length := by
    obtain ⟨b, -, hb⟩ := Option.bind_eq_some_iff.1 he
    exact position?_lt hb
  refine ⟨search f.edges f.blocks.length ⟨[], []⟩ e, ?_, ?_⟩
  · unfold entry? at he
    simp only [reachableOrder, he]
  refine search_explores (fun _ _ h => edge_lt h) _ _ e hlt ?_ ⟨?_, ?_, ?_, ?_⟩ ?_
  · exact (Finset.card_filter_le _ _).trans (Finset.card_range _).le
  all_goals simp [InFront, Search.Inside]

/-- Without a first block nothing is reachable. -/
theorem reachableOrder_of_entry?_eq_none (h : f.entry? = none) : f.reachableOrder = [] := by
  unfold entry? at h
  simp only [reachableOrder, h]

theorem nodup_reachableOrder : f.reachableOrder.Nodup := by
  cases he : f.entry? with
  | none => simp [reachableOrder_of_entry?_eq_none he]
  | some e =>
    obtain ⟨s, hs, hx⟩ := reachableOrder_explores he
    exact hs ▸ hx.sound.nodup

theorem inFront_reachableOrder : InFront f.edges f.reachableOrder := by
  cases he : f.entry? with
  | none => simp [reachableOrder_of_entry?_eq_none he, InFront]
  | some e =>
    obtain ⟨s, hs, hx⟩ := reachableOrder_explores he
    exact hs ▸ hx.sound.inFront

/-- **The order begins with what control can reach.** -/
theorem mem_reachableOrder {k : ℕ} : k ∈ f.reachableOrder ↔ f.Reachable k := by
  rw [reachable_iff]
  cases he : f.entry? with
  | none => simp [reachableOrder_of_entry?_eq_none he]
  | some e =>
    obtain ⟨s, hs, hx⟩ := reachableOrder_explores he
    -- the search is inside of nothing when it ends
    have finished : ∀ a ∈ s.met, a ∈ s.finished := by
      intro a ha
      by_contra hf
      have := (hx.inside a).1 ⟨ha, hf⟩
      simp [Search.Inside] at this
    rw [← hs]
    constructor
    · intro hk
      rcases hx.reached k (hx.sound.met k hk) with h | ⟨a, rfl, h⟩
      · simp at h
      · exact ⟨a, rfl, h⟩
    · rintro ⟨a, ha, hr⟩
      obtain rfl := Option.some.inj ha
      refine finished k ?_
      induction hr with
      | refl => exact hx.sources e rfl
      | tail _ edge ih => exact hx.sound.closed _ (finished _ ih) _ edge

theorem reachable_lt {k : ℕ} (h : f.Reachable k) : k < f.blocks.length := by
  obtain ⟨e, he, hr⟩ := reachable_iff.1 h
  cases hr with
  | refl =>
    obtain ⟨b, -, hb⟩ := Option.bind_eq_some_iff.1 he
    exact position?_lt hb
  | tail _ edge => exact edge_lt edge

theorem mem_reversePostOrder {k : ℕ} : k ∈ f.reversePostOrder ↔ k < f.blocks.length := by
  simp only [reversePostOrder, List.mem_append, List.mem_filter, List.mem_range,
    decide_eq_true_eq]
  constructor
  · rintro (h | h)
    · exact reachable_lt (mem_reachableOrder.1 h)
    · exact h.1
  · intro h
    by_cases hk : k ∈ f.reachableOrder
    · exact .inl hk
    · exact .inr ⟨h, hk⟩

theorem nodup_reversePostOrder : f.reversePostOrder.Nodup := by
  refine List.Nodup.append nodup_reachableOrder (List.nodup_range.filter _) ?_
  intro k hk hl
  simpa [hk] using List.of_mem_filter hl

/-- **The order lists every position once.** -/
theorem reversePostOrder_perm : f.reversePostOrder.Perm (List.range f.blocks.length) :=
  (List.perm_ext_iff_of_nodup nodup_reversePostOrder List.nodup_range).2 fun k => by
    rw [mem_reversePostOrder, List.mem_range]

/-! ## Without cycles -/

/-- A reachable position comes before whatever it leads to. -/
theorem before_reachable_of_reaches (acyclic : Acyclic f.edges) {k l : ℕ} (hk : f.Reachable k)
    (h : Reaches f.edges k l) (hne : k ≠ l) : Before f.reachableOrder k l :=
  inFront_reachableOrder.before_of_reaches acyclic nodup_reachableOrder
    (mem_reachableOrder.2 hk) h hne

/-! ## Without branches -/

/-- Where control goes one way only, what is reachable lies on a walk or is
led to from its end. -/
theorem Walk.mem_or_reaches (single : ∀ k l m, Edge f.edges k l → Edge f.edges k m → l = m)
    {k a : ℕ} {w : List ℕ} (h : f.Walk (k :: w)) (ha : f.Reachable a) :
    a ∈ k :: w ∨ Reaches f.edges k a := by
  obtain ⟨e, he, hr⟩ := reachable_iff.1 ha
  induction hr with
  | refl => exact .inl (h.entry_mem he)
  | tail hr edge ih =>
    rcases ih (reachable_iff.2 ⟨e, he, hr⟩) with hm | hm
    · rcases List.mem_cons.1 hm with rfl | hm
      · exact .inr (.single edge)
      · obtain ⟨c, hc, edge'⟩ := h.exists_next hm
        exact .inl (single _ _ _ edge edge' ▸ hc)
    · exact .inr (hm.tail edge)

/-- **What comes next in the order after a walk** is where control goes
next: the end of the walk leads to it, by way of its only target. -/
theorem Walk.eq_of_order (single : ∀ k l m, Edge f.edges k l → Edge f.edges k m → l = m)
    (acyclic : Acyclic f.edges) {k m a : ℕ} {w rest : List ℕ} (h : f.Walk (k :: w))
    (edge : Edge f.edges k m) (order : (k :: w).reverse ++ a :: rest = f.reachableOrder) :
    m = a := by
  by_contra hne
  have ha : a ∈ f.reachableOrder := by simp [← order]
  have apart : ((k :: w).reverse ++ a :: rest).Nodup := order ▸ nodup_reachableOrder
  have oldm : m ∉ k :: w := fun hmem =>
    acyclic m (Relation.TransGen.tail' (h.reaches m hmem) edge)
  have olda : a ∉ k :: w := fun hmem =>
    (List.nodup_append.1 apart).2.2 a (List.mem_reverse.2 hmem) a List.mem_cons_self rfl
  have hka := (h.mem_or_reaches single (mem_reachableOrder.1 ha)).resolve_left olda
  have hma : Reaches f.edges m a := by
    rcases hka.cases_head with rfl | ⟨m', edge', hr⟩
    · exact absurd List.mem_cons_self olda
    · exact single _ _ _ edge' edge ▸ hr
  -- so the target stands in front of it, but nothing is left in front
  have hlt := (before_reachable_of_reaches acyclic ⟨_, .step h edge⟩ hma hne).2.2
  rw [← order, List.idxOf_append_of_notMem (mt List.mem_reverse.1 oldm),
    List.idxOf_append_of_notMem (mt List.mem_reverse.1 olda), List.idxOf_cons_self] at hlt
  omega

/-- **Where control goes one way only and never back, the order begins with
every walk.** -/
theorem Walk.isPrefix_reachableOrder
    (single : ∀ k l m, Edge f.edges k l → Edge f.edges k m → l = m)
    (acyclic : Acyclic f.edges) {w : List ℕ} (h : f.Walk w) :
    w.reverse <+: f.reachableOrder := by
  induction h with
  | @start e he =>
    have hmem : e ∈ f.reachableOrder := mem_reachableOrder.2 ⟨[], .start he⟩
    cases order : f.reachableOrder with
    | nil => simp [order] at hmem
    | cons a rest =>
      -- whatever comes first is reached from the entry, which stands in front of it
      suffices e = a by simp [this]
      by_contra hne
      have ha : f.Reachable a := mem_reachableOrder.1 (by simp [order])
      obtain ⟨e', he', hr⟩ := reachable_iff.1 ha
      obtain rfl := Option.some.inj (he.symm.trans he')
      have hlt := (before_reachable_of_reaches acyclic ⟨[], .start he⟩ hr hne).2.2
      simp [order] at hlt
  | @step k m w h edge ih =>
    obtain ⟨rest, order⟩ := ih
    have new : m ∉ k :: w := fun hmem =>
      acyclic m (Relation.TransGen.tail' (h.reaches m hmem) edge)
    -- the target is new on the walk, so it is still to come in the order
    have hrest : m ∈ rest := by
      have hmem : m ∈ f.reachableOrder := mem_reachableOrder.2 ⟨_, .step h edge⟩
      rw [← order, List.mem_append, List.mem_reverse] at hmem
      exact hmem.resolve_left new
    cases rest with
    | nil => simp at hrest
    | cons a rest =>
      obtain rfl := h.eq_of_order single acyclic edge order
      exact ⟨rest, by simp [← order]⟩

/-- The same of the order of all positions. -/
theorem Walk.isPrefix_reversePostOrder
    (single : ∀ k l m, Edge f.edges k l → Edge f.edges k m → l = m)
    (acyclic : Acyclic f.edges) {w : List ℕ} (h : f.Walk w) :
    w.reverse <+: f.reversePostOrder :=
  (h.isPrefix_reachableOrder single acyclic).trans (List.prefix_append _ _)

end Function

end QuantumLowering
