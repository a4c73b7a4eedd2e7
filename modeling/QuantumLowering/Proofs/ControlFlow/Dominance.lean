import QuantumLowering.Proofs.ControlFlow.Stack
/-!
# The order respects dominance

In reverse post-order a block comes no later than any block that it
dominates, whatever cycles there are. For the search is inside of a node
that leads to the next one when it meets that, so each reachable block but
the first has one that leads to it in front (`Search.Led`); a block that
dominates it is that one or dominates it in turn. The order follows edges
as well, unless they lie on a cycle
(`Function.reversePostOrder_respects_dominance`).
-/


namespace QuantumLowering

namespace ControlFlow

variable {edges : List (ℕ × ℕ)} {s t : Search} {l : List ℕ} {root : ℕ}

/-! ## What leads to a node -/

/-- **Each finished node but the root has one that leads to it in front**, or the
search is inside of one. -/
def Search.Led (edges : List (ℕ × ℕ)) (root : ℕ) (s : Search) : Prop :=
  ∀ front b behind, s.finished = front ++ b :: behind →
    b = root ∨ ∃ a, Edge edges a b ∧ (a ∈ front ∨ s.Inside a)

/-- Finishing a node puts it in front of those that it leads to. -/
theorem Search.Led.finish (h : t.Led edges root) {a : ℕ} {u : Search}
    (hu : u.finished = a :: t.finished) (inside : ∀ c, t.Inside c → c = a ∨ u.Inside c)
    (ha : a = root ∨ ∃ c, Edge edges c a ∧ u.Inside c) : u.Led edges root := by
  intro front b behind split
  rw [hu] at split
  cases front with
  | nil =>
    obtain ⟨rfl, -⟩ := List.cons.inj split
    exact ha.imp_right fun ⟨c, hc, hin⟩ => ⟨c, hc, .inr hin⟩
  | cons x front =>
    rw [List.cons_append, List.cons.injEq] at split
    obtain ⟨rfl, rest⟩ := split
    refine (h front b behind rest).imp_right fun ⟨c, hc, hc'⟩ => ⟨c, hc, ?_⟩
    rcases hc' with hfront | hin
    · exact .inl (List.mem_cons_of_mem a hfront)
    · rcases inside c hin with rfl | hin
      · exact .inl List.mem_cons_self
      · exact .inr hin

/-- **A search keeps that**, if it is inside of nodes that lead to those which it
searches from. -/
theorem Searches.led (h : Searches edges s l t) (hs : ∀ a ∈ s.finished, a ∈ s.met)
    (led : s.Led edges root)
    (hl : ∀ b ∈ l, b = root ∨ ∃ a, Edge edges a b ∧ s.Inside a) : t.Led edges root := by
  induction h with
  | nil => exact led
  | @old s t a l _ _ ih => exact ih hs led fun b hb => hl b (List.mem_cons_of_mem a hb)
  | @new s t u a l ha first _ ih₁ ih₂ =>
    have started : ∀ b ∈ s.finished, b ∈ a :: s.met := fun b hb => List.mem_cons_of_mem a (hs b hb)
    have deeper : ∀ c, s.Inside c → Search.Inside { s with met := a :: s.met } c :=
      fun c hc => ⟨List.mem_cons_of_mem a hc.1, hc.2⟩
    -- the search from the targets of the node is inside of the node
    have led' : t.Led edges root := by
      refine ih₁ started (fun front b behind split => ?_) fun b hb => ?_
      · exact (led front b behind split).imp_right fun ⟨c, hc, hin⟩ =>
          ⟨c, hc, hin.imp_right (deeper c)⟩
      · exact .inr ⟨a, mem_targets.1 hb, List.mem_cons_self, fun hf => ha (hs a hf)⟩
    obtain ⟨ht, inside⟩ := first.inside_iff started
    have outside : ∀ c, s.Inside c → Search.Inside { t with finished := a :: t.finished } c := by
      intro c hc
      have hct := (inside c).2 (deeper c hc)
      exact ⟨hct.1, mt List.mem_cons.1 (not_or.2 ⟨fun e => ha (e ▸ hc.1), hct.2⟩)⟩
    have onward : ∀ b ∈ a :: l, b = root ∨ ∃ c, Edge edges c b ∧
        Search.Inside { t with finished := a :: t.finished } c := fun b hb =>
      (hl b hb).imp_right fun ⟨c, hc, hin⟩ => ⟨c, hc, outside c hin⟩
    refine ih₂ ?_ (led'.finish rfl (fun c hc => ?_) (onward a List.mem_cons_self)) fun b hb =>
      onward b (List.mem_cons_of_mem a hb)
    · exact List.forall_mem_cons.2 ⟨first.grows a List.mem_cons_self, ht⟩
    · by_cases hca : c = a
      · exact .inl hca
      · exact .inr ⟨hc.1, mt List.mem_cons.1 (not_or.2 ⟨hca, hc.2⟩)⟩

end ControlFlow

namespace Function

open ControlFlow

variable {f : Function} {e k l : ℕ}

/-- **Each reachable block but the first has one that leads to it in front.** -/
theorem exists_before_of_mem (he : f.entry? = some e) (hk : k ∈ f.reachableOrder) :
    k = e ∨ ∃ a, Edge f.edges a k ∧ Before f.reachableOrder a k := by
  obtain ⟨met, search⟩ := searches_reachableOrder he
  have proper : ∀ a ∈ (⟨[], []⟩ : Search).finished, a ∈ (⟨[], []⟩ : Search).met := by simp
  have led : Search.Led f.edges e ⟨met, f.reachableOrder⟩ :=
    search.led proper (by simp [Search.Led]) (by simp)
  obtain ⟨front, behind, split⟩ := List.append_of_mem hk
  refine (led front k behind split).imp_right fun ⟨a, ha, hfront⟩ => ⟨a, ha, ?_⟩
  -- a search that began inside of no node ends so
  have hfront : a ∈ front := hfront.resolve_right fun hin => by
    simpa [Search.Inside] using ((search.inside_iff proper).2 a).1 hin
  have apart : (front ++ k :: behind).Nodup := split ▸ nodup_reachableOrder
  have hknew : k ∉ front := fun h =>
    (List.nodup_append.1 apart).2.2 k h k List.mem_cons_self rfl
  refine ⟨split ▸ List.mem_append_left _ hfront, hk, ?_⟩
  rw [split, List.idxOf_append_of_mem hfront, List.idxOf_append_of_notMem hknew]
  have := List.idxOf_lt_length_of_mem hfront
  omega

/-- **A block comes no later than one that it dominates.** -/
theorem eq_or_before_of_dominates (hl : f.Reachable l) (h : f.Dominates k l) :
    k = l ∨ Before f.reachableOrder k l := by
  obtain ⟨e, he, -⟩ := reachable_iff.1 hl
  -- by the place of the dominated block: what leads to it comes first
  induction place : f.reachableOrder.idxOf l using Nat.strong_induction_on generalizing l with
  | _ n ih =>
    subst place
    rcases exists_before_of_mem he (mem_reachableOrder.2 hl) with rfl | ⟨a, edge, before⟩
    · exact .inl (List.mem_singleton.1 (h [] (.start he)))
    · by_cases hkl : k = l
      · exact .inl hkl
      right
      have ha : f.Reachable a := mem_reachableOrder.1 before.1
      have dominates : f.Dominates k a := fun w hw =>
        (List.mem_cons.1 (h _ (.step hw edge))).resolve_left hkl
      rcases ih _ before.2.2 ha dominates rfl with rfl | hka
      · exact before
      · exact hka.trans before

/-! ## The order of all positions -/

/-- **An edge goes forward if it lies on no cycle.** -/
theorem before_of_edge (hk : f.Reachable k) (edge : Edge f.edges k l)
    (hlk : ¬ Reaches f.edges l k) : Before f.reversePostOrder k l :=
  (inFront_reachableOrder.before_of_edge nodup_reachableOrder
    (mem_reachableOrder.2 hk) edge hlk).append

/-- Where blocks are named apart, the first one is where control begins. -/
theorem entry?_eq_zero (ids : (f.blocks.map Block.id).Nodup) (h : f.blocks ≠ []) :
    f.entry? = some 0 := by
  obtain ⟨b, rest, hblocks⟩ := List.exists_cons_of_ne_nil h
  have hb : f.blocks[0]? = some b := by simp [hblocks]
  simp [ entry?, hblocks, position?_eq ids hb]

/-- What can be reached begins with where control begins. -/
theorem head?_reachableOrder (he : f.entry? = some e) : f.reachableOrder.head? = some e := by
  have hmem : e ∈ f.reachableOrder := mem_reachableOrder.2 ⟨[], .start he⟩
  cases order : f.reachableOrder with
  | nil => simp [order] at hmem
  | cons a rest =>
    have ha : f.Reachable a := mem_reachableOrder.1 (by simp [order])
    -- nothing comes before the first of a list
    rcases eq_or_before_of_dominates ha (fun _ hw => hw.entry_mem he) with rfl | ⟨-, -, hlt⟩
    · rfl
    · simp [order] at hlt

/-- **Where control goes one way only, what can be reached comes in the order of a
walk**, also where that comes back to a block it went through. -/
theorem walk_of_isPrefix_reachableOrder
    (single : ∀ k l m, Edge f.edges k l → Edge f.edges k m → l = m) (he : f.entry? = some e)
    {reached : List ℕ} (hne : reached ≠ []) (h : reached <+: f.reachableOrder) :
    f.Walk reached.reverse := by
  induction reached using List.reverseRecOn with
  | nil => exact absurd rfl hne
  | append_singleton front k ih =>
    rw [List.reverse_append, List.reverse_singleton, List.singleton_append]
    obtain ⟨behind, order⟩ := h
    rw [List.append_assoc, List.singleton_append] at order
    have apart : (front ++ k :: behind).Nodup := order ▸ nodup_reachableOrder
    have new : k ∉ front := fun h => (List.nodup_append.1 apart).2.2 k h k List.mem_cons_self rfl
    have head := head?_reachableOrder he
    rw [← order] at head
    cases walk : front.reverse with
    | nil =>
      obtain rfl := List.reverse_eq_nil_iff.1 walk
      obtain rfl := Option.some.inj head
      exact .start he
    | cons a w =>
      have hwalk : f.Walk (a :: w) :=
        walk ▸ ih (by rintro rfl; cases walk) ⟨k :: behind, order⟩
      have mem : ∀ b, b ∈ a :: w ↔ b ∈ front := fun b => by rw [← walk, List.mem_reverse]
      have hk : k ∈ f.reachableOrder := order ▸ List.mem_append_right _ List.mem_cons_self
      rcases exists_before_of_mem he hk with rfl | ⟨b, edge, -, -, hlt⟩
      · exact absurd ((mem k).1 (hwalk.entry_mem he)) new
      · -- what leads to the block is on the walk, and whatever was left led elsewhere
        have hb : b ∈ a :: w := by
          rw [mem]
          by_contra hb
          rw [← order, List.idxOf_append_of_notMem hb, List.idxOf_append_of_notMem new,
            List.idxOf_cons_self] at hlt
          omega
        rcases List.mem_cons.1 hb with rfl | hb
        · exact .step hwalk edge
        · obtain ⟨next, hnext, edge'⟩ := hwalk.exists_next hb
          exact absurd ((mem k).1 (single b next k edge' edge ▸ hnext)) new

/-- **An order of the blocks that respects dominance.** -/
structure DominanceOrder (f : Function) (order : List ℕ) : Prop where
  /-- Control begins with the first block, and so does the order. -/
  entry : f.blocks ≠ [] → f.entry? = some 0 ∧ order.head? = some 0
  /-- Blocks that cannot be reached come last, as they stand in the function. -/
  unreachable : ∃ reached rest, order = reached ++ rest ∧ (∀ k, k ∈ reached ↔ f.Reachable k) ∧
    rest.Pairwise (· < ·)
  /-- A block comes no later than one that it dominates. -/
  dominates : ∀ k l, f.Reachable l → f.Dominates k l → k = l ∨ Before order k l
  /-- An edge goes forward if it lies on no cycle. -/
  forward : ∀ k l, f.Reachable k → Edge f.edges k l → ¬ Reaches f.edges l k → Before order k l

/-- **Reverse post-order** lists every block once. What can be reached comes in the
order in which the search with a stack finishes it, the last first. Where blocks
are named apart, the order respects dominance, cycles or not. -/
theorem reversePostOrder_respects_dominance (f : Function) :
    f.reversePostOrder.Perm (List.range f.blocks.length) ∧
      (∀ e, f.entry? = some e → ∃ met rest,
        StackSearch.Runs f.edges ⟨[e], ⟨[], []⟩⟩ ⟨[], ⟨met, f.reachableOrder⟩⟩ ∧
          f.reversePostOrder = f.reachableOrder ++ rest) ∧
      ((f.blocks.map Block.id).Nodup → f.DominanceOrder f.reversePostOrder) := by
  refine ⟨reversePostOrder_perm, fun e he => ?_, fun ids => ⟨fun hne => ?_, ?_, ?_, ?_⟩⟩
  · obtain ⟨met, runs⟩ := runs_reachableOrder he
    exact ⟨met, _, runs, rfl⟩
  · have he := entry?_eq_zero ids hne
    refine ⟨he, ?_⟩
    rw [reversePostOrder, List.head?_append, head?_reachableOrder he]
    rfl
  · exact ⟨_, _, rfl, fun k => mem_reachableOrder, List.pairwise_lt_range.filter _⟩
  · intro k l hl h
    exact (eq_or_before_of_dominates hl h).imp_right Before.append
  · exact fun k l => before_of_edge

/-- A loop that stands behind its exit, and a block that nothing leads to. -/
def looped : Function where
  name := "looped"
  params := []
  signature := []
  returnType := .void
  blocks := [
    ⟨⟨0⟩, "entry", [], some (.branch ⟨1⟩)⟩,
    ⟨⟨3⟩, "exit", [], some (.ret none)⟩,
    ⟨⟨1⟩, "header", [], some (.condBranch (.bool true) ⟨2⟩ ⟨3⟩)⟩,
    ⟨⟨9⟩, "dead", [], some (.branch ⟨3⟩)⟩,
    ⟨⟨2⟩, "body", [], some (.branch ⟨1⟩)⟩]
  attributes := .empty

theorem reversePostOrder_respects_dominance_looped :
    (looped.blocks.map Block.id).Nodup ∧ looped.Reachable 4 ∧ looped.Dominates 2 4 ∧
      Reaches looped.edges 4 2 ∧ Before looped.reversePostOrder 2 4 := by
  have ids : (looped.blocks.map Block.id).Nodup := by decide
  have order := (reversePostOrder_respects_dominance looped).2.2 ids
  have entry : looped.entry? = some 0 := (order.entry (by decide)).1
  have edges : looped.edges = [(0, 2), (2, 4), (2, 1), (3, 1), (4, 2)] := by decide
  have mem : ∀ k l, (k, l) ∈ looped.edges → Edge looped.edges k l := fun _ _ h => h
  have reachable : looped.Reachable 4 :=
    ⟨[2, 0], .step (.step (.start entry) (mem 0 2 (by decide))) (mem 2 4 (by decide))⟩
  have dominates : looped.Dominates 2 4 := by
    intro w hw
    cases hw with
    | start h => simp [entry] at h
    | @step k _ _ _ edge =>
      obtain rfl : k = 2 := by simpa [Edge, edges] using edge
      simp
  exact ⟨ids, reachable, dominates, .single (mem 4 2 (by decide)),
    (order.dominates 2 4 reachable dominates).resolve_left (by decide)⟩

end Function

end QuantumLowering
