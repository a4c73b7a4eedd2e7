import Mathlib.Data.List.Basic
import QuantumLowering.Proofs.ControlFlow.Order
/-!
# The search with a stack

A depth first search needs no recursion: a stack holds the nodes that are
still to be looked at. A new node stays on the stack below those of its
targets that were not met; when it is on top again, it is finished. A
target may be on the stack twice, and only the copy that is looked at first
counts. Both searches follow one derivation (`Searches`), so they finish
the same nodes in the same order (`Function.runs_reachableOrder`).
-/


namespace QuantumLowering

namespace ControlFlow

variable {edges : List (ℕ × ℕ)} {s t : Search} {l m : List ℕ} {n : ℕ}

/-! ## A search as a derivation -/

/-- **A search from some nodes**, one after the other. -/
inductive Searches (edges : List (ℕ × ℕ)) : Search → List ℕ → Search → Prop
  /-- It ends. -/
  | nil (s : Search) : Searches edges s [] s
  /-- A node that was met before is passed over. -/
  | old {s t : Search} {a : ℕ} {l : List ℕ} :
    a ∈ s.met → Searches edges s l t → Searches edges s (a :: l) t
  /-- A new node is met, its targets are searched from, and it is finished. -/
  | new {s t u : Search} {a : ℕ} {l : List ℕ} :
    a ∉ s.met → Searches edges { s with met := a :: s.met } (targets edges a) t →
      Searches edges { t with finished := a :: t.finished } l u → Searches edges s (a :: l) u

namespace Searches

theorem append {u : Search} (h : Searches edges s l t) (k : Searches edges t m u) :
    Searches edges s (l ++ m) u := by
  induction h with
  | nil => exact k
  | old ha _ ih => exact .old ha (ih k)
  | new ha first _ _ ih => exact .new ha first (ih k)

/-- Nothing met is forgotten. -/
theorem grows (h : Searches edges s l t) : ∀ a ∈ s.met, a ∈ t.met := by
  induction h with
  | nil => exact fun _ ha => ha
  | old _ _ ih => exact ih
  | new _ _ _ ih₁ ih₂ => exact fun b hb => ih₂ b (ih₁ b (List.mem_cons_of_mem _ hb))

/-- **A search ends inside of the nodes that it began inside of**, if what is
finished was met. -/
theorem inside_iff (h : Searches edges s l t) (hs : ∀ a ∈ s.finished, a ∈ s.met) :
    (∀ a ∈ t.finished, a ∈ t.met) ∧ ∀ c, t.Inside c ↔ s.Inside c := by
  induction h with
  | nil => exact ⟨hs, fun _ => Iff.rfl⟩
  | old _ _ ih => exact ih hs
  | @new s t u a l ha first _ ih₁ ih₂ =>
    obtain ⟨ht, inside⟩ := ih₁ fun b hb => List.mem_cons_of_mem a (hs b hb)
    have finished : ∀ b ∈ a :: t.finished, b ∈ t.met := by
      intro b hb
      rcases List.mem_cons.1 hb with rfl | hb
      · exact first.grows b List.mem_cons_self
      · exact ht b hb
    obtain ⟨hu, inside'⟩ := ih₂ finished
    refine ⟨hu, fun c => (inside' c).trans ?_⟩
    -- inside of the new node as well while its targets are searched from, and no longer then
    have hc := inside c
    simp only [Search.Inside, List.mem_cons, not_or] at hc ⊢
    constructor
    · rintro ⟨hm, hne, hf⟩
      obtain ⟨hm', hf'⟩ := hc.1 ⟨hm, hf⟩
      exact ⟨hm'.resolve_left hne, hf'⟩
    · rintro ⟨hm, hf⟩
      obtain ⟨hm', hf'⟩ := hc.2 ⟨.inr hm, hf⟩
      exact ⟨hm', fun e => ha (e ▸ hm), hf'⟩

end Searches

/-- Searching from some nodes, given that searching from one is a search. -/
theorem foldl_searches {step : Search → ℕ → Search} {fuel : ℕ}
    (hstep : ∀ s b, b < n → (s.unmet n).card ≤ fuel → Searches edges s [b] (step s b))
    (l : List ℕ) {s : Search} (hfuel : (s.unmet n).card ≤ fuel) (hl : ∀ b ∈ l, b < n) :
    Searches edges s l (l.foldl step s) := by
  induction l generalizing s with
  | nil => exact .nil s
  | cons b l ih =>
    have first := hstep s b (hl b List.mem_cons_self) hfuel
    have fuel_left := (Finset.card_le_card (Search.unmet_subset first.grows)).trans hfuel
    exact first.append (ih fuel_left fun c hc => hl c (List.mem_cons_of_mem b hc))

/-- **A search by recursion** that has the fuel it needs. -/
theorem searches_search (hn : ∀ a b, Edge edges a b → b < n) (fuel : ℕ) :
    ∀ (s : Search) (a : ℕ), a < n → (s.unmet n).card ≤ fuel →
      Searches edges s [a] (search edges fuel s a) := by
  induction fuel with
  | zero => exact fun s a ha hfuel => .old (Search.mem_met_of_card_unmet ha hfuel) (.nil s)
  | succ fuel ih =>
    intro s a ha hfuel
    unfold search
    split
    · rename_i hmet
      exact .old hmet (.nil s)
    · rename_i hmet
      refine .new hmet (foldl_searches ih _ ?_ fun b hb => hn a b (mem_targets.1 hb)) (.nil _)
      have := Search.card_unmet_lt ha hmet
      omega

/-! ## The stack -/

/-- A search with the nodes that are still to be looked at. -/
structure StackSearch where
  /-- The nodes to look at, the next one first. -/
  stack : List ℕ
  /-- What was met and what is finished. -/
  search : Search

/-- **A look at the node on top.** A new one is met, and those of its targets that
were not met go on top of it one by one, the target of the latest edge first. One
that was met leaves the stack and is finished, unless it is already. -/
def StackSearch.next? (edges : List (ℕ × ℕ)) : StackSearch → Option StackSearch
  | ⟨[], _⟩ => none
  | ⟨a :: rest, s⟩ =>
    if a ∈ s.met then
      some ⟨rest, if a ∈ s.finished then s else { s with finished := a :: s.finished }⟩
    else
      let s := { s with met := a :: s.met }
      let pushed := (targets edges a).reverse.filter fun b => b ∉ s.met
      some ⟨pushed.foldl (fun stack b => b :: stack) (a :: rest), s⟩

/-- Looking again and again. -/
def StackSearch.Runs (edges : List (ℕ × ℕ)) : StackSearch → StackSearch → Prop :=
  Relation.ReflTransGen fun x y => x.next? edges = some y

section Next

variable {a : ℕ} {rest : List ℕ}

theorem next?_new (ha : a ∉ s.met) :
    StackSearch.next? edges ⟨a :: rest, s⟩ =
      some ⟨(targets edges a).filter (fun b => b ∉ a :: s.met) ++ a :: rest,
        { s with met := a :: s.met }⟩ := by
  simp [StackSearch.next?, ha, List.filter_reverse]

theorem next?_finish (ha : a ∈ s.met) (hf : a ∉ s.finished) :
    StackSearch.next? edges ⟨a :: rest, s⟩ =
      some ⟨rest, { s with finished := a :: s.finished }⟩ := by
  simp [StackSearch.next?, ha, hf]

theorem next?_finished (ha : a ∈ s.met) (hf : a ∈ s.finished) :
    StackSearch.next? edges ⟨a :: rest, s⟩ = some ⟨rest, s⟩ := by
  simp [StackSearch.next?, ha, hf]

end Next

/-- **The stack takes every search to its end**, whatever lies below. On it are those
of the nodes to search from that were not met when they were put there; each of them
is finished by the time it is met again. -/
theorem Searches.runs (h : Searches edges s l t) (hs : ∀ a ∈ s.finished, a ∈ s.met)
    (hm : ∀ b ∈ m, b ∈ s.met) (settled : ∀ b ∈ l, b ∉ m → b ∈ s.met → b ∈ s.finished)
    (rest : List ℕ) :
    StackSearch.Runs edges ⟨l.filter (fun b => b ∉ m) ++ rest, s⟩ ⟨rest, t⟩ := by
  induction h generalizing m rest with
  | nil => exact .refl
  | @old s t a l ha _ ih =>
    have below := ih hs hm (fun b hb => settled b (List.mem_cons_of_mem a hb)) rest
    by_cases ham : a ∈ m
    · rwa [List.filter_cons_of_neg (by simpa using ham)]
    · rw [List.filter_cons_of_pos (by simpa using ham), List.cons_append]
      exact below.head (next?_finished ha (settled a List.mem_cons_self ham ha))
  | @new s t u a l ha first second ih₁ ih₂ =>
    have ham : a ∉ m := fun h => ha (hm a h)
    have started : ∀ b ∈ s.finished, b ∈ a :: s.met := fun b hb => List.mem_cons_of_mem a (hs b hb)
    obtain ⟨ht, inside⟩ := first.inside_iff started
    have self : t.Inside a := (inside a).2 ⟨List.mem_cons_self, fun hf => ha (hs a hf)⟩
    -- the targets that are met from the start are not pushed
    have targets_run := ih₁ (m := a :: s.met) started (fun b hb => hb)
      (fun b _ hb hmet => absurd hmet hb) (a :: (l.filter (fun b => b ∉ m) ++ rest))
    have below := ih₂ (m := m) (List.forall_mem_cons.2 ⟨self.1, ht⟩)
      (fun b hb => first.grows b (List.mem_cons_of_mem a (hm b hb))) ?_ rest
    · rw [List.filter_cons_of_pos (by simpa using ham), List.cons_append]
      exact .head (next?_new ha) (targets_run.trans (.head (next?_finish self.1 self.2) below))
    · -- what is met by now and not finished was so before
      intro b hb hbm hmet
      by_contra hf
      rw [List.mem_cons, not_or] at hf
      obtain ⟨hmet', hf'⟩ := (inside b).1 ⟨hmet, hf.2⟩
      exact hf' (settled b (List.mem_cons_of_mem a hb) hbm
        ((List.mem_cons.1 hmet').resolve_left hf.1))

end ControlFlow

namespace Function

open ControlFlow

variable {f : Function} {e : ℕ}

/-- The search behind the order of what is reachable. -/
theorem searches_reachableOrder (he : f.entry? = some e) :
    ∃ met, Searches f.edges ⟨[], []⟩ [e] ⟨met, f.reachableOrder⟩ := by
  have hlt : e < f.blocks.length := reachable_lt ⟨[], .start he⟩
  have found : f.reachableOrder = (search f.edges f.blocks.length ⟨[], []⟩ e).finished := by
    unfold entry? at he
    simp only [reachableOrder, he]
  rw [found]
  exact ⟨_, searches_search (fun _ _ h => edge_lt h) _ _ e hlt
    ((Finset.card_filter_le _ _).trans (Finset.card_range _).le)⟩

/-- **The search with a stack** from the first block finishes the reachable
positions in this order, the last of them first. -/
theorem runs_reachableOrder (he : f.entry? = some e) :
    ∃ met, StackSearch.Runs f.edges ⟨[e], ⟨[], []⟩⟩ ⟨[], ⟨met, f.reachableOrder⟩⟩ := by
  obtain ⟨met, h⟩ := searches_reachableOrder he
  exact ⟨met, h.runs (m := []) (by simp) (by simp) (by simp) []⟩

end Function

end QuantumLowering
