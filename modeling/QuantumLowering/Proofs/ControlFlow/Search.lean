import Mathlib.Data.Finset.Card
import Mathlib.Data.Finset.Range
import Mathlib.Logic.Relation
import QuantumLowering.Program.ControlFlow
/-!
# What a depth first search finishes

A search that has the fuel it needs finishes every node it meets: the only
nodes met and not finished are those it is inside of, and each of these
reaches the node at hand. So a node is finished after its targets, except
for a target that leads back to it. The invariant is `Search.Sound`, and
`search_explores` carries it through a search.
-/


namespace QuantumLowering

namespace ControlFlow

variable {edges : List (Nat × Nat)} {n : ℕ}

/-- Control may pass from one node to another. -/
def Edge (edges : List (Nat × Nat)) (a b : ℕ) : Prop := (a, b) ∈ edges

/-- Control may pass from one node to another along some edges. -/
def Reaches (edges : List (Nat × Nat)) : ℕ → ℕ → Prop := Relation.ReflTransGen (Edge edges)

/-- No node leads back to itself. -/
def Acyclic (edges : List (Nat × Nat)) : Prop := ∀ a, ¬ Relation.TransGen (Edge edges) a a

/-- Edges that only lead to later nodes make no cycle. -/
theorem acyclic_of_forall_lt {edges : List (Nat × Nat)} (h : ∀ e ∈ edges, e.1 < e.2) :
    Acyclic edges := by
  have later : ∀ {a b}, Relation.TransGen (Edge edges) a b → a < b := by
    intro a b hab
    induction hab with
    | single e => exact h _ e
    | tail _ e ih => exact ih.trans (h _ e)
  exact fun a ha => lt_irrefl a (later ha)

theorem mem_targets {a b : ℕ} : b ∈ targets edges a ↔ Edge edges a b := by
  simp [targets, Edge]

/-! ## The invariant -/

/-- Each node stands in front of its targets, unless the target leads back
to it. -/
def InFront (edges : List (Nat × Nat)) : List ℕ → Prop
  | [] => True
  | a :: rest => (∀ b, Edge edges a b → b ∈ rest ∨ Reaches edges b a) ∧ InFront edges rest

namespace Search

/-- A search is inside of a node that it met and did not finish. -/
def Inside (s : Search) (a : ℕ) : Prop := a ∈ s.met ∧ a ∉ s.finished

/-- **The invariant of a search.** -/
structure Sound (edges : List (Nat × Nat)) (s : Search) : Prop where
  /-- What is finished was met. -/
  met : ∀ a ∈ s.finished, a ∈ s.met
  /-- Nothing is finished twice. -/
  nodup : s.finished.Nodup
  /-- What is finished stands in front of its targets. -/
  inFront : InFront edges s.finished
  /-- The targets of what is finished were met. -/
  closed : ∀ a ∈ s.finished, ∀ b, Edge edges a b → b ∈ s.met

/-- **What a search from a node adds.** -/
structure Explores (edges : List (Nat × Nat)) (s t : Search) (sources : ℕ → Prop) : Prop where
  /-- The invariant holds. -/
  sound : Sound edges t
  /-- Nothing met is forgotten. -/
  grows : ∀ a ∈ s.met, a ∈ t.met
  /-- It is inside of the same nodes again. -/
  inside : ∀ a, t.Inside a ↔ s.Inside a
  /-- Each node it meets is reached from a source. -/
  reached : ∀ a ∈ t.met, a ∈ s.met ∨ ∃ b, sources b ∧ Reaches edges b a
  /-- It meets its sources. -/
  sources : ∀ b, sources b → b ∈ t.met

/-- The nodes that a search did not meet yet. -/
def unmet (n : ℕ) (s : Search) : Finset ℕ := (Finset.range n).filter fun a => a ∉ s.met

theorem unmet_subset {s t : Search} (h : ∀ a ∈ s.met, a ∈ t.met) : t.unmet n ⊆ s.unmet n := by
  intro a ha
  simp only [unmet, Finset.mem_filter] at ha ⊢
  exact ⟨ha.1, fun hs => ha.2 (h a hs)⟩

/-- Meeting a new node leaves fewer unmet. -/
theorem card_unmet_lt {s : Search} {a : ℕ} (hn : a < n) (ha : a ∉ s.met) :
    (unmet n { s with met := a :: s.met }).card < (s.unmet n).card := by
  refine Finset.card_lt_card (Finset.ssubset_iff_of_subset ?_ |>.2 ⟨a, ?_, ?_⟩)
  · exact unmet_subset fun b hb => List.mem_cons_of_mem a hb
  · simp [unmet, hn, ha]
  · simp [unmet]

/-- A node that is not among the unmet, because there are none, was met. -/
theorem mem_met_of_card_unmet {s : Search} {a : ℕ} (hn : a < n) (h : (s.unmet n).card ≤ 0) :
    a ∈ s.met := by
  by_contra hm
  have : a ∈ s.unmet n := by simp [unmet, hn, hm]
  rw [Finset.card_eq_zero.1 (Nat.le_zero.1 h)] at this
  exact absurd this (Finset.notMem_empty a)

/-- A search that adds nothing. -/
theorem Explores.refl {s : Search} {a : ℕ} (hs : Sound edges s) (ha : a ∈ s.met) :
    Explores edges s s (· = a) where
  sound := hs
  grows _ h := h
  inside _ := Iff.rfl
  reached _ h := .inl h
  sources _ h := h ▸ ha

/-- A search from some nodes and then from others. -/
theorem Explores.trans {s t u : Search} {P Q : ℕ → Prop} (h : Explores edges s t P)
    (k : Explores edges t u Q) : Explores edges s u fun a => P a ∨ Q a where
  sound := k.sound
  grows a ha := k.grows a (h.grows a ha)
  inside a := (k.inside a).trans (h.inside a)
  reached a ha := by
    rcases k.reached a ha with ht | ⟨b, hb, hr⟩
    · rcases h.reached a ht with hs | ⟨b, hb, hr⟩
      · exact .inl hs
      · exact .inr ⟨b, .inl hb, hr⟩
    · exact .inr ⟨b, .inr hb, hr⟩
  sources b := by
    rintro (hb | hb)
    · exact k.grows b (h.sources b hb)
    · exact k.sources b hb

end Search

open Search

/-! ## Searching -/

/-- Searching from the targets of a node, given that searching from one
node does what it should. -/
theorem foldl_explores {step : Search → ℕ → Search} {fuel : ℕ}
    (hstep : ∀ s b, b < n → (s.unmet n).card ≤ fuel → Sound edges s →
      (∀ c, s.Inside c → Reaches edges c b) → Explores edges s (step s b) (· = b))
    (l : List ℕ) {s : Search} (hs : Sound edges s) (hfuel : (s.unmet n).card ≤ fuel)
    (hl : ∀ b ∈ l, b < n) (hin : ∀ c, s.Inside c → ∀ b ∈ l, Reaches edges c b) :
    Explores edges s (l.foldl step s) (· ∈ l) := by
  induction l generalizing s with
  | nil => exact ⟨hs, fun _ h => h, fun _ => Iff.rfl, fun _ h => .inl h, by simp⟩
  | cons b l ih =>
    have first := hstep s b (hl b (by simp)) hfuel hs fun c hc => hin c hc b (by simp)
    have rest := ih first.sound
      ((Finset.card_le_card (unmet_subset first.grows)).trans hfuel)
      (fun c hc => hl c (by simp [hc]))
      (fun c hc d hd => hin c ((first.inside c).1 hc) d (by simp [hd]))
    simpa only [List.foldl_cons, List.mem_cons] using first.trans rest

section Finish

variable {s t : Search} {a : ℕ}

/-- After the targets of a node were searched, the search is inside of the
node and of what it was inside of before. -/
theorem inside_of_explores (ha : a ∉ s.met) (hs : Sound edges s)
    (h : Explores edges { s with met := a :: s.met } t (· ∈ targets edges a)) (c : ℕ) :
    t.Inside c ↔ c = a ∨ s.Inside c := by
  rw [h.inside, Inside, Inside, List.mem_cons]
  constructor
  · rintro ⟨rfl | hc, hf⟩
    · exact .inl rfl
    · exact .inr ⟨hc, hf⟩
  · rintro (rfl | ⟨hc, hf⟩)
    · exact ⟨.inl rfl, fun hf => ha (hs.met _ hf)⟩
    · exact ⟨.inr hc, hf⟩

/-- Finishing a node whose targets were searched keeps the invariant. A
target that is not finished by then is one the search is inside of, so it
leads back. -/
theorem finish_sound (ha : a ∉ s.met) (hin : ∀ c, s.Inside c → Reaches edges c a)
    (hs : Sound edges s)
    (h : Explores edges { s with met := a :: s.met } t (· ∈ targets edges a)) :
    Sound edges { t with finished := a :: t.finished } := by
  have inside := inside_of_explores ha hs h
  have self : t.Inside a := (inside a).2 (.inl rfl)
  refine ⟨fun c hc => ?_, List.nodup_cons.2 ⟨self.2, h.sound.nodup⟩,
    ⟨fun b hb => ?_, h.sound.inFront⟩, fun c hc b hb => ?_⟩
  · rcases List.mem_cons.1 hc with rfl | hc
    · exact self.1
    · exact h.sound.met c hc
  -- a target that is not finished is one the search is inside of
  · by_cases hf : b ∈ t.finished
    · exact .inl hf
    right
    rcases (inside b).1 ⟨h.sources b (mem_targets.2 hb), hf⟩ with rfl | hc
    · exact .refl
    · exact hin b hc
  · rcases List.mem_cons.1 hc with rfl | hc
    · exact h.sources b (mem_targets.2 hb)
    · exact h.sound.closed c hc b hb

/-- Finishing a node whose targets were searched. -/
theorem finish_explores (ha : a ∉ s.met) (hin : ∀ c, s.Inside c → Reaches edges c a)
    (hs : Sound edges s)
    (h : Explores edges { s with met := a :: s.met } t (· ∈ targets edges a)) :
    Explores edges s { t with finished := a :: t.finished } (· = a) := by
  have inside := inside_of_explores ha hs h
  refine ⟨finish_sound ha hin hs h, fun c hc => h.grows c (List.mem_cons_of_mem a hc),
    fun c => ?_, fun c hc => ?_, ?_⟩
  · constructor
    · rintro ⟨hm, hf⟩
      rw [List.mem_cons, not_or] at hf
      exact ((inside c).1 ⟨hm, hf.2⟩).resolve_left hf.1
    · intro hc
      have hne : c ≠ a := fun e => ha (e ▸ hc.1)
      have ht := (inside c).2 (.inr hc)
      exact ⟨ht.1, by simp [hne, ht.2]⟩
  · rcases h.reached c hc with hm | ⟨b, hb, hr⟩
    · rcases List.mem_cons.1 hm with rfl | hm
      · exact .inr ⟨c, rfl, .refl⟩
      · exact .inl hm
    · exact .inr ⟨a, rfl, .head (mem_targets.1 hb) hr⟩
  · rintro b rfl
    exact ((inside b).2 (.inl rfl)).1

end Finish

/-- **A search with enough fuel** keeps the invariant and meets what it
starts from. -/
theorem search_explores (hn : ∀ a b, Edge edges a b → b < n) (fuel : ℕ) :
    ∀ (s : Search) (a : ℕ), a < n → (s.unmet n).card ≤ fuel → Sound edges s →
      (∀ c, s.Inside c → Reaches edges c a) →
      Explores edges s (search edges fuel s a) (· = a) := by
  induction fuel with
  | zero =>
    intro s a ha hfuel hs _
    exact .refl hs (mem_met_of_card_unmet ha hfuel)
  | succ fuel ih =>
    intro s a ha hfuel hs hin
    unfold search
    split
    · rename_i hmet
      exact .refl hs hmet
    · rename_i hmet
      -- each search inside of another meets a new node first, so the fuel covers what is unmet
      have started : Sound edges { s with met := a :: s.met } :=
        ⟨fun c hc => List.mem_cons_of_mem a (hs.met c hc), hs.nodup, hs.inFront,
          fun c hc b hb => List.mem_cons_of_mem a (hs.closed c hc b hb)⟩
      refine finish_explores hmet hin hs (foldl_explores ih _ started ?_ ?_ ?_)
      · have := card_unmet_lt ha hmet
        omega
      · exact fun b hb => hn a b (mem_targets.1 hb)
      · intro c hc b hb
        have hab : Edge edges a b := mem_targets.1 hb
        rcases List.mem_cons.1 hc.1 with rfl | hm
        · exact .single hab
        · exact (hin c ⟨hm, hc.2⟩).tail hab

end ControlFlow

end QuantumLowering
