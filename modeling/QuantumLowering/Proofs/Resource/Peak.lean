import Mathlib.Data.List.Permutation
import Mathlib.Order.Bounds.Basic
import QuantumLowering.Proofs.Resource.History
/-!
# The peak of a pool

A pool that reuses hands out a new handle only when every handle handed out
so far is held. So as long as handles are taken and given back one at a
time, it never names more of them than were held at once
(`Pool.History.highWater_isGreatest_counts`). A block is always new, which
is why blocks are left out here.
-/


namespace QuantumLowering

namespace Pool

/-- Whether a call is about one handle. -/
def Call.isSingle : Call → Bool
  | allocate | release _ => true
  | allocateBlock _ | reset => false

namespace History

variable {s : History}

theorem run_concat (s : History) (calls : List Call) (c : Call) :
    s.run (calls ++ [c]) = (s.run calls).step c := List.foldl_append

/-- **How many handles were held** after each part of some calls, from the
first call on. -/
def counts (s : History) (calls : List Call) : Set ℕ :=
  {n | ∃ made, made <+: calls ∧ (s.run made).held.length = n}

theorem counts_nil (s : History) : s.counts [] = {s.held.length} := by
  ext n
  simp [counts, run, eq_comm]

theorem counts_concat (s : History) (calls : List Call) (c : Call) :
    s.counts (calls ++ [c]) = s.counts calls ∪ {(s.run (calls ++ [c])).held.length} := by
  ext n
  simp only [counts, Set.mem_ofPred_eq, Set.mem_union, Set.mem_singleton_iff,
    List.prefix_concat_iff]
  constructor
  · rintro ⟨made, rfl | hmade, hn⟩
    · exact .inr hn.symm
    · exact .inl ⟨made, hmade, hn⟩
  · rintro (⟨made, hmade, hn⟩ | hn)
    · exact ⟨made, .inr hmade, hn⟩
    · exact ⟨_, .inl rfl, hn.symm⟩

/-- No more handles are held than were handed out. -/
theorem Balanced.length_held_le (h : s.Balanced) : s.held.length ≤ s.pool.highWater := by
  have := h.count
  omega

/-- **A call about one handle raises the high water mark only to what is held
then.** -/
theorem Balanced.highWater_step (h : s.Balanced) (reuse : s.pool.policy = .reuse) {c : Call}
    (single : c.isSingle) :
    (s.step c).pool.highWater = max s.pool.highWater (s.step c).held.length := by
  -- where the mark stays, no more is held than it says
  have stays : (s.step c).pool.highWater = s.pool.highWater →
      (s.step c).pool.highWater = max s.pool.highWater (s.step c).held.length := by
    intro same
    have := (h.step c).length_held_le
    omega
  have hc := s.pool.answers_call c
  unfold History.step at stays ⊢
  generalize (s.pool.call c).1 = p' at hc stays ⊢
  generalize (s.pool.call c).2 = a at hc stays ⊢
  cases hc with
  | fresh hmin _ =>
    obtain ⟨-, hlive⟩ := live_of_min?_eq_none (hmin reuse)
    have := h.live_eq
    simp only [Call.enter, List.length_append, List.length_range']
    omega
  | block | reset => cases single
  | reused | released | refused => exact stays rfl

/-- **The high water mark is the peak of what was held**, once it was so. -/
theorem Balanced.isGreatest_counts_run (h : s.Balanced) (reuse : s.pool.policy = .reuse)
    (peak : s.pool.highWater = s.held.length) {calls : List Call}
    (single : ∀ c ∈ calls, c.isSingle) :
    IsGreatest (s.counts calls) (s.run calls).pool.highWater := by
  induction calls using List.reverseRecOn with
  | nil =>
    rw [counts_nil, ← peak]
    exact isGreatest_singleton
  | append_singleton calls c ih =>
    have before := ih fun c hc => single c (List.mem_append_left _ hc)
    have reuse' := (config_run s calls).1.trans reuse
    have hc := single c (List.mem_append_right _ List.mem_cons_self)
    rw [counts_concat, run_concat, (h.run calls).highWater_step reuse' hc]
    exact before.union isGreatest_singleton

/-- **A pool that reuses names as many handles as were held at once**, and no
more: whatever is taken and given back one at a time, the refused calls
included. The pool itself counts the handles held all along. -/
theorem highWater_isGreatest_counts (capacity : Option ℕ) (calls : List Call)
    (single : ∀ c ∈ calls, c.isSingle) :
    IsGreatest ((start .reuse capacity).counts calls)
        ((start .reuse capacity).run calls).pool.highWater ∧
      ∀ made, made <+: calls → ((start .reuse capacity).run made).pool.live =
        ((start .reuse capacity).run made).held.length :=
  have balanced := balanced_start .reuse capacity
  ⟨balanced.isGreatest_counts_run rfl rfl single, fun made _ => (balanced.run made).live_eq⟩

/-- Three handles are asked for where there are two, and one is given back
twice. -/
def crowded : List Call :=
  [.allocate, .allocate, .allocate, .release 0, .release 0, .allocate, .release 1]

theorem highWater_isGreatest_counts_crowded :
    (∀ c ∈ crowded, c.isSingle) ∧ ((start .reuse (some 2)).run crowded).held = [0] ∧
      IsGreatest ((start .reuse (some 2)).counts crowded) 2 := by
  have single : ∀ c ∈ crowded, c.isSingle := by decide
  have mark : ((start .reuse (some 2)).run crowded).pool.highWater = 2 := by cbv
  refine ⟨single, by cbv, ?_⟩
  have greatest := (highWater_isGreatest_counts (some 2) crowded single).1
  rwa [mark] at greatest

end History

end Pool

end QuantumLowering
