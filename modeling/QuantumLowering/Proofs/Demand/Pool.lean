import QuantumLowering.Proofs.Resource.Live
import QuantumLowering.Proofs.Resource.Table
/-!
# What drawing on a pool costs

A pool that never reuses hands out exactly as many new handles as are
drawn; one that reuses can do with fewer, but it may refuse to take a
handle back. Either way nothing else can go wrong than that the capacity
is too small. `Pool.Spends` says this of any number of draws and releases
in a row, and it adds up (`Pool.Spends.after`).
-/


namespace QuantumLowering

/-- **A handle is not taken back**: it was never handed out, or it is free
already. -/
inductive PoolError.Invalid : PoolError → Prop
  /-- It was never handed out. -/
  | neverIssued (h : Handle) : Invalid (.neverIssued h)
  /-- It is free already. -/
  | alreadyReleased (h : Handle) : Invalid (.alreadyReleased h)

namespace Pool

variable {p p₁ p' : Pool} {kind : ResourceKind} {n m : ℕ} {o : Option Failure}

/-! ## Draws that succeed -/

/-- **So many handles were drawn** from a pool, and others may have been
released in between. -/
structure Drawn (n : ℕ) (p p' : Pool) : Prop where
  /-- The policy stays. -/
  policy : p'.policy = p.policy
  /-- The capacity stays. -/
  capacity : p'.capacity = p.capacity
  /-- No more new handles were handed out than were drawn. -/
  atMost : p'.highWater ≤ p.highWater + n
  /-- Without reuse each of them is new. -/
  exact : p.policy = .noReuse → p'.highWater = p.highWater + n
  /-- The pool holds no more than it can. -/
  within : p.highWater ≤ p.limit → p'.highWater ≤ p.limit

namespace Drawn

theorem limit (h : p.Drawn n p') : p'.limit = p.limit := by rw [Pool.limit, h.capacity, Pool.limit]

theorem refl (p : Pool) : p.Drawn 0 p := ⟨rfl, rfl, Nat.le_refl _, fun _ => rfl, id⟩

theorem trans (h : p.Drawn n p₁) (k : p₁.Drawn m p') : p.Drawn (n + m) p' where
  policy := k.policy.trans h.policy
  capacity := k.capacity.trans h.capacity
  atMost := by
    have h₁ := h.atMost
    have h₂ := k.atMost
    omega
  exact hp := by
    have h₁ := h.exact hp
    have h₂ := k.exact (h.policy.trans hp)
    omega
  within hle := by
    have hlimit := h.limit
    rw [← hlimit]
    exact k.within (hlimit ▸ h.within hle)

/-- Drawing keeps a pool bounded. -/
theorem bounded (h : p.Drawn n p') (hp : p.Bounded) : p'.Bounded := by
  rw [Pool.Bounded, h.limit]
  exact h.within hp

/-- **Without reuse, a fresh pool hands out as many handles as are drawn**, and
it holds them. -/
theorem of_fresh (h : p.Drawn n p') (hp : p.policy = .noReuse) (fresh : p.highWater = 0) :
    p'.highWater = n ∧ n ≤ p.limit := by
  have exact := h.exact hp
  have within := h.within (by omega)
  omega

end Drawn

theorem drawn_allocateBlock {base : Handle} (h : p.allocateBlock n = (p', .ok base)) :
    p.Drawn n p' := by
  obtain ⟨hle, -, rfl⟩ := allocateBlock_eq_ok.1 h
  exact ⟨rfl, rfl, Nat.le_refl _, fun _ => rfl, fun _ => hle⟩

theorem drawn_allocate {handle : Handle} (h : p.allocate = (p', .ok handle)) : p.Drawn 1 p' := by
  rcases p.allocate_cases with ⟨least, hp, -, ha⟩ | ⟨-, ha⟩
  · -- a free handle is handed out again, and no new one
    rw [ha] at h
    cases h
    refine ⟨rfl, rfl, Nat.le_add_right _ _, fun hno => ?_, id⟩
    rw [hp] at hno
    cases hno
  · rw [ha] at h
    exact drawn_allocateBlock h

/-- Without reuse a handle is a new one. -/
theorem eq_highWater_of_allocate {handle : Handle} (hp : p.policy = .noReuse)
    (h : p.allocate = (p', .ok handle)) : handle = p.highWater := by
  rcases p.allocate_cases with ⟨least, hr, -, -⟩ | ⟨-, ha⟩
  · rw [hp] at hr
    cases hr
  · rw [ha] at h
    exact (allocateBlock_eq_ok.1 h).2.1

theorem drawn_release {handle : Handle} (h : p.release handle = (p', .ok ())) : p.Drawn 0 p' := by
  obtain ⟨-, -, -, rfl⟩ := release_eq_ok.1 h
  exact ⟨rfl, rfl, Nat.le_refl _, fun _ => rfl, id⟩

/-- Releasing draws nothing. -/
theorem drawn_releaseBlock {base : Handle} {size : ℕ}
    (h : p.releaseBlock base size = (p', .ok ())) : p.Drawn 0 p' := by
  induction size generalizing p base with
  | zero =>
    cases h
    exact .refl _
  | succ size ih =>
    unfold releaseBlock at h
    split at h
    · rename_i hq
      exact (drawn_release hq).trans (ih h)
    · cases h

/-! ## Which handles were handed out -/

/-- A block of handles that is handed out ends where the new ones begin. -/
theorem lt_highWater_allocateBlock {size : ℕ} {base : Handle}
    (h : p.allocateBlock size = (p', .ok base)) (x : ℕ) :
    x < p'.highWater ↔ x < p.highWater ∨ x ∈ (Resource.block kind base size).addresses := by
  obtain ⟨-, hbase, hp'⟩ := allocateBlock_eq_ok.1 h
  have hmem : x ∈ (Resource.block kind base size).addresses ↔
      p.highWater ≤ x ∧ x < p.highWater + size := by
    rw [hbase]
    exact Resource.mem_addresses
  have hwater : p'.highWater = p.highWater + size := by rw [hp']
  rw [hmem]
  omega

/-- So does a handle, unless it was handed out before. -/
theorem lt_highWater_allocate (issued : p.Issued) {handle : Handle}
    (h : p.allocate = (p', .ok handle)) (x : ℕ) :
    x < p'.highWater ↔ x < p.highWater ∨ x ∈ (Resource.single kind handle).addresses := by
  rcases p.allocate_cases with ⟨least, -, hmin, ha⟩ | ⟨-, ha⟩
  · rw [ha] at h
    cases h
    have hfree : handle ∈ p.free := (Std.TreeSet.min?_eq_some_iff_mem_and_forall.1 hmin).1
    rw [Resource.mem_addresses_single]
    refine ⟨.inl, ?_⟩
    rintro (hlt | rfl)
    · exact hlt
    · exact issued x hfree
  · rw [ha] at h
    exact lt_highWater_allocateBlock h x

/-- Releases take no handle out of those that were handed out, even where one is
refused. -/
theorem issued_releaseBlock (issued : p.Issued) (base : Handle) (size : ℕ) :
    (p.releaseBlock base size).1.Issued ∧
      (p.releaseBlock base size).1.highWater = p.highWater := by
  induction size generalizing p base with
  | zero => exact ⟨issued, rfl⟩
  | succ size ih =>
    have first := issued.release base
    have water := p.highWater_release base
    unfold releaseBlock
    rcases hq : p.release base with ⟨q, e | _⟩ <;> rw [hq] at first water
    · exact ⟨first, water⟩
    · obtain ⟨rest, same⟩ := ih first (base + 1)
      exact ⟨rest, same.trans water⟩

/-! ## Draws that fail -/

theorem invalid_of_release {handle : Handle} {e : PoolError} (hp : p.policy = .reuse)
    (h : p.release handle = (p', .error e)) : e.Invalid := by
  unfold release at h
  split at h
  · cases h
    exact .neverIssued handle
  split at h
  · cases h
    exact .alreadyReleased handle
  · rw [hp] at h
    cases h

/-- A pool that reuses refuses a block for a handle in it. -/
theorem invalid_of_releaseBlock {base : Handle} {size : ℕ} {e : PoolError}
    (hp : p.policy = .reuse) (h : p.releaseBlock base size = (p', .error e)) : e.Invalid := by
  induction size generalizing p base with
  | zero => cases h
  | succ size ih =>
    unfold releaseBlock at h
    split at h
    · rename_i hq
      exact ih ((drawn_release hq).policy.trans hp) h
    · rename_i hq
      cases h
      exact invalid_of_release hp hq

/-- A handle that is not taken back is not live. -/
theorem not_live_of_release {x : Handle} {e : PoolError} (h : p.release x = (p', .error e))
    (invalid : e.Invalid) : ¬ p.Live x := by
  rintro ⟨hlt, hfree⟩
  unfold release at h
  rw [if_neg (Nat.not_le.2 hlt)] at h
  split at h
  · rename_i hcontains
    exact hfree (Std.TreeSet.contains_iff_mem.1 hcontains)
  · split at h
    · cases h
      cases invalid
    · cases h

/-- A block that is not taken back has a handle that is not live. -/
theorem exists_not_live_of_releaseBlock (issued : p.Issued) {base : Handle} {size : ℕ}
    {e : PoolError} (h : p.releaseBlock base size = (p', .error e)) (invalid : e.Invalid) :
    ∃ x ∈ List.range' base size, ¬ p.Live x := by
  induction size generalizing p base with
  | zero => cases h
  | succ size ih =>
    rw [List.range'_succ]
    unfold releaseBlock at h
    split at h
    · rename_i q hq
      have returns := returns_release issued hq
      obtain ⟨x, hx, dead⟩ := ih returns.issued h
      have hne : x ∉ [base] := by
        have := (List.mem_range'_1.1 hx).1
        simp only [List.mem_singleton]
        omega
      exact ⟨x, List.mem_cons_of_mem _ hx, fun live => dead ((returns.live x).2 ⟨live, hne⟩)⟩
    · rename_i hq
      cases h
      exact ⟨base, List.mem_cons_self, not_live_of_release hq invalid⟩

/-! ## Whatever comes of draws -/

/-- **What may come of drawing so many handles**: the pool afterwards, and why
it ended early, if it did. -/
inductive Spends (kind : ResourceKind) (n : ℕ) (p : Pool) : Pool → Option Failure → Prop
  /-- All of them were drawn. -/
  | drawn {p' : Pool} : p.Drawn n p' → Spends kind n p p' none
  /-- There are too many. -/
  | exhausted {p' : Pool} : p.limit < p.highWater + n →
    Spends kind n p p' (some (.allocation kind (.exhausted p.limit)))
  /-- A handle was not taken back. -/
  | refused {p' : Pool} {e : PoolError} : p.policy = .reuse → e.Invalid →
    Spends kind n p p' (some (.allocation kind e))

namespace Spends

/-- **What is spent adds up.** -/
theorem after (h : p.Drawn n p₁) (k : p₁.Spends kind m p' o) : p.Spends kind (n + m) p' o := by
  cases k with
  | drawn k => exact .drawn (h.trans k)
  | exhausted hlt =>
    rw [h.limit] at hlt ⊢
    have := h.atMost
    exact .exhausted (by omega)
  | refused hp he => exact .refused (h.policy.symm.trans hp) he

/-- What failed would have failed with more to draw. -/
theorem add {e : Failure} (h : p.Spends kind n p' (some e)) (m : ℕ) :
    p.Spends kind (n + m) p' (some e) := by
  cases h with
  | exhausted hlt => exact .exhausted (by omega)
  | refused hp he => exact .refused hp he

/-- Nothing else was drawn. -/
theorem drawn_of_none (h : p.Spends kind n p' none) : p.Drawn n p' := by
  cases h with
  | drawn h => exact h

/-- **Without reuse draws fail only if there are too many.** -/
theorem exhausted_of_some {e : Failure} (h : p.Spends kind n p' (some e))
    (hp : p.policy = .noReuse) :
    p.limit < p.highWater + n ∧ e = .allocation kind (.exhausted p.limit) := by
  cases h with
  | exhausted hlt => exact ⟨hlt, rfl⟩
  | refused hr =>
    rw [hp] at hr
    cases hr

/-- **With capacity enough only a release can fail.** -/
theorem invalid_of_le (h : p.Spends kind n p' o) (hle : p.highWater + n ≤ p.limit) :
    o = none ∧ p.Drawn n p' ∨ ∃ e : PoolError, o = some (.allocation kind e) ∧ e.Invalid := by
  cases h with
  | drawn h => exact .inl ⟨rfl, h⟩
  | exhausted hlt => omega
  | refused _ he => exact .inr ⟨_, rfl, he⟩

end Spends

end Pool

/-! ## Drawing on a stock -/

/-- Why nothing was drawn, if so. -/
def Draw.failure {α : Type} (d : Draw α) : Option Failure :=
  match d.2 with
  | .ok _ => none
  | .error e => some e

@[simp] theorem Draw.failure_map {α β : Type} (g : α → β) (d : Draw α) :
    (d.map g).failure = d.failure := by
  obtain ⟨s, _ | _⟩ := d <;> rfl

@[simp] theorem Draw.fst_map {α β : Type} (g : α → β) (d : Draw α) : (d.map g).1 = d.1 := rfl

namespace Stock

variable {s : Stock} {kind : ResourceKind} {v : ValueId}

/-- A value not looked at before can be bound to anything. -/
theorem exists_record (new : s.tracker.resolve? v = none) (r : Resource) (count : ℕ) :
    ∃ t, s.tracker.record v r count = (t, .ok ()) := by
  simp [Tracker.record, Tracker.assign, new]

theorem spends_keep {n width : ℕ} {count : Handle → ℕ} {drawn : Pool.Reply Handle}
    (new : s.tracker.resolve? v = none)
    (ok : ∀ p h, drawn = (p, .ok h) → s.pool.Drawn n p)
    (error : ∀ p e, drawn = (p, .error e) →
      s.pool.limit < s.pool.highWater + n ∧ e = .exhausted s.pool.limit) :
    s.pool.Spends kind n
      (s.keep kind (fun h => s.tracker.record v ⟨kind, h, width⟩ (count h)) drawn).1.pool
      (s.keep kind (fun h => s.tracker.record v ⟨kind, h, width⟩ (count h)) drawn).failure := by
  obtain ⟨p, e | h⟩ := drawn
  · obtain ⟨hlt, rfl⟩ := error p e rfl
    exact .exhausted hlt
  · obtain ⟨t, ht⟩ := exists_record new ⟨kind, h, width⟩ (count h)
    simp only [keep, ht]
    exact .drawn (ok p h rfl)

/-- **Acquiring draws one handle.** -/
theorem spends_acquire (new : s.tracker.resolve? v = none) :
    s.pool.Spends kind 1 (s.acquire kind v).1.pool (s.acquire kind v).failure :=
  spends_keep new (fun _ _ => Pool.drawn_allocate) fun _ _ h =>
    (Pool.allocate_eq_error h).imp_right And.left

/-- **Acquiring a block draws as many as it has.** -/
theorem spends_acquireBlock (new : s.tracker.resolve? v = none) (size : ℕ) :
    s.pool.Spends kind size (s.acquireBlock kind v size).1.pool
      (s.acquireBlock kind v size).failure :=
  spends_keep new (fun _ _ => Pool.drawn_allocateBlock) fun _ _ h =>
    (Pool.allocateBlock_eq_error.1 h).imp_right And.left

/-- Deriving draws nothing. -/
theorem spends_derive (new : s.tracker.resolve? v = none) (o : Option Resource) :
    s.pool.Spends kind 0 (s.derive v o).1.pool (s.derive v o).failure := by
  have bound : ∃ t, s.tracker.bind v o = (t, .ok ()) := by
    cases o <;> simp [Tracker.bind, Tracker.assign, new]
  obtain ⟨t, ht⟩ := bound
  simp only [derive, ht]
  exact .drawn (.refl _)

/-- A pool that reuses takes back or refuses. -/
theorem spends_release (hp : s.pool.policy = .reuse) {r : Resource} (hr : r.kind = kind) :
    s.pool.Spends kind 0 (s.release r).1.pool (s.release r).failure := by
  subst hr
  unfold release
  split
  · rename_i h
    exact .drawn (Pool.drawn_releaseBlock h)
  · rename_i h
    exact .refused hp (Pool.invalid_of_releaseBlock hp h)

end Stock

end QuantumLowering
