import Mathlib.Data.Nat.Notation
import QuantumLowering.Resource.Pool
/-!
# Live handles

A handle is live from when it is handed out until it is released. Handing
out takes handles that are not live and makes them live; releasing ends
that. All of this needs that only handles that were handed out are free,
which holds of every pool that can be reached.
-/


namespace QuantumLowering

theorem Resource.mem_addresses {r : Resource} {x : Handle} :
    x ∈ r.addresses ↔ r.handle ≤ x ∧ x < r.handle + r.width := by
  rw [addresses, List.mem_range'_1]

/-- A single resource has one handle. -/
theorem Resource.mem_addresses_single {kind : ResourceKind} {h x : Handle} :
    x ∈ (single kind h).addresses ↔ x = h := List.mem_singleton

/-! ## Words -/

/-- **A resource fits** if it ends before the addresses do, so that its end is
one of them. -/
def Resource.Fits (r : Resource) : Prop := r.handle + r.width < addressLimit

instance (r : Resource) : Decidable r.Fits := inferInstanceAs (Decidable (_ < _))

/-- Then there are as many handles as the resource is wide. -/
theorem Resource.Fits.count {r : Resource} (h : r.Fits) : r.count = r.width := by
  rw [Resource.count, Nat.mod_eq_of_lt h, Nat.add_sub_cancel_left]

/-- **The handles of a resource that fits** are its addresses. -/
theorem Resource.Fits.handles {r : Resource} (h : r.Fits) : r.handles = r.addresses := by
  rw [Resource.handles, h.count, Resource.addresses]

/-- A resource of words that does not fit has no handles. -/
theorem Resource.count_of_not_fits {r : Resource} (h : ¬ r.Fits)
    (width : r.width ≤ addressLimit) : r.count = 0 := by
  have beyond : addressLimit ≤ r.handle + r.width := Nat.le_of_not_lt h
  rw [count, Nat.mod_eq_sub_mod beyond]
  exact Nat.sub_eq_zero_of_le (Nat.le_trans (Nat.mod_le _ _) (by omega))

/-- Where the resource fits, its elements follow one another, and they fit. -/
theorem Resource.Fits.mod_eq {r : Resource} (h : r.Fits) {index : ℕ} (hi : index < r.width) :
    (r.handle + index) % addressLimit = r.handle + index :=
  Nat.mod_eq_of_lt (Nat.lt_trans (Nat.add_lt_add_left hi _) h)

theorem Resource.Fits.element? {r : Resource} (h : r.Fits) {index : ℕ} (hi : index < r.width) :
    r.element? index = some (.single r.kind (r.handle + index)) := by
  rw [Resource.element?, if_pos hi, h.mod_eq hi]

theorem Resource.Fits.single {r : Resource} (h : r.Fits) {index : ℕ} (hi : index < r.width) :
    (single r.kind (r.handle + index)).Fits :=
  Nat.lt_of_le_of_lt (Nat.add_lt_add_left hi r.handle) h

theorem Handle.order_eq_iff {a b : Handle} : Handle.order a b = .eq ↔ a = b :=
  Std.LawfulEqCmp.compare_eq_iff_eq

namespace Pool

variable {p p' : Pool}

/-- **A live handle** was handed out and is not free. -/
def Live (p : Pool) (h : Handle) : Prop := h < p.highWater ∧ h ∉ p.free

/-- Only handles that were handed out are free. -/
def Issued (p : Pool) : Prop := ∀ h ∈ p.free, h < p.highWater

/-- **The pools that can be reached.** -/
inductive Reachable : Pool → Prop
  /-- Nothing was handed out. -/
  | fresh (policy : ReusePolicy) (capacity : Option ℕ) : Reachable (fresh policy capacity)
  /-- A handle is handed out. -/
  | allocate {p : Pool} : Reachable p → Reachable p.allocate.1
  /-- A block is handed out. -/
  | allocateBlock {p : Pool} (size : ℕ) : Reachable p → Reachable (p.allocateBlock size).1
  /-- A handle is released. -/
  | release {p : Pool} (h : Handle) : Reachable p → Reachable (p.release h).1
  /-- Every handle is forgotten. -/
  | reset {p : Pool} : Reachable p → Reachable p.reset

/-- **The pools that have handed out no more handles than they can hold.** -/
def Bounded (p : Pool) : Prop := p.highWater ≤ p.limit

/-! ## What a pool does -/

/-- Addresses can count the handles that a pool can hold. -/
theorem limit_lt (p : Pool) : p.limit < addressLimit :=
  Nat.lt_of_le_of_lt (Nat.min_le_right _ _) (Nat.sub_lt (by decide) Nat.one_pos)

theorem allocateBlock_eq_ok {size : ℕ} {base : Handle} :
    p.allocateBlock size = (p', .ok base) ↔ p.highWater + size ≤ p.limit ∧ base = p.highWater ∧
      p' = { p with highWater := p.highWater + size } := by
  unfold allocateBlock
  split
  · simp [eq_comm, and_comm, *]
  · simp [*]

/-- A pool that refuses a block stays as it is. -/
theorem allocateBlock_eq_error {size : ℕ} {e : PoolError} :
    p.allocateBlock size = (p', .error e) ↔
      p.limit < p.highWater + size ∧ e = .exhausted p.limit ∧ p' = p := by
  unfold allocateBlock
  split
  · simp only [Prod.mk.injEq, reduceCtorEq, and_false, false_iff, not_and]
    omega
  · simp only [Prod.mk.injEq, Except.error.injEq, eq_comm (a := e), eq_comm (a := p')]
    exact ⟨fun h => ⟨by omega, h.2, h.1⟩, fun h => ⟨h.2.2, h.2.1⟩⟩

/-- A handle comes from the free ones, the least of them, or is a new one. -/
theorem allocate_cases (p : Pool) :
    (∃ least, p.policy = .reuse ∧ p.free.min? = some least ∧
        p.allocate = ({ p with free := p.free.erase least }, .ok least)) ∨
      ((p.policy = .reuse → p.free.min? = none) ∧ p.allocate = p.allocateBlock 1) := by
  unfold allocate
  split
  · rename_i least hp hmin
    exact .inl ⟨least, hp, hmin, rfl⟩
  · rename_i hnone
    refine .inr ⟨fun hp => Option.eq_none_iff_forall_ne_some.2 fun x hx => ?_, rfl⟩
    exact hnone x hp hx

/-- A pool that refuses a handle stays as it is. -/
theorem allocate_eq_error {e : PoolError} (h : p.allocate = (p', .error e)) :
    p.limit < p.highWater + 1 ∧ e = .exhausted p.limit ∧ p' = p := by
  rcases p.allocate_cases with ⟨least, -, -, ha⟩ | ⟨-, ha⟩
  · rw [ha] at h
    cases h
  · exact allocateBlock_eq_error.1 (ha ▸ h)

theorem release_eq_ok {h : Handle} :
    p.release h = (p', .ok ()) ↔ h < p.highWater ∧ h ∉ p.free ∧ p.policy = .reuse ∧
      p' = { p with free := p.free.insert h } := by
  unfold release
  rw [← Std.TreeSet.contains_iff_mem]
  by_cases hissued : p.highWater ≤ h
  · simp [hissued, Nat.not_lt.2 hissued]
  rw [if_neg hissued, and_iff_right (Nat.lt_of_not_le hissued)]
  cases p.free.contains h with
  | true => simp
  | false => cases hp : p.policy <;> simp [eq_comm]

/-- A pool that refuses a release stays as it is. -/
theorem eq_of_release_eq_error {h : Handle} {e : PoolError} (hr : p.release h = (p', .error e)) :
    p' = p := by
  unfold release at hr
  split at hr
  · exact (congrArg Prod.fst hr).symm
  split at hr
  · exact (congrArg Prod.fst hr).symm
  split at hr
  · exact (congrArg Prod.fst hr).symm
  · cases hr

/-! ## Handing out -/

/-- **A resource is taken from a pool**: its handles were not live, and they
are now. -/
structure Takes (p : Pool) (r : Resource) (p' : Pool) : Prop where
  /-- The handles were not live. -/
  new : ∀ x ∈ r.addresses, ¬ p.Live x
  /-- They are live now, and the others are as they were. -/
  live : ∀ x, p'.Live x ↔ p.Live x ∨ x ∈ r.addresses
  /-- Only handles that were handed out are free. -/
  issued : p'.Issued
  /-- The policy stays. -/
  policy : p'.policy = p.policy

theorem takes_allocateBlock (issued : p.Issued) {size : ℕ} {base : Handle}
    (h : p.allocateBlock size = (p', .ok base)) (kind : ResourceKind) :
    p.Takes (.block kind base size) p' := by
  unfold allocateBlock at h
  split at h
  · cases h
    refine ⟨fun x hx hlive => ?_, fun x => ?_, fun x hx => ?_, rfl⟩
    · -- the block starts at the high water mark, and nothing above that is live
      have hle : p.highWater ≤ x := (Resource.mem_addresses.1 hx).1
      exact absurd hlive.1 (Nat.not_lt.2 hle)
    · rw [Resource.mem_addresses]
      constructor
      · rintro ⟨hlt, hfree⟩
        by_cases hx : x < p.highWater
        · exact .inl ⟨hx, hfree⟩
        · exact .inr ⟨Nat.le_of_not_lt hx, hlt⟩
      · rintro (⟨hlt, hfree⟩ | ⟨hle, hlt⟩)
        · exact ⟨Nat.lt_add_right size hlt, hfree⟩
        · exact ⟨hlt, fun hfree => absurd (issued x hfree) (Nat.not_lt.2 hle)⟩
    · exact Nat.lt_add_right size (issued x hx)
  · cases h

theorem takes_allocate (issued : p.Issued) {handle : Handle}
    (h : p.allocate = (p', .ok handle)) (kind : ResourceKind) :
    p.Takes (.single kind handle) p' := by
  unfold allocate at h
  split at h
  · rename_i least _ hmin
    cases h
    -- a free handle was handed out once, so it is below the high water mark
    have hfree : handle ∈ p.free := (Std.TreeSet.min?_eq_some_iff_mem_and_forall.1 hmin).1
    refine ⟨fun x hx hlive => ?_, fun x => ?_, fun x hx => ?_, rfl⟩
    · exact hlive.2 (Resource.mem_addresses_single.1 hx ▸ hfree)
    · rw [Resource.mem_addresses_single, Live, Live, Std.TreeSet.mem_erase, ne_eq,
        Handle.order_eq_iff]
      constructor
      · rintro ⟨hlt, hx⟩
        by_cases hxh : x = handle
        · exact .inr hxh
        · exact .inl ⟨hlt, fun hf => hx ⟨fun e => hxh e.symm, hf⟩⟩
      · rintro (⟨hlt, hx⟩ | rfl)
        · exact ⟨hlt, fun hf => hx hf.2⟩
        · exact ⟨issued _ hfree, fun hf => hf.1 rfl⟩
    · exact issued x (Std.TreeSet.mem_erase.1 hx).2
  · exact takes_allocateBlock issued h kind

/-! ## Releasing -/

/-- **Handles go back to a pool**: they are not live any more. -/
structure Returns (p : Pool) (handles : List Handle) (p' : Pool) : Prop where
  /-- They are not live any more, and the others are as they were. -/
  live : ∀ x, p'.Live x ↔ p.Live x ∧ x ∉ handles
  /-- Only handles that were handed out are free. -/
  issued : p'.Issued
  /-- The policy stays. -/
  policy : p'.policy = p.policy

theorem returns_release (issued : p.Issued) {handle : Handle} (h : p.release handle = (p', .ok ())) :
    p.Returns [handle] p' := by
  unfold release at h
  split at h
  · cases h
  rename_i hissued
  split at h
  · cases h
  split at h
  · cases h
  cases h
  refine ⟨fun x => ?_, fun x hx => ?_, rfl⟩
  · rw [Live, Live, Std.TreeSet.mem_insert, Handle.order_eq_iff, List.mem_singleton, not_or,
      and_assoc, eq_comm, and_comm (a := ¬ x = handle)]
  · rcases Std.TreeSet.mem_insert.1 hx with he | hx
    · rw [← Handle.order_eq_iff.1 he]
      exact Nat.lt_of_not_le hissued
    · exact issued x hx

theorem returns_releaseBlock (issued : p.Issued) {base : Handle} {size : ℕ}
    (h : p.releaseBlock base size = (p', .ok ())) : p.Returns (List.range' base size) p' := by
  induction size generalizing p base with
  | zero =>
    cases h
    exact ⟨fun x => by simp, issued, rfl⟩
  | succ size ih =>
    unfold releaseBlock at h
    split at h
    · rename_i q hq
      have first := returns_release issued hq
      have rest := ih first.issued h
      refine ⟨fun x => ?_, rest.issued, rest.policy.trans first.policy⟩
      rw [rest.live, first.live, List.range'_succ, List.mem_singleton, List.mem_cons, not_or,
        and_assoc]
    · cases h

/-! ## The number of handles handed out -/

theorem highWater_le_allocateBlock (p : Pool) (size : ℕ) :
    p.highWater ≤ (p.allocateBlock size).1.highWater := by
  unfold allocateBlock
  split
  · exact Nat.le_add_right _ _
  · exact Nat.le_refl _

theorem highWater_le_allocate (p : Pool) : p.highWater ≤ p.allocate.1.highWater := by
  rcases p.allocate_cases with ⟨least, -, -, ha⟩ | ⟨-, ha⟩
  · exact Nat.le_of_eq (by rw [ha])
  · rw [ha]
    exact p.highWater_le_allocateBlock 1

/-- Releases hand out no handle, even where one is refused. -/
theorem highWater_release (p : Pool) (h : Handle) : (p.release h).1.highWater = p.highWater := by
  rcases hr : p.release h with ⟨q, e | _⟩
  · rw [eq_of_release_eq_error hr]
  · obtain ⟨-, -, -, rfl⟩ := release_eq_ok.1 hr
    rfl

theorem highWater_releaseBlock (p : Pool) (base : Handle) (size : ℕ) :
    (p.releaseBlock base size).1.highWater = p.highWater := by
  induction size generalizing p base with
  | zero => rfl
  | succ size ih =>
    have water := p.highWater_release base
    unfold releaseBlock
    rcases hr : p.release base with ⟨q, e | _⟩ <;> rw [hr] at water
    · exact water
    · exact (ih q _).trans water

/-! ## Every pool that can be reached -/

theorem Issued.allocateBlock (issued : p.Issued) (size : ℕ) : (p.allocateBlock size).1.Issued := by
  rcases ha : p.allocateBlock size with ⟨q, e | base⟩
  · rwa [(allocateBlock_eq_error.1 ha).2.2]
  · exact (takes_allocateBlock issued ha .qubit).issued

theorem Issued.allocate (issued : p.Issued) : p.allocate.1.Issued := by
  rcases ha : p.allocate with ⟨q, e | x⟩
  · rwa [(allocate_eq_error ha).2.2]
  · exact (takes_allocate issued ha .qubit).issued

theorem Issued.release (issued : p.Issued) (h : Handle) : (p.release h).1.Issued := by
  rcases hr : p.release h with ⟨q, e | _⟩
  · rwa [eq_of_release_eq_error hr]
  · exact (returns_release issued hr).issued

theorem Reachable.issued (h : Reachable p) : p.Issued := by
  induction h with
  | fresh => exact fun x hx => absurd hx Std.TreeSet.not_mem_emptyc
  | allocate _ ih => exact ih.allocate
  | allocateBlock size _ ih => exact ih.allocateBlock size
  | release x _ ih => exact ih.release x
  | reset => exact fun x hx => absurd hx Std.TreeSet.not_mem_emptyc

/-- A bounded pool has handed out no more handles than its capacity. -/
theorem Bounded.highWater_le (bounded : p.Bounded) {n : ℕ} (hn : p.capacity = some n) :
    p.highWater ≤ n := by
  refine Nat.le_trans bounded ?_
  rw [limit, hn, Option.getD_some]
  exact Nat.min_le_left _ _

theorem Bounded.allocateBlock (bounded : p.Bounded) (size : ℕ) :
    (p.allocateBlock size).1.Bounded := by
  unfold Pool.allocateBlock
  split
  · assumption
  · exact bounded

theorem Bounded.allocate (bounded : p.Bounded) : p.allocate.1.Bounded := by
  rcases p.allocate_cases with ⟨least, -, -, ha⟩ | ⟨-, ha⟩
  · rw [ha]
    exact bounded
  · rw [ha]
    exact bounded.allocateBlock 1

theorem Bounded.release (bounded : p.Bounded) (h : Handle) : (p.release h).1.Bounded := by
  rcases hr : p.release h with ⟨q, e | _⟩
  · rwa [eq_of_release_eq_error hr]
  · obtain ⟨-, -, -, rfl⟩ := release_eq_ok.1 hr
    exact bounded

theorem Reachable.bounded (h : Reachable p) : p.Bounded := by
  induction h with
  | fresh => exact Nat.zero_le _
  | allocate _ ih => exact ih.allocate
  | allocateBlock size _ ih => exact ih.allocateBlock size
  | release x _ ih => exact ih.release x
  | reset => exact Nat.zero_le _

/-- **A sound pool**: both facts together. -/
structure Sound (p : Pool) : Prop where
  /-- Only handles that were handed out are free. -/
  issued : p.Issued
  /-- No more were handed out than the pool can hold. -/
  bounded : p.Bounded

theorem Reachable.sound (h : Reachable p) : p.Sound := ⟨h.issued, h.bounded⟩

namespace Sound

theorem allocateBlock (sound : p.Sound) (size : ℕ) : (p.allocateBlock size).1.Sound :=
  ⟨sound.issued.allocateBlock size, sound.bounded.allocateBlock size⟩

theorem allocate (sound : p.Sound) : p.allocate.1.Sound :=
  ⟨sound.issued.allocate, sound.bounded.allocate⟩

theorem releaseBlock (sound : p.Sound) (base : Handle) (size : ℕ) :
    (p.releaseBlock base size).1.Sound := by
  induction size generalizing p base with
  | zero => exact sound
  | succ size ih =>
    have first : (p.release base).1.Sound :=
      ⟨sound.issued.release base, sound.bounded.release base⟩
    unfold Pool.releaseBlock
    rcases hr : p.release base with ⟨q, e | _⟩ <;> rw [hr] at first
    · exact first
    · exact ih first _

end Sound

/-! ## What a pool hands out fits -/

theorem fits_of_allocateBlock {size : ℕ} {base : Handle} (kind : ResourceKind)
    (h : p.allocateBlock size = (p', .ok base)) : (Resource.block kind base size).Fits := by
  obtain ⟨hle, rfl, -⟩ := allocateBlock_eq_ok.1 h
  exact Nat.lt_of_le_of_lt hle p.limit_lt

/-- A free handle was handed out before, so it fits if no more were handed out than
the pool can hold. -/
theorem fits_of_allocate (sound : p.Sound) {x : Handle} (kind : ResourceKind)
    (h : p.allocate = (p', .ok x)) : (Resource.single kind x).Fits := by
  rcases p.allocate_cases with ⟨least, -, hmin, ha⟩ | ⟨-, ha⟩
  · rw [ha] at h
    cases h
    have hlt := sound.issued x (Std.TreeSet.min?_eq_some_iff_mem_and_forall.1 hmin).1
    exact Nat.lt_of_le_of_lt (Nat.le_trans hlt sound.bounded) p.limit_lt
  · exact fits_of_allocateBlock kind (ha ▸ h)

end Pool

end QuantumLowering
