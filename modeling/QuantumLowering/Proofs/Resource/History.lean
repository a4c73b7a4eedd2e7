import QuantumLowering.Proofs.Resource.Live
/-!
# Histories of a pool

Whoever calls a pool can keep books on the answers alone: a handle is held
from when it is handed out until it is released or everything is forgotten.
After any calls, the refused ones included, these books and the pool agree
(`Pool.History.Balanced`), and from that follows what the pool answers next
(`Pool.safe_after`).
-/


namespace QuantumLowering

theorem Handles.size_erase_add_one {free : Handles} {x : Handle} (hx : x ∈ free) :
    (free.erase x).size + 1 = free.size := by
  have nonempty : ¬ free.isEmpty := fun h => Std.TreeSet.isEmpty_iff_forall_not_mem.1 h x hx
  rw [Std.TreeSet.isEmpty_eq_size_eq_zero, beq_iff_eq] at nonempty
  rw [Std.TreeSet.size_erase, if_pos (Std.TreeSet.contains_iff_mem.2 hx)]
  omega

namespace Pool

/-! ## Calls and answers -/

/-- A call of a pool. -/
inductive Call where
  /-- Asks for a handle. -/
  | allocate
  /-- Asks for a block of handles. -/
  | allocateBlock (size : ℕ)
  /-- Gives a handle back. -/
  | release (h : Handle)
  /-- Gives everything back. -/
  | reset
deriving DecidableEq

/-- What a pool answers to a call. -/
inductive Answer where
  /-- It hands out handles that lie side by side. -/
  | handsOut (base : Handle) (size : ℕ)
  /-- It takes back what it is given. -/
  | takesBack
  /-- It refuses. -/
  | refuses (e : PoolError)
deriving DecidableEq

/-- The answer in a reply, by what the pool grants if it does not refuse. -/
def Reply.answer {α : Type} (granted : α → Answer) : Reply α → Pool × Answer
  | (p, .ok a) => (p, granted a)
  | (p, .error e) => (p, .refuses e)

/-- A pool after a call, and its answer. -/
def call (p : Pool) : Call → Pool × Answer
  | .allocate => Reply.answer (fun h => .handsOut h 1) p.allocate
  | .allocateBlock size => Reply.answer (fun h => .handsOut h size) (p.allocateBlock size)
  | .release h => Reply.answer (fun _ => .takesBack) (p.release h)
  | .reset => (p.reset, .takesBack)

/-- The handles held after a call, by its answer. -/
def Call.enter (held : List Handle) : Call → Answer → List Handle
  | _, .handsOut base size => held ++ List.range' base size
  | .release h, .takesBack => held.erase h
  | .reset, .takesBack => []
  | _, _ => held

/-- A pool, and the handles that were handed out and not given back. -/
structure History where
  /-- The pool. -/
  pool : Pool
  /-- The handles held, by the calls and the answers. -/
  held : List Handle

namespace History

/-- The history of a pool that was not called yet. -/
def start (policy : ReusePolicy) (capacity : Option ℕ) : History := ⟨fresh policy capacity, []⟩

/-- A history with one more call. -/
def step (s : History) (c : Call) : History :=
  ⟨(s.pool.call c).1, c.enter s.held (s.pool.call c).2⟩

/-- A history with more calls. -/
def run (s : History) (calls : List Call) : History := calls.foldl step s

end History

variable {p p' : Pool}

/-! ## What a call changes -/

/-- **What a call can do**: a call, the pool after it and the answer. -/
inductive Answers (p : Pool) : Call → Pool → Answer → Prop
  /-- The least free handle is handed out. -/
  | reused {least : Handle} : p.policy = .reuse → p.free.min? = some least →
    Answers p .allocate { p with free := p.free.erase least } (.handsOut least 1)
  /-- A new handle is handed out. -/
  | fresh : (p.policy = .reuse → p.free.min? = none) → p.highWater + 1 ≤ p.limit →
    Answers p .allocate { p with highWater := p.highWater + 1 } (.handsOut p.highWater 1)
  /-- New handles are handed out. -/
  | block {size : ℕ} : p.highWater + size ≤ p.limit →
    Answers p (.allocateBlock size) { p with highWater := p.highWater + size }
      (.handsOut p.highWater size)
  /-- A handle is taken back. -/
  | released {h : Handle} : h < p.highWater → h ∉ p.free → p.policy = .reuse →
    Answers p (.release h) { p with free := p.free.insert h } .takesBack
  /-- Every handle is taken back. -/
  | reset : Answers p .reset p.reset .takesBack
  /-- Nothing changes. -/
  | refused {c : Call} {e : PoolError} : Answers p c p (.refuses e)

/-- A block that is handed out or refused. -/
theorem answers_allocateBlock (p : Pool) (size : ℕ) :
    (p.highWater + size ≤ p.limit ∧ p.allocateBlock size =
        ({ p with highWater := p.highWater + size }, .ok p.highWater)) ∨
      p.allocateBlock size = (p, .error (.exhausted p.limit)) := by
  rcases Nat.lt_or_ge p.limit (p.highWater + size) with hlt | hle
  · exact .inr (allocateBlock_eq_error.2 ⟨hlt, rfl, rfl⟩)
  · exact .inl ⟨hle, allocateBlock_eq_ok.2 ⟨hle, rfl, rfl⟩⟩

/-- **Every call is one of those.** -/
theorem answers_call (p : Pool) (c : Call) : p.Answers c (p.call c).1 (p.call c).2 := by
  cases c with
  | allocate =>
    rcases p.allocate_cases with ⟨least, hp, hmin, ha⟩ | ⟨hnone, ha⟩
    · rw [call, ha]
      exact .reused hp hmin
    · rw [call, ha]
      rcases p.answers_allocateBlock 1 with ⟨hle, hb⟩ | hb
      · rw [hb]
        exact .fresh hnone hle
      · rw [hb]
        exact .refused
  | allocateBlock size =>
    rw [call]
    rcases p.answers_allocateBlock size with ⟨hle, hb⟩ | hb
    · rw [hb]
      exact .block hle
    · rw [hb]
      exact .refused
  | release h =>
    rw [call]
    rcases hr : p.release h with ⟨p', e | _⟩
    · obtain rfl := eq_of_release_eq_error hr
      exact .refused
    · obtain ⟨hlt, hfree, hp, rfl⟩ := release_eq_ok.1 hr
      exact .released hlt hfree hp
  | reset => exact .reset

theorem exists_answers {c : Call} {a : Answer} (h : (p.call c).2 = a) :
    ∃ p', (p.call c).1 = p' ∧ p.Answers c p' a :=
  ⟨_, rfl, h ▸ p.answers_call c⟩

/-- No call changes the policy or the limit. -/
theorem Answers.config {c : Call} {a : Answer} (h : p.Answers c p' a) :
    p'.policy = p.policy ∧ p'.limit = p.limit := by
  cases h <;> exact ⟨rfl, rfl⟩

/-- A block is handed out where there is room for it. -/
theorem exists_handsOut_allocateBlock_iff {size : ℕ} :
    (∃ base, (p.call (.allocateBlock size)).2 = .handsOut base size) ↔
      p.highWater + size ≤ p.limit := by
  constructor
  · rintro ⟨base, ha⟩
    obtain ⟨p', -, hc⟩ := exists_answers ha
    cases hc with
    | block hle => exact hle
  · intro hle
    exact ⟨p.highWater, by rw [call, allocateBlock_eq_ok.2 ⟨hle, rfl, rfl⟩]; rfl⟩

/-- A pool that reuses takes back what is live. -/
theorem takesBack_release_iff {h : Handle} :
    (p.call (.release h)).2 = .takesBack ↔ p.policy = .reuse ∧ p.Live h := by
  constructor
  · intro ha
    obtain ⟨p', -, hc⟩ := exists_answers ha
    cases hc with
    | released hlt hfree hp => exact ⟨hp, hlt, hfree⟩
  · rintro ⟨hp, hlt, hfree⟩
    rw [call, release_eq_ok.2 ⟨hlt, hfree, hp, rfl⟩]
    rfl

/-- A call that is refused changes nothing. -/
theorem call_of_refuses {c : Call} {e : PoolError} (h : (p.call c).2 = .refuses e) :
    (p.call c).1 = p := by
  obtain ⟨p', hp, hc⟩ := exists_answers h
  cases hc
  exact hp

/-- No handle is forgotten, unless all are. -/
theorem highWater_le_call {c : Call} (h : c ≠ .reset) :
    p.highWater ≤ (p.call c).1.highWater := by
  obtain ⟨p', hp, hc⟩ := exists_answers (p := p) (c := c) rfl
  rw [hp]
  generalize (p.call c).2 = a at hc
  cases hc with
  | reset => exact absurd rfl h
  | fresh | block => exact Nat.le_add_right _ _
  | _ => exact Nat.le_refl _

/-- Where no handle is free, all that were handed out are live. -/
theorem live_of_min?_eq_none (hmin : p.free.min? = none) :
    (∀ x, x ∉ p.free) ∧ p.live = p.highWater := by
  have hempty := Std.TreeSet.min?_eq_none_iff.1 hmin
  refine ⟨fun x => Std.TreeSet.isEmpty_iff_forall_not_mem.1 hempty x, ?_⟩
  rw [Std.TreeSet.isEmpty_eq_size_eq_zero, beq_iff_eq] at hempty
  rw [Pool.live, hempty, Nat.sub_zero]

/-! ## The books -/

namespace History

/-- **The books and the pool agree.** -/
structure Balanced (s : History) : Prop where
  /-- Only handles that were handed out are free. -/
  issued : s.pool.Issued
  /-- No more handles were handed out than the pool can hold. -/
  within : s.pool.Bounded
  /-- A pool that reuses nothing takes nothing back. -/
  unused : s.pool.policy = .noReuse → ∀ x, x ∉ s.pool.free
  /-- The handles held are the live ones. -/
  live : ∀ x, x ∈ s.held ↔ s.pool.Live x
  /-- Each is held once. -/
  nodup : s.held.Nodup
  /-- Every handle that was handed out is held or free. -/
  count : s.held.length + s.pool.free.size = s.pool.highWater

theorem balanced_start (policy : ReusePolicy) (capacity : Option ℕ) :
    (start policy capacity).Balanced where
  issued _ hx := absurd hx Std.TreeSet.not_mem_emptyc
  within := Nat.zero_le _
  unused _ _ := Std.TreeSet.not_mem_emptyc
  live _ := ⟨(absurd · List.not_mem_nil), fun h => absurd h.1 (Nat.not_lt_zero _)⟩
  nodup := .nil
  count := rfl

namespace Balanced

variable {s : History} {x : Handle}

/-- The pool counts the handles held. -/
theorem live_eq (h : s.Balanced) : s.pool.live = s.held.length := by
  have := h.count
  rw [Pool.live]
  omega

/-- A pool with a free handle reuses. -/
theorem reuse_of_mem (h : s.Balanced) (hx : x ∈ s.pool.free) : s.pool.policy = .reuse := by
  cases hp : s.pool.policy with
  | noReuse => exact absurd hx (h.unused hp x)
  | reuse => rfl

/-- New handles may be handed out. -/
theorem extend (h : s.Balanced) {size : ℕ} (hle : s.pool.highWater + size ≤ s.pool.limit) :
    Balanced ⟨{ s.pool with highWater := s.pool.highWater + size },
      s.held ++ List.range' s.pool.highWater size⟩ := by
  have takes := takes_allocateBlock h.issued
    (allocateBlock_eq_ok.2 ⟨hle, rfl, rfl⟩) .qubit
  refine ⟨takes.issued, hle, h.unused, fun y => ?_, ?_, ?_⟩
  · rw [List.mem_append, h.live, takes.live]
    rfl
  · rw [List.nodup_append]
    refine ⟨h.nodup, List.nodup_range', fun y hy z hz hyz => ?_⟩
    exact takes.new z hz ((h.live z).1 (hyz ▸ hy))
  · have := h.count
    simp only [List.length_append, List.length_range']
    omega

/-- The least free handle may be handed out. -/
theorem reuse (h : s.Balanced) (hmin : s.pool.free.min? = some x) :
    Balanced ⟨{ s.pool with free := s.pool.free.erase x }, s.held ++ List.range' x 1⟩ := by
  have hx : x ∈ s.pool.free := (Std.TreeSet.min?_eq_some_iff_mem_and_forall.1 hmin).1
  have hp := h.reuse_of_mem hx
  have takes : s.pool.Takes (.single .qubit x) { s.pool with free := s.pool.free.erase x } :=
    takes_allocate h.issued (by simp only [allocate, hp, hmin]) .qubit
  refine ⟨takes.issued, h.within, fun hno => absurd (hp.symm.trans hno) (by decide), fun y => ?_,
    ?_, ?_⟩
  · rw [List.mem_append, h.live, takes.live]
    rfl
  · rw [List.nodup_append]
    refine ⟨h.nodup, List.nodup_range', fun y hy z hz hyz => ?_⟩
    exact takes.new z hz ((h.live z).1 (hyz ▸ hy))
  · have hcount := h.count
    have hsize := Handles.size_erase_add_one hx
    simp only [List.length_append, List.length_range']
    omega

/-- A handle held may be taken back. -/
theorem release (h : s.Balanced) (hlt : x < s.pool.highWater) (hfree : x ∉ s.pool.free)
    (hp : s.pool.policy = .reuse) :
    Balanced ⟨{ s.pool with free := s.pool.free.insert x }, s.held.erase x⟩ := by
  have returns := returns_release h.issued (release_eq_ok.2 ⟨hlt, hfree, hp, rfl⟩)
  have hx : x ∈ s.held := (h.live x).2 ⟨hlt, hfree⟩
  refine ⟨returns.issued, h.within, fun hno => absurd (hp.symm.trans hno) (by decide), fun y => ?_,
    h.nodup.erase x, ?_⟩
  · rw [h.nodup.mem_erase_iff, h.live, returns.live, List.mem_singleton, and_comm]
  · have hcount := h.count
    have hpos := List.length_pos_of_mem hx
    rw [List.length_erase_of_mem hx, Std.TreeSet.size_insert,
      if_neg (by rwa [Std.TreeSet.contains_iff_mem])]
    simp only
    omega

/-- **The books and the pool agree after one more call.** -/
theorem step (h : s.Balanced) (c : Call) : (s.step c).Balanced := by
  have hc := s.pool.answers_call c
  unfold History.step
  generalize (s.pool.call c).1 = p' at hc ⊢
  generalize (s.pool.call c).2 = a at hc ⊢
  cases hc with
  | reused _ hmin => exact h.reuse hmin
  | fresh _ hle => exact h.extend hle
  | block hle => exact h.extend hle
  | released hlt hfree hp => exact h.release hlt hfree hp
  | reset => exact balanced_start s.pool.policy s.pool.capacity
  | refused => cases c <;> exact h

/-- **They agree after any calls.** -/
theorem run (h : s.Balanced) (calls : List Call) : (s.run calls).Balanced := by
  induction calls generalizing s with
  | nil => exact h
  | cons c calls ih => exact ih (h.step c)

end Balanced

/-- Calls change neither the policy nor the limit. -/
theorem config_run (s : History) (calls : List Call) :
    (s.run calls).pool.policy = s.pool.policy ∧ (s.run calls).pool.limit = s.pool.limit := by
  induction calls generalizing s with
  | nil => exact ⟨rfl, rfl⟩
  | cons c calls ih =>
    obtain ⟨hp, hl⟩ := (s.pool.answers_call c).config
    exact ⟨(ih _).1.trans hp, (ih _).2.trans hl⟩

/-! ## What the pool answers next -/

/-- **A safe pool**, given the handles that are held. -/
structure Safe (policy : ReusePolicy) (limit : ℕ) (s : History) : Prop where
  /-- Free handles were handed out. -/
  free : ∀ x ∈ s.pool.free, x < s.pool.highWater
  /-- No more handles were handed out than the pool can hold. -/
  within : s.pool.highWater ≤ limit
  /-- What is handed out is not held. -/
  apart : ∀ c base size, (s.pool.call c).2 = .handsOut base size →
    ∀ x, base ≤ x → x < base + size → x ∉ s.held
  /-- The pool counts the handles held. -/
  live : s.pool.live = s.held.length
  /-- A handle is to be had as long as fewer are held than the pool can hold. -/
  allocate : (∃ x, (s.pool.call .allocate).2 = .handsOut x 1) ↔ s.pool.live < limit
  /-- It is the least free one, or else the one after all that were handed
  out. -/
  least : ∀ x, (s.pool.call .allocate).2 = .handsOut x 1 →
    (x ∈ s.pool.free ∧ ∀ y ∈ s.pool.free, x ≤ y) ∨
      ((∀ y, y ∉ s.pool.free) ∧ x = s.pool.highWater)
  /-- A block is to be had as long as there is room after all that were handed
  out. -/
  block : ∀ size, (∃ base, (s.pool.call (.allocateBlock size)).2 = .handsOut base size) ↔
    s.pool.highWater + size ≤ limit
  /-- A pool that reuses takes back what is held, and nothing else. -/
  release : ∀ x, (s.pool.call (.release x)).2 = .takesBack ↔ policy = .reuse ∧ x ∈ s.held
  /-- A pool that refuses stays as it is. -/
  refuses : ∀ c e, (s.pool.call c).2 = .refuses e → (s.pool.call c).1 = s.pool
  /-- The number of handles that were handed out never falls, but when all are
  forgotten. -/
  grows : ∀ c, c ≠ .reset → s.pool.highWater ≤ (s.pool.call c).1.highWater

namespace Balanced

variable {s : History}

theorem not_mem_held (h : s.Balanced) {c : Call} {base : Handle} {size : ℕ}
    (ha : s.pool.Answers c p' (.handsOut base size)) {x : Handle} (hle : base ≤ x)
    (hlt : x < base + size) : x ∉ s.held := by
  intro hx
  obtain ⟨hxw, hxf⟩ := (h.live x).1 hx
  cases ha with
  | reused _ hmin =>
    have hmem := (Std.TreeSet.min?_eq_some_iff_mem_and_forall.1 hmin).1
    obtain rfl : x = base := Nat.le_antisymm (Nat.le_of_lt_succ hlt) hle
    exact hxf hmem
  | fresh => exact absurd hxw (Nat.not_lt.2 hle)
  | block => exact absurd hxw (Nat.not_lt.2 hle)

/-- Where a handle is free, not all that were handed out are held. -/
theorem live_lt_of_mem (h : s.Balanced) {x : Handle} (hx : x ∈ s.pool.free) :
    s.pool.live < s.pool.highWater := by
  have hsize := Handles.size_erase_add_one hx
  have hpos : 0 < s.pool.highWater := Nat.zero_lt_of_lt (h.issued x hx)
  rw [Pool.live]
  omega

/-- **What a pool answers when it is asked for a handle.** -/
theorem answer_allocate (h : s.Balanced) :
    (∃ x, (x ∈ s.pool.free ∧ ∀ y ∈ s.pool.free, x ≤ y) ∧ s.pool.live < s.pool.limit ∧
        (s.pool.call .allocate).2 = .handsOut x 1) ∨
      ((∀ y, y ∉ s.pool.free) ∧ s.pool.live < s.pool.limit ∧
        (s.pool.call .allocate).2 = .handsOut s.pool.highWater 1) ∨
      (s.pool.limit ≤ s.pool.live ∧
        (s.pool.call .allocate).2 = .refuses (.exhausted s.pool.limit)) := by
  have hwithin : s.pool.highWater ≤ s.pool.limit := h.within
  rcases s.pool.allocate_cases with ⟨least, -, hmin, ha⟩ | ⟨hnone, ha⟩
  · obtain ⟨hmem, hleast⟩ := Std.TreeSet.min?_eq_some_iff_mem_and_forall.1 hmin
    have hlt := h.live_lt_of_mem hmem
    refine .inl ⟨least, ⟨hmem, fun y hy => ?_⟩, by omega, by rw [call, ha]; rfl⟩
    exact Nat.isLE_compare.1 (hleast y hy)
  · -- a pool that reuses nothing has no free handle either
    have hmin : s.pool.free.min? = none := by
      rcases Option.eq_none_or_eq_some s.pool.free.min? with hmin | ⟨x, hmin⟩
      · exact hmin
      · have hmem := (Std.TreeSet.min?_eq_some_iff_mem_and_forall.1 hmin).1
        exact hnone (h.reuse_of_mem hmem)
    obtain ⟨hfree, hlive⟩ := live_of_min?_eq_none hmin
    by_cases hle : s.pool.highWater + 1 ≤ s.pool.limit
    · refine .inr (.inl ⟨hfree, by omega, ?_⟩)
      rw [call, ha, allocateBlock_eq_ok.2 ⟨hle, rfl, rfl⟩]
      rfl
    · refine .inr (.inr ⟨by omega, ?_⟩)
      rw [call, ha, allocateBlock_eq_error.2 ⟨by omega, rfl, rfl⟩]
      rfl

/-- **Where the books and the pool agree, the pool is safe.** -/
theorem safe (h : s.Balanced) : s.Safe s.pool.policy s.pool.limit where
  free := h.issued
  within := h.within
  apart c base size ha x hle hlt := by
    obtain ⟨p', -, hc⟩ := exists_answers ha
    exact h.not_mem_held hc hle hlt
  live := h.live_eq
  allocate := by
    rcases h.answer_allocate with ⟨x, -, hlt, ha⟩ | ⟨-, hlt, ha⟩ | ⟨hle, ha⟩
    · exact ⟨fun _ => hlt, fun _ => ⟨x, ha⟩⟩
    · exact ⟨fun _ => hlt, fun _ => ⟨_, ha⟩⟩
    · simp only [ha, reduceCtorEq, exists_false, false_iff]
      omega
  least x hx := by
    rcases h.answer_allocate with ⟨y, hy, -, ha⟩ | ⟨hfree, -, ha⟩ | ⟨-, ha⟩
    · obtain ⟨rfl, -⟩ := Answer.handsOut.inj (ha.symm.trans hx)
      exact .inl hy
    · obtain ⟨rfl, -⟩ := Answer.handsOut.inj (ha.symm.trans hx)
      exact .inr ⟨hfree, rfl⟩
    · cases ha.symm.trans hx
  block _ := exists_handsOut_allocateBlock_iff
  release x := by rw [h.live, takesBack_release_iff]
  refuses _ _ := call_of_refuses
  grows _ := highWater_le_call

end Balanced

end History

/-- **A pool is safe after any calls.** It holds as many handles as its capacity
says, which is a word; where there is none, the largest word stands in. -/
theorem safe_after (policy : ReusePolicy) (capacity : Option ℕ) (calls : List Call) :
    ((History.start policy capacity).run calls).Safe policy
      (min (capacity.getD (addressLimit - 1)) (addressLimit - 1)) := by
  have balanced := (History.balanced_start policy capacity).run calls
  obtain ⟨hp, hl⟩ := History.config_run (.start policy capacity) calls
  have safe := balanced.safe
  rw [hp, hl] at safe
  exact safe

/-- A handle that was released is handed out again, then a block beyond all
handles, and what was never handed out cannot be released. -/
example : (History.run (.start .reuse (some 4))
    [.allocate, .allocate, .release 0, .allocate, .allocateBlock 2, .release 7]).held =
      [1, 0, 2, 3] := by cbv

end Pool

end QuantumLowering
