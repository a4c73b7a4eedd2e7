import QuantumLowering.Proofs.Demand.Basic
import QuantumLowering.Proofs.Demand.Pool
/-!
# What lowering draws

A step of lowering acquires, derives or releases something, or leaves the
stock alone, and `Stock.Effect` says so once for both kinds of resources.
Lowering visits every instruction once and draws what it asks for, so what
it draws from a pool is what the program asks for (`Sweeps.Serves.spends_run`),
and without reuse the demands are laid out side by side
(`Sweeps.Serves.partitions_run`). Each step binds a value of its own, so no
step finds its value bound already, and none binds a value again.
-/


namespace QuantumLowering

/-! ## What a step draws -/

/-- **What a step can draw on a stock**, with what its instruction asks for and the
value that it binds. What it gives back satisfies a condition. -/
inductive Stock.Effect {α : Type} (kind : ResourceKind) (gives : Resource → Prop) (s : Stock) :
    Option (ValueId × ℕ) → Option ValueId → Draw α → Prop
  /-- A handle is acquired for a value. -/
  | acquire {v : ValueId} (g : Handle → α) :
    Effect kind gives s (some (v, 1)) (some v) ((s.acquire kind v).map g)
  /-- A block is acquired for a value. -/
  | acquireBlock {v : ValueId} {n : ℕ} (g : Handle → α) :
    Effect kind gives s (some (v, n)) (some v) ((s.acquireBlock kind v n).map g)
  /-- A value is derived from others. -/
  | derive {v : ValueId} {o : Option Resource} (g : Bool → α) :
    Effect kind gives s none (some v) ((s.derive v o).map g)
  /-- A resource is given back. -/
  | release {r : Resource} (g : Unit → α) : gives r →
    Effect kind gives s none none ((s.release r).map g)
  /-- The stock is left alone. -/
  | still (a : α) : Effect kind gives s none none (s, .ok a)

namespace Stock.Effect

variable {α : Type} {kind : ResourceKind} {gives : Resource → Prop} {s s' : Stock} {a : α}
variable {asks : Option (ValueId × ℕ)} {binds : Option ValueId} {d : Draw α}

/-- As much is drawn as is asked for. -/
theorem spends (h : s.Effect kind gives asks binds d)
    (reuses : ∀ r, gives r → s.pool.policy = .reuse ∧ r.kind = kind)
    (new : ∀ v, binds = some v → s.tracker.resolve? v = none) :
    s.pool.Spends kind (total asks.toList) d.1.pool d.failure := by
  cases h with
  | acquire =>
    rw [Draw.fst_map, Draw.failure_map]
    exact spends_acquire (new _ rfl)
  | @acquireBlock v n =>
    have size : total (some (v, n)).toList = n := by simp
    rw [Draw.fst_map, Draw.failure_map, size]
    exact spends_acquireBlock (new _ rfl) n
  | derive =>
    rw [Draw.fst_map, Draw.failure_map]
    exact spends_derive (new _ rfl) _
  | release _ given =>
    obtain ⟨hp, hk⟩ := reuses _ given
    rw [Draw.fst_map, Draw.failure_map]
    exact spends_release hp hk
  | still => exact .drawn (.refl _)

/-- No other value is bound, whatever comes of it. -/
theorem frame (h : s.Effect kind gives asks binds d) {u : ValueId} (hu : binds ≠ some u) :
    d.1.tracker.resolve? u = s.tracker.resolve? u := by
  cases h with
  | acquire | acquireBlock => exact resolve?_keep fun e => hu (congrArg some e.symm)
  | derive => exact resolve?_derive fun e => hu (congrArg some e.symm)
  | release => rw [Draw.fst_map, tracker_release]
  | still => rfl

/-- Without reuse the handles are new. -/
theorem lays (h : s.Effect kind gives asks binds d) (hp : s.pool.policy = .noReuse)
    (hd : d = (s', .ok a)) {e : ValueId × ℕ} (he : asks = some e) :
    s'.tracker.resolve? e.1 = some (.block kind s.pool.highWater e.2) := by
  cases h with
  | acquire =>
    cases he
    obtain ⟨x, hx, -⟩ := Draw.map_eq_ok hd
    obtain ⟨hpool, hset⟩ := acquire_eq_ok hx
    rw [← Pool.eq_highWater_of_allocate hp hpool]
    exact hset.self
  | acquireBlock =>
    cases he
    obtain ⟨x, hx, -⟩ := Draw.map_eq_ok hd
    obtain ⟨hpool, hset⟩ := acquireBlock_eq_ok hx
    rw [← (Pool.allocateBlock_eq_ok.1 hpool).2.1]
    exact hset.self
  | _ => cases he

end Stock.Effect

namespace Lowering

variable {α : Type} {kind : ResourceKind} {policy : ReusePolicy}
variable {binds : Instruction → Option ValueId}

/-! ## Steps -/

/-- **A step serves its instruction.** It is told which value the step binds, of
which nothing may be known before, and the policy of the pool. -/
structure Serves (kind : ResourceKind) (policy : ReusePolicy)
    (binds : Instruction → Option ValueId) (step : Stock → Instruction → Draw α) : Prop where
  /-- What is asked for is for the value that is bound. -/
  demanded : ∀ i d, i.demand? kind = some d → binds i = some d.1
  /-- It draws what is asked for. -/
  spends : ∀ (s : Stock) (i : Instruction), s.pool.policy = policy →
    (∀ v, binds i = some v → s.tracker.resolve? v = none) →
      s.pool.Spends kind (total (i.demand? kind).toList) (step s i).1.pool (step s i).failure
  /-- It binds no other value. -/
  frames : ∀ s i s' a, step s i = (s', .ok a) → ∀ u, binds i ≠ some u →
    s'.tracker.resolve? u = s.tracker.resolve? u
  /-- Without reuse it gives new handles. -/
  lays : ∀ s i s' a, s.pool.policy = .noReuse → step s i = (s', .ok a) → ∀ d,
    i.demand? kind = some d →
      s'.tracker.resolve? d.1 = some (.block kind s.pool.highWater d.2)

namespace Serves

variable {step : Stock → Instruction → Draw α} {s : Stock} {l : List (Site × Instruction)}

/-- **A step serves its instruction if it draws what that asks for**, and gives back
to pools that reuse alone. -/
theorem of_effect {gives : Stock → Instruction → Resource → Prop}
    (demanded : ∀ i d, i.demand? kind = some d → binds i = some d.1)
    (effect : ∀ (s : Stock) i, s.Effect kind (gives s i) (i.demand? kind) (binds i) (step s i))
    (reuses : ∀ (s : Stock) i r, s.pool.policy = policy → gives s i r →
      s.pool.policy = .reuse ∧ r.kind = kind) : Serves kind policy binds step where
  demanded := demanded
  spends s i hp := (effect s i).spends fun r => reuses s i r hp
  frames s i s' a h u hu := by
    have frame := (effect s i).frame hu
    rwa [h] at frame
  lays s i s' a hp h d := (effect s i).lays hp h

/-- The values that later steps bind are not bound yet. -/
theorem new_step (serves : Serves kind policy binds step) {x : Site} {i : Instruction}
    {s₁ : Stock} {a : α} (hs : step s i = (s₁, .ok a))
    (nodup : (((x, i) :: l).filterMap fun e => binds e.2).Nodup)
    (new : ∀ v ∈ ((x, i) :: l).filterMap (fun e => binds e.2), s.tracker.resolve? v = none) :
    ∀ v ∈ l.filterMap (fun e => binds e.2), s₁.tracker.resolve? v = none := by
  intro v hv
  have hsub := (List.sublist_cons_self (x, i) l).filterMap fun e => binds e.2
  rw [serves.frames s i s₁ a hs v fun hi => ?_]
  · exact new v (hsub.subset hv)
  · rw [List.filterMap_cons_some (by exact hi)] at nodup
    exact (List.nodup_cons.1 nodup).1 hv

theorem total_cons_demands (x : Site) (i : Instruction) :
    total (((x, i) :: l).filterMap fun e => e.2.demand? kind) =
      total (i.demand? kind).toList + total (l.filterMap fun e => e.2.demand? kind) := by
  rw [← total_append]
  cases hi : i.demand? kind <;> simp [hi]

/-- **Steps draw what their instructions ask for together.** -/
theorem spends_decideAll (serves : Serves kind policy binds step) (hp : s.pool.policy = policy)
    (nodup : (l.filterMap fun e => binds e.2).Nodup)
    (new : ∀ v ∈ l.filterMap (fun e => binds e.2), s.tracker.resolve? v = none) :
    s.pool.Spends kind (total (l.filterMap fun e => e.2.demand? kind))
      (decideAll step s l).stock.pool (decideAll step s l).failure := by
  induction l generalizing s with
  | nil => exact .drawn (.refl _)
  | cons e l ih =>
    obtain ⟨x, i⟩ := e
    have first := serves.spends s i hp fun v hv => new v (List.mem_filterMap.2
      ⟨(x, i), List.mem_cons_self, hv⟩)
    rw [total_cons_demands]
    unfold decideAll
    cases hs : step s i with
    | mk s₁ r =>
      rw [hs] at first
      cases r with
      | error e => exact first.add _
      | ok a =>
        have drawn := first.drawn_of_none
        have nodup' := nodup.sublist ((List.sublist_cons_self (x, i) l).filterMap _)
        have rest := ih (drawn.policy.trans hp) nodup' (serves.new_step hs nodup new)
        exact .after drawn rest

/-- **What every step keeps, a run keeps, even one that fails.** Each step finds
its value unbound. -/
theorem invariant_decideAll {P : Stock → Prop} (serves : Serves kind policy binds step)
    (hs : P s) (nodup : (l.filterMap fun e => binds e.2).Nodup)
    (new : ∀ v ∈ l.filterMap (fun e => binds e.2), s.tracker.resolve? v = none)
    (hstep : ∀ e ∈ l, ∀ s, P s → (∀ v, binds e.2 = some v → s.tracker.resolve? v = none) →
      P (step s e.2).1) : P (decideAll step s l).stock := by
  induction l generalizing s with
  | nil => exact hs
  | cons e l ih =>
    obtain ⟨x, i⟩ := e
    have first := hstep (x, i) List.mem_cons_self s hs fun v hv => new v (List.mem_filterMap.2
      ⟨(x, i), List.mem_cons_self, hv⟩)
    unfold decideAll
    cases hi : step s i with
    | mk s₁ r =>
      rw [hi] at first
      cases r with
      | error e => exact first
      | ok a =>
        have nodup' := nodup.sublist ((List.sublist_cons_self (x, i) l).filterMap _)
        exact ih first nodup' (serves.new_step hi nodup new) fun e he =>
          hstep e (List.mem_cons_of_mem _ he)

/-- A step that does not fail draws what is asked for. -/
theorem drawn (serves : Serves kind policy binds step) (hp : s.pool.policy = policy)
    {i : Instruction} (new : ∀ v, binds i = some v → s.tracker.resolve? v = none) {s₁ : Stock}
    {a : α} (hs : step s i = (s₁, .ok a)) :
    s.pool.Drawn (total (i.demand? kind).toList) s₁.pool := by
  have spends := serves.spends s i hp new
  rw [hs] at spends
  exact spends.drawn_of_none

/-- What no instruction binds stays as it is. -/
theorem frame_decides (serves : Serves kind policy binds step) {ds : List (Site × α)}
    {s' : Stock} (h : Decides step s l ds s') {u : ValueId}
    (hu : u ∉ l.filterMap fun e => binds e.2) : s'.tracker.resolve? u = s.tracker.resolve? u := by
  refine h.invariant (P := fun s₁ => s₁.tracker.resolve? u = s.tracker.resolve? u) rfl
    fun e he s₁ s₂ a hs₁ hs => ?_
  rw [← hs₁]
  exact serves.frames _ _ _ _ hs u fun hi => hu (List.mem_filterMap.2 ⟨e, he, hi⟩)

/-- **Without reuse, steps lay out demands side by side.** -/
theorem laidOut_decides (serves : Serves kind .noReuse binds step) {ds : List (Site × α)}
    {s' : Stock} (h : Decides step s l ds s') (hp : s.pool.policy = .noReuse)
    (nodup : (l.filterMap fun e => binds e.2).Nodup)
    (new : ∀ v ∈ l.filterMap (fun e => binds e.2), s.tracker.resolve? v = none) :
    s'.tracker.LaidOut kind s.pool.highWater (l.filterMap fun e => e.2.demand? kind) := by
  induction h with
  | nil => trivial
  | @cons s s₁ s' x i a l ds hs h ih =>
    have drawn := serves.drawn hp (fun v hv => new v (List.mem_filterMap.2
      ⟨(x, i), List.mem_cons_self, hv⟩)) hs
    have nodup' := nodup.sublist ((List.sublist_cons_self (x, i) l).filterMap _)
    have rest := ih (drawn.policy.trans hp) nodup' (serves.new_step hs nodup new)
    rw [drawn.exact hp] at rest
    cases hd : i.demand? kind with
    | none =>
      rw [List.filterMap_cons_none (by exact hd)]
      simpa [hd] using rest
    | some d =>
      rw [List.filterMap_cons_some (by exact hd)]
      refine ⟨?_, by simpa [hd] using rest⟩
      -- no later step binds the value again
      rw [List.filterMap_cons_some (by exact serves.demanded i d hd)] at nodup
      rw [serves.frame_decides h (List.nodup_cons.1 nodup).1]
      exact serves.lays s i s₁ a hp hs d hd

end Serves

/-! ## Functions -/

/-- **Lowering a function serves its instructions.** -/
structure Sweeps.Serves (kind : ResourceKind) (binds : Instruction → Option ValueId)
    (lower : Stock → Function → Lowered) : Prop where
  /-- What is bound is the value that the instruction computes. -/
  result : ∀ i v, binds i = some v → i.result = some v
  /-- What is asked for is for the value that is bound. -/
  demanded : ∀ i d, i.demand? kind = some d → binds i = some d.1
  /-- It draws what is asked for. -/
  spends : ∀ (s : Stock) (f : Function), (f.gather binds).Nodup →
    (∀ v ∈ f.gather binds, s.tracker.resolve? v = none) →
      s.pool.Spends kind (total (f.gather (Instruction.demand? kind))) (lower s f).stock.pool
        (lower s f).failure
  /-- It binds no other value. -/
  frames : ∀ s f, (lower s f).failure = none → ∀ u ∉ f.gather binds,
    (lower s f).stock.tracker.resolve? u = s.tracker.resolve? u
  /-- Without reuse it lays out demands side by side. -/
  lays : ∀ (s : Stock) (f : Function), s.pool.policy = .noReuse → (lower s f).failure = none →
    (f.gather binds).Nodup → (∀ v ∈ f.gather binds, s.tracker.resolve? v = none) →
      ∃ ds, ds.Perm (f.gather (Instruction.demand? kind)) ∧
        (lower s f).stock.tracker.LaidOut kind s.pool.highWater ds

/-- **Lowering that decides by steps serves** if its steps do. Which steps they
are may depend on the function and on the pool before it. -/
theorem sweeps_serves {lower : Stock → Function → Lowered}
    (step : Pool → Function → Stock → Instruction → Draw α)
    (result : ∀ i v, binds i = some v → i.result = some v)
    (demanded : ∀ i d, i.demand? kind = some d → binds i = some d.1)
    (serves : ∀ pool f, Serves kind pool.policy binds (step pool f))
    (stock : ∀ s f, (lower s f).stock = (decideAll (step s.pool f) s f.visited).stock)
    (failure : ∀ s f, (lower s f).failure = (decideAll (step s.pool f) s f.visited).failure) :
    Sweeps.Serves kind binds lower where
  result := result
  demanded := demanded
  spends s f nodup new := by
    have perm := Function.gather_visited binds f
    rw [stock, failure, ← total_eq_of_perm (Function.gather_visited _ f)]
    exact (serves s.pool f).spends_decideAll rfl (perm.nodup_iff.2 nodup)
      fun v hv => new v (perm.mem_iff.1 hv)
  frames s f h u hu := by
    rw [failure] at h
    rw [stock]
    refine (serves s.pool f).frame_decides (decides_decideAll h) fun hmem => hu ?_
    exact (Function.gather_visited binds f).mem_iff.1 hmem
  lays s f hp h nodup new := by
    have perm := Function.gather_visited binds f
    have served := serves s.pool f
    rw [hp] at served
    rw [failure] at h
    rw [stock]
    exact ⟨_, Function.gather_visited _ f, served.laidOut_decides (decides_decideAll h) hp
      (perm.nodup_iff.2 nodup) fun v hv => new v (perm.mem_iff.1 hv)⟩

/-! ## Programs -/

namespace Sweeps.Serves

variable {lower : Stock → Function → Lowered} {s s' : Stock} {f : Function}
variable {fs gs : List Function} {p : Program} {c : Context}

/-- The values that the functions after one bind are not bound yet. -/
theorem new_lower (serves : Serves kind binds lower) (hl : (lower s f).failure = none)
    (nodup : (f.gather binds ++ gatherFrom binds fs).Nodup)
    (new : ∀ v ∈ gatherFrom binds fs, s.tracker.resolve? v = none) :
    ∀ v ∈ gatherFrom binds fs, (lower s f).stock.tracker.resolve? v = none := by
  intro v hv
  rw [serves.frames s f hl v fun hf => (List.nodup_append.1 nodup).2.2 v hf v hv rfl]
  exact new v hv

/-- **Lowering functions draws what they ask for together.** -/
theorem spends_sweep (serves : Serves kind binds lower) (nodup : (gatherFrom binds fs).Nodup)
    (new : ∀ v ∈ gatherFrom binds fs, s.tracker.resolve? v = none) :
    s.pool.Spends kind (total (gatherFrom (Instruction.demand? kind) fs))
      (sweep lower s fs).stock.pool (sweep lower s fs).failure := by
  induction fs generalizing s with
  | nil => exact .drawn (.refl _)
  | cons f fs ih =>
    unfold sweep
    by_cases hd : f.isDeclaration
    · rw [gatherFrom_cons_declaration hd] at nodup new
      rw [gatherFrom_cons_declaration hd, if_pos hd]
      exact ih nodup new
    · rw [gatherFrom_cons hd] at nodup new
      obtain ⟨inside, nodup', -⟩ := List.nodup_append.1 nodup
      have first := serves.spends s f inside fun v hv => new v (List.mem_append_left _ hv)
      rw [gatherFrom_cons hd, total_append, if_neg hd]
      cases hl : (lower s f).failure with
      | some e =>
        rw [hl] at first
        simp only [hl]
        exact first.add _
      | none =>
        rw [hl] at first
        simp only [hl]
        refine .after first.drawn_of_none (ih nodup' ?_)
        exact serves.new_lower hl nodup fun v hv => new v (List.mem_append_right _ hv)

/-- **What lowering every definition keeps, a run keeps, even one that fails.**
Each definition finds its values unbound. -/
theorem invariant_sweep {P : Stock → Prop} (serves : Serves kind binds lower) (hs : P s)
    (nodup : (gatherFrom binds fs).Nodup)
    (new : ∀ v ∈ gatherFrom binds fs, s.tracker.resolve? v = none)
    (hlower : ∀ f ∈ fs, ¬ f.isDeclaration → ∀ s, P s → (f.gather binds).Nodup →
      (∀ v ∈ f.gather binds, s.tracker.resolve? v = none) → P (lower s f).stock) :
    P (sweep lower s fs).stock := by
  induction fs generalizing s with
  | nil => exact hs
  | cons f fs ih =>
    have hlower' := fun g hg => hlower g (List.mem_cons_of_mem f hg)
    unfold sweep
    by_cases hd : f.isDeclaration
    · rw [gatherFrom_cons_declaration hd] at nodup new
      rw [if_pos hd]
      exact ih hs nodup new hlower'
    · rw [gatherFrom_cons hd] at nodup new
      obtain ⟨inside, nodup', -⟩ := List.nodup_append.1 nodup
      have first := hlower f List.mem_cons_self hd s hs inside
        fun v hv => new v (List.mem_append_left _ hv)
      rw [if_neg hd]
      cases hl : (lower s f).failure with
      | some e => simpa only [hl] using first
      | none =>
        simp only [hl]
        refine ih first nodup' ?_ hlower'
        exact serves.new_lower hl nodup fun v hv => new v (List.mem_append_right _ hv)

/-- What no definition binds stays as it is. -/
theorem frame_sweeps (serves : Serves kind binds lower) (h : Sweeps lower s fs gs s')
    {u : ValueId} (hu : u ∉ gatherFrom binds fs) :
    s'.tracker.resolve? u = s.tracker.resolve? u := by
  induction h with
  | nil => rfl
  | declaration hd _ ih =>
    rw [gatherFrom_cons_declaration hd] at hu
    exact ih hu
  | definition hd hl _ ih =>
    rw [gatherFrom_cons hd, List.mem_append, not_or] at hu
    rw [ih hu.2, serves.frames _ _ hl u hu.1]

/-- **Without reuse, lowering functions lays out demands side by side.** -/
theorem laidOut_sweeps (serves : Serves kind binds lower) (h : Sweeps lower s fs gs s')
    (hp : s.pool.policy = .noReuse) (nodup : (gatherFrom binds fs).Nodup)
    (new : ∀ v ∈ gatherFrom binds fs, s.tracker.resolve? v = none) :
    ∃ ds, ds.Perm (gatherFrom (Instruction.demand? kind) fs) ∧
      s'.tracker.LaidOut kind s.pool.highWater ds := by
  induction h with
  | nil => exact ⟨[], .refl _, trivial⟩
  | declaration hd _ ih =>
    rw [gatherFrom_cons_declaration hd] at nodup new ⊢
    exact ih hp nodup new
  | @definition s s' f fs gs hd hl h ih =>
    rw [gatherFrom_cons hd] at nodup new ⊢
    obtain ⟨inside, nodup', apart⟩ := List.nodup_append.1 nodup
    have new₁ : ∀ v ∈ f.gather binds, s.tracker.resolve? v = none :=
      fun v hv => new v (List.mem_append_left _ hv)
    have spends := serves.spends s f inside new₁
    rw [hl] at spends
    have drawn := spends.drawn_of_none
    obtain ⟨ds, perm, laid⟩ := serves.lays s f hp hl inside new₁
    obtain ⟨es, perm', laid'⟩ := ih (drawn.policy.trans hp) nodup'
      (serves.new_lower hl nodup fun v hv => new v (List.mem_append_right _ hv))
    refine ⟨ds ++ es, perm.append perm', Tracker.laidOut_append.2 ⟨?_, ?_⟩⟩
    · -- the functions after this one bind other values
      refine laid.congr fun d hd => serves.frame_sweeps h fun hmem => ?_
      obtain ⟨i, hi, hdi⟩ := List.mem_filterMap.1 (perm.mem_iff.1 hd)
      exact apart d.1 (List.mem_filterMap.2 ⟨i, hi, serves.demanded i d hdi⟩) d.1 hmem rfl
    · rwa [total_eq_of_perm perm, ← drawn.exact hp]

/-- Where values are told apart, so are those that are bound. -/
theorem nodup_gather (serves : Serves kind binds lower)
    (nodup : (p.definitions.flatMap Function.definedValues).Nodup) : (p.gather binds).Nodup :=
  nodup.sublist (gatherFrom_sublist serves.result p.functions)

/-- **Lowering a program draws what it asks for**, where values are told apart
and nothing is known of those that are bound. -/
theorem spends_run (serves : Serves kind binds lower)
    (nodup : (p.definitions.flatMap Function.definedValues).Nodup)
    (new : ∀ v ∈ p.gather binds, c.tracker.resolve? v = none) :
    (c.pool kind).Spends kind (total (p.demands kind))
      ((Lowering.run kind lower p c).context.pool kind) (Lowering.run kind lower p c).failure := by
  have spends := serves.spends_sweep (s := c.stock kind) (serves.nodup_gather nodup) new
  cases kind with
  | qubit => exact spends
  | result => exact spends

/-- **What every step keeps, lowering a program keeps, even if it fails.** -/
theorem invariant_run {P : Stock → Prop} (serves : Serves kind binds lower)
    (hs : P (c.stock kind)) (nodup : (p.definitions.flatMap Function.definedValues).Nodup)
    (new : ∀ v ∈ p.gather binds, c.tracker.resolve? v = none)
    (hlower : ∀ f ∈ p.definitions, ∀ s, P s → (f.gather binds).Nodup →
      (∀ v ∈ f.gather binds, s.tracker.resolve? v = none) → P (lower s f).stock) :
    P ((Lowering.run kind lower p c).context.stock kind) := by
  have kept := serves.invariant_sweep (P := P) (s := c.stock kind) hs
    (serves.nodup_gather nodup) new fun f hf hd => hlower f (Program.mem_definitions.2 ⟨hf, hd⟩)
  cases kind with
  | qubit => exact kept
  | result => exact kept

/-- What no instruction binds stays as it is. -/
theorem frame_run (serves : Serves kind binds lower)
    (h : (Lowering.run kind lower p c).failure = none) {u : ValueId} (hu : u ∉ p.gather binds) :
    (Lowering.run kind lower p c).context.tracker.resolve? u = c.tracker.resolve? u := by
  obtain ⟨s', sweeps, hc⟩ := sweeps_run h
  rw [hc]
  exact serves.frame_sweeps sweeps hu

/-- **A pool that reuses nothing and is fresh gives its first handles to the
demands**, and none beside them. -/
theorem partitions_run (serves : Serves kind binds lower)
    (hp : (c.pool kind).policy = .noReuse) (fresh : (c.pool kind).highWater = 0)
    (nodup : (p.definitions.flatMap Function.definedValues).Nodup)
    (new : ∀ v ∈ p.gather binds, c.tracker.resolve? v = none)
    (h : (Lowering.run kind lower p c).failure = none) :
    (Lowering.run kind lower p c).context.tracker.Partitions kind (total (p.demands kind))
      (p.demands kind) := by
  obtain ⟨s', sweeps, hc⟩ := sweeps_run h
  obtain ⟨ds, perm, laid⟩ :=
    serves.laidOut_sweeps sweeps hp (serves.nodup_gather nodup) new
  change ds.Perm (p.demands kind) at perm
  have laid : s'.tracker.LaidOut kind 0 ds := fresh ▸ laid
  rw [hc, ← total_eq_of_perm perm]
  exact laid.partitions.perm perm

end Sweeps.Serves

end Lowering

end QuantumLowering
