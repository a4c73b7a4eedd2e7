import QuantumLowering.Proofs.Custody.Reuse
import QuantumLowering.Proofs.Demand.Exact
import QuantumLowering.Proofs.Lowering.Abort
import QuantumLowering.Proofs.Pass.Run
import QuantumLowering.Proofs.Pass.Skipping
/-!
# Lowering qubits twice

A second run over what a first one left finds the table of the first one.
Every instruction that is left agrees with it (`QubitLowering.Agrees`): of
its value nothing is known, or its operands still stand for the same, or it
acquires an array. So the second run draws nothing where it ends well. It
fails where an array of constant size was left, whose value would be bound
to a second block (`Schedule.lowered_twice`).
-/


namespace QuantumLowering

open Lowering

/-! ## Tables that grow -/

/-- **A table keeps another one**: what is known there is known here. -/
def Tracker.Keeps (t u : Tracker) : Prop := ∀ v r, t.resolve? v = some r → u.resolve? v = some r

namespace Tracker

variable {t u u' : Tracker} {kind : ResourceKind} {v : ValueId} {r : Resource} {o : Option Resource}

theorem Keeps.resolveAs? (h : t.Keeps u) {op : Operand} (hr : t.resolveAs? kind op = some r) :
    u.resolveAs? kind op = some r := by
  obtain ⟨hr, hk⟩ := resolveAs?_eq_some_iff.1 hr
  refine resolveAs?_eq_some_iff.2 ⟨?_, hk⟩
  cases op with
  | value v => exact h v r hr
  | _ => exact hr

theorem Keeps.joinAs? (h : t.Keeps u) {ops : List Operand} (hr : t.joinAs? kind ops = some r) :
    u.joinAs? kind ops = some r := by
  obtain ⟨hne, hops⟩ := joinAs?_eq_some_iff.1 hr
  exact joinAs?_eq_some_iff.2 ⟨hne, fun o ho => h.resolveAs? (hops o ho)⟩

/-- A value may be set to what is known of it. -/
theorem Keeps.sets (h : t.Keeps u) (hu : u.Sets u' v o)
    (ho : ∀ r, t.resolve? v = some r → o = some r) : t.Keeps u' := by
  intro w r hr
  rw [hu w]
  split
  · rename_i hw
    exact ho r (hw ▸ hr)
  · exact h w r hr

/-- A value is recorded for a resource only if it does not stand for another. -/
theorem eq_of_record {r' : Resource} {count : ℕ} (h : t.record v r' count = (u, .ok ()))
    (known : t.resolve? v = some r) : r = r' := by
  by_contra hne
  simp [record, assign, known, hne] at h

/-- **Addresses in place of values** stand for what the values stand for. -/
theorem resolveOperand?_substitute {op : Operand}
    (same : ∀ v, op = .value v → u.resolve? v = t.resolve? v) :
    t.resolveOperand? (op.substitute (QubitLowering.address? u)) = t.resolveOperand? op := by
  by_cases hc : op.isConstant
  · rw [Operand.substitute_constant hc]
  cases op with
  | value v =>
    rw [Operand.substitute_value]
    cases ha : QubitLowering.address? u v with
    | none => rfl
    | some a =>
      obtain ⟨r, hr, ha⟩ := Option.bind_eq_some_iff.1 ha
      rw [Option.getD_some, resolveOperand?_value, ← same v rfl, hr]
      unfold Resource.operand? at ha
      split at ha
      · cases ha
      · rename_i hw
        cases ha
        rw [Resource.eq_single (r := r) rfl (by simpa [Resource.isBlock] using hw)]
        cases r.kind <;> rfl
  | _ => rfl

end Tracker

/-! ## Why a run fails -/

namespace Lowering

variable {α : Type} {kind : ResourceKind} {binds : Instruction → Option ValueId}
variable {step : Stock → Instruction → Draw α} {lower : Stock → Function → Lowered}
variable {P : Stock → Prop} {Q : Failure → Prop} {t : Tracker} {s : Stock} {x : Failure}

/-- What steps keep holds all along, and with it what they find in it. -/
theorem Decides.forall_of_invariant {R : Instruction → Prop} {s' : Stock}
    {l : List (Site × Instruction)} {ds : List (Site × α)} (h : Decides step s l ds s') (hs : P s)
    (hstep : ∀ e ∈ l, ∀ s s' a, P s → step s e.2 = (s', .ok a) → P s' ∧ R e.2) :
    P s' ∧ ∀ e ∈ l, R e.2 := by
  induction h with
  | nil => exact ⟨hs, fun _ he => by cases he⟩
  | cons hst _ ih =>
    obtain ⟨hs₁, hR⟩ := hstep _ List.mem_cons_self _ _ _ hs hst
    obtain ⟨hs', rest⟩ := ih hs₁ fun e he => hstep e (List.mem_cons_of_mem _ he)
    exact ⟨hs', List.forall_mem_cons.2 ⟨hR, rest⟩⟩

/-- **A run over instructions fails as one of its steps does**, which finds of
its own value what was known at the start. -/
theorem failure_decideAll {l : List (Site × Instruction)}
    (frames : ∀ s i s' a, step s i = (s', .ok a) → ∀ u, binds i ≠ some u →
      s'.tracker.resolve? u = s.tracker.resolve? u)
    (hs : P s) (nodup : (l.filterMap fun e => binds e.2).Nodup)
    (same : ∀ v ∈ l.filterMap (fun e => binds e.2), s.tracker.resolve? v = t.resolve? v)
    (keeps : ∀ e ∈ l, ∀ s s' a, P s → step s e.2 = (s', .ok a) → P s')
    (fails : ∀ e ∈ l, ∀ s, P s →
      (∀ v, binds e.2 = some v → s.tracker.resolve? v = t.resolve? v) →
        ∀ x, (step s e.2).failure = some x → Q x)
    (h : (decideAll step s l).failure = some x) : Q x := by
  induction l generalizing s with
  | nil => cases h
  | cons e l ih =>
    obtain ⟨y, i⟩ := e
    have first := fails (y, i) List.mem_cons_self s hs fun v hv =>
      same v (List.mem_filterMap.2 ⟨(y, i), List.mem_cons_self, hv⟩)
    have hsub := (List.sublist_cons_self (y, i) l).filterMap fun e => binds e.2
    unfold decideAll at h
    cases hi : step s i with
    | mk s₁ d =>
      rw [hi] at first h
      cases d with
      | error e =>
        obtain rfl := Option.some.inj h
        exact first e rfl
      | ok a =>
        refine ih (keeps _ List.mem_cons_self _ _ _ hs hi) (nodup.sublist hsub) (fun v hv => ?_)
          (fun e he => keeps e (List.mem_cons_of_mem _ he))
          (fun e he => fails e (List.mem_cons_of_mem _ he)) h
        -- the step did not bind the value of a later one
        rw [frames s i s₁ a hi v fun hiv => ?_]
        · exact same v (hsub.subset hv)
        · rw [List.filterMap_cons_some (by exact hiv)] at nodup
          exact (List.nodup_cons.1 nodup).1 hv

/-- **A run over functions fails as lowering one of them does.** -/
theorem failure_sweep {fs : List Function} (serves : Sweeps.Serves kind binds lower) (hs : P s)
    (nodup : (gatherFrom binds fs).Nodup)
    (same : ∀ v ∈ gatherFrom binds fs, s.tracker.resolve? v = t.resolve? v)
    (keeps : ∀ f ∈ fs, ¬ f.isDeclaration → ∀ s, P s → (lower s f).failure = none →
      P (lower s f).stock)
    (fails : ∀ f ∈ fs, ¬ f.isDeclaration → ∀ s, P s → (f.gather binds).Nodup →
      (∀ v ∈ f.gather binds, s.tracker.resolve? v = t.resolve? v) →
        ∀ x, (lower s f).failure = some x → Q x)
    (h : (sweep lower s fs).failure = some x) : Q x := by
  induction fs generalizing s with
  | nil => cases h
  | cons f fs ih =>
    have keeps' := fun g hg => keeps g (List.mem_cons_of_mem f hg)
    have fails' := fun g hg => fails g (List.mem_cons_of_mem f hg)
    unfold sweep at h
    by_cases hd : f.isDeclaration
    · rw [gatherFrom_cons_declaration hd] at nodup same
      rw [if_pos hd] at h
      exact ih hs nodup same keeps' fails' h
    · rw [gatherFrom_cons hd] at nodup same
      obtain ⟨inside, nodup', apart⟩ := List.nodup_append.1 nodup
      rw [if_neg hd] at h
      cases hl : (lower s f).failure with
      | some e =>
        simp only [hl, Option.some.injEq] at h
        subst h
        exact fails f List.mem_cons_self hd s hs inside
          (fun v hv => same v (List.mem_append_left _ hv)) e hl
      | none =>
        simp only [hl] at h
        refine ih (keeps f List.mem_cons_self hd s hs hl) nodup' (fun v hv => ?_) keeps' fails' h
        rw [serves.frames s f hl v fun hf => apart v hf v hv rfl]
        exact same v (List.mem_append_right _ hv)

end Lowering

/-- **A failure of a release**: a handle is not taken back. -/
def Failure.Refuses (kind : ResourceKind) (x : Failure) : Prop :=
  ∃ e : PoolError, x = .allocation kind e ∧ e.Invalid

namespace Stock

variable {s s' : Stock} {kind : ResourceKind} {v : ValueId} {r : Resource}

/-- A value may be derived again from what is known of it. -/
theorem failure_derive_known (known : s.tracker.resolve? v = some r) :
    (s.derive v (some r)).failure = none := by
  have bound : s.tracker.bind v (some r) = (s.tracker.associate v (.known r), .ok ()) := by
    simp [Tracker.bind, Tracker.assign, known]
  simp only [derive, bound]
  rfl

/-- A pool that reuses refuses a release only for a handle in it. -/
theorem invalid_of_release {x : Failure} (hp : s.pool.policy = .reuse)
    (h : (s.release r).failure = some x) :
    x.Refuses r.kind := by
  unfold release at h
  split at h
  · cases h
  · rename_i e hr
    cases h
    exact ⟨e, rfl, Pool.invalid_of_releaseBlock hp hr⟩

/-- **Where nothing is asked for**, and nothing is known of the value, a step fails only as
it releases something. -/
theorem Effect.exists_refused {α : Type} {gives : Resource → Prop}
    {asks : Option (ValueId × ℕ)} {binds : Option ValueId} {d : Draw α} {x : Failure}
    (h : s.Effect kind gives asks binds d) (quiet : asks = none)
    (new : ∀ v, binds = some v → s.tracker.resolve? v = none) (fails : d.failure = some x) :
    ∃ r, gives r ∧ (s.pool.policy = .reuse → x.Refuses r.kind) := by
  cases h with
  | acquire | acquireBlock => cases quiet
  | @derive v o =>
    obtain ⟨s', derives, -⟩ := exists_derive (new v rfl) o
    rw [Draw.failure_map, derives] at fails
    cases fails
  | release _ given =>
    rw [Draw.failure_map] at fails
    exact ⟨_, given, fun hp => invalid_of_release hp fails⟩
  | still => cases fails

/-- But a value acquires a block only if it does not stand for another. -/
theorem eq_of_acquireBlock {size : ℕ} {h : Handle} (hd : s.acquireBlock kind v size = (s', .ok h))
    (known : s.tracker.resolve? v = some r) : r = .block kind h size := by
  unfold acquireBlock keep at hd
  split at hd
  · cases hd
  · split at hd
    · rename_i hr
      cases hd
      exact Tracker.eq_of_record hr known
    · cases hd

end Stock

namespace QubitLowering

variable {honored sole : Bool} {s₀ s s' : Stock} {i j : Instruction} {d : Decision}
variable {f g : Function} {x : Failure}

/-! ## What the second run meets -/

/-- **An instruction agrees with a table**, from which a run starts. -/
inductive Agrees (s₀ : Stock) : Instruction → Prop
  /-- It asks for nothing, and nothing is known of its value. -/
  | unknown {i : Instruction} : i.demand? .qubit = none →
    (∀ v, binds? i = some v → s₀.tracker.resolve? v = none) → Agrees s₀ i
  /-- It moves what is known of its value. -/
  | moves {i : Instruction} {v : ValueId} {r : Resource} : i.result = some v →
    carriesQubits i.type → i.callee? = none → s₀.tracker.resolve? v = some r →
    s₀.tracker.joinAs? .qubit i.operands = some r → Agrees s₀ i
  /-- It acquires an array that was acquired before. -/
  | array {v : ValueId} {ty : Ty} {args : List Operand} {size base : ℕ} :
    args.head?.bind constant? = some size →
    s₀.tracker.resolve? v = some (.block .qubit base size) → base + size ≤ s₀.pool.highWater →
      Agrees s₀ ⟨some v, ty, .call Intrinsics.acquireArray args⟩

/-- **What a run keeps** that meets such instructions: what was known stays
known, and no new handle is handed out. -/
structure Settled (s₀ s : Stock) : Prop where
  /-- What was known stays known. -/
  known : s₀.tracker.Keeps s.tracker
  /-- The policy stays. -/
  policy : s.pool.policy = s₀.pool.policy
  /-- No new handle is handed out. -/
  highWater : s.pool.highWater = s₀.pool.highWater

theorem Settled.refl (s : Stock) : Settled s s := ⟨fun _ _ h => h, rfl, rfl⟩

/-- What moves a value asks for nothing. -/
theorem demand?_of_moves (h : i.callee? = none) : i.demand? .qubit = none := by
  obtain ⟨result, ty, operation⟩ := i
  cases operation with
  | call => cases h
  | _ => cases result <;> rfl

/-- The demand of an array of constant size. -/
theorem demand?_acquireArray {v : ValueId} {ty : Ty} {args : List Operand} :
    Instruction.demand? .qubit ⟨some v, ty, .call Intrinsics.acquireArray args⟩ =
      (args.head?.bind constant?).map fun n => (v, n) := rfl

/-! ### Steps -/

/-- Where nothing is asked for no new handle is handed out. -/
theorem pool_of_quiet (quiet : i.demand? .qubit = none) (h : judge honored s i = (s', .ok d)) :
    s'.pool.policy = s.pool.policy ∧ s'.pool.highWater = s.pool.highWater := by
  cases judges_of_judge h with
  | acquire => cases quiet
  | acquireArray hsize =>
    rw [demand?_acquireArray, hsize] at quiet
    cases quiet
  | unsized _ hp | project hp | copy _ hp | phi _ hp => simp [hp]
  | release _ _ _ given kept =>
    cases honored with
    | false => simp [kept rfl]
    | true =>
      have hp := given rfl
      refine ⟨(Pool.drawn_releaseBlock hp).policy, ?_⟩
      rw [← Pool.highWater_releaseBlock s.pool, hp]
  | unresolved | other => exact ⟨rfl, rfl⟩

/-- It goes on where nothing is asked for and what was known stays known. -/
theorem Settled.of_quiet (hs : Settled s₀ s) (quiet : i.demand? .qubit = none)
    (h : judge honored s i = (s', .ok d)) (known : s₀.tracker.Keeps s'.tracker) :
    Settled s₀ s' := by
  obtain ⟨policy, water⟩ := pool_of_quiet quiet h
  exact ⟨known, policy.trans hs.policy, water.trans hs.highWater⟩

/-- And where an array is acquired again, which is then empty: it starts at the high water
mark, and the one that was acquired before ends there or below. -/
theorem Settled.acquireBlock (hs : Settled s₀ s) {v : ValueId} {size base : ℕ} {first : Handle}
    (known : s₀.tracker.resolve? v = some (.block .qubit base size))
    (within : base + size ≤ s₀.pool.highWater)
    (hd : s.acquireBlock .qubit v size = (s', .ok first)) : Settled s₀ s' ∧ size = 0 := by
  obtain ⟨hpool, ht⟩ := Stock.acquireBlock_eq_ok hd
  obtain ⟨-, hfirst, hpool⟩ := Pool.allocateBlock_eq_ok.1 hpool
  have same := Stock.eq_of_acquireBlock hd (hs.known v _ known)
  have hbase : base = s.pool.highWater := (congrArg Resource.handle same).trans hfirst
  have hwater := hs.highWater
  have empty : size = 0 := by omega
  refine ⟨⟨hs.known.sets ht fun r hr => ?_, ?_, ?_⟩, empty⟩
  · rw [← same, ← known, hr]
  · rw [hpool]
    exact hs.policy
  · rw [hpool, empty]
    exact hs.highWater

/-- **A step that ends well draws nothing**: an array that it could acquire
again is empty. -/
theorem Agrees.step (agrees : Agrees s₀ i) (hs : Settled s₀ s)
    (h : judge honored s i = (s', .ok d)) :
    Settled s₀ s' ∧ ∀ e, i.demand? .qubit = some e → e.2 = 0 := by
  cases agrees with
  | unknown quiet new =>
    refine ⟨hs.of_quiet quiet h fun v r hv => ?_, fun e he => ?_⟩
    · rw [frames_binds h v fun hb => ?_]
      · exact hs.known v r hv
      · rw [new v hb] at hv
        cases hv
    · rw [quiet] at he
      cases he
  | @moves i v r hv carried moves known joined =>
    have quiet := demand?_of_moves moves
    obtain ⟨ht, -⟩ := moves_judge hv carried moves h
    refine ⟨hs.of_quiet quiet h (hs.known.sets ht fun r' hr' => ?_), fun e he => ?_⟩
    · rw [hs.known.joinAs? joined, ← known, hr']
    · rw [quiet] at he
      cases he
  | @array v ty args size base hsize known within =>
    have hrole : role ⟨some v, ty, .call Intrinsics.acquireArray args⟩ =
        .acquireArray v (some size) := by
      rw [← hsize]
      rfl
    rw [judge, hrole] at h
    obtain ⟨first, hd, -⟩ := Draw.map_eq_ok h
    obtain ⟨settled, empty⟩ := hs.acquireBlock known within hd
    refine ⟨settled, fun e he => ?_⟩
    rw [demand?_acquireArray, hsize] at he
    obtain rfl := Option.some.inj he
    exact empty

/-- A step that finds nothing known of its value fails only where it releases
what cannot be given back. -/
theorem fails_of_unknown (quiet : i.demand? .qubit = none)
    (new : ∀ v, binds? i = some v → s.tracker.resolve? v = none)
    (reuses : honored = true → s.pool.policy = .reuse)
    (h : (judge honored s i).failure = some x) :
    x.Refuses .qubit ∧ s.pool.policy = .reuse ∧ i.releases?.isSome := by
  obtain ⟨r, ⟨counts, target, hrole, hr⟩, refuses⟩ :=
    (effect_judge honored s i).exists_refused quiet new h
  have hk := (Tracker.resolveAs?_eq_some_iff.1 hr).2
  refine ⟨hk ▸ refuses (reuses counts), reuses counts, ?_⟩
  rw [releases?_of_role hrole]
  rfl

/-- A step that moves what its value stands for already ends well. -/
theorem ends_of_moves {v : ValueId} {r : Resource} (hv : i.result = some v)
    (carried : carriesQubits i.type) (moves : i.callee? = none)
    (known : s.tracker.resolve? v = some r)
    (joined : s.tracker.joinAs? .qubit i.operands = some r) :
    (judge honored s i).failure = none := by
  have derives := Stock.failure_derive_known known
  obtain ⟨result, ty, operation⟩ := i
  obtain rfl : result = some v := hv
  cases operation with
  | call => cases moves
  | copy source =>
    have hrole : role ⟨some v, ty, .copy source⟩ = .copy v source := if_pos carried
    have hone : s.tracker.joinAs? .qubit [source] = some r := joined
    rw [Tracker.joinAs?_singleton] at hone
    rw [judge, hrole, judgeRole, Draw.failure_map, hone, derives]
  | phi incoming =>
    have hrole : role ⟨some v, ty, .phi incoming⟩ = .phi v (incoming.map Prod.snd) :=
      if_pos carried
    have hall : s.tracker.joinAs? .qubit (incoming.map Prod.snd) = some r := joined
    rw [judge, hrole, judgeRole, Draw.failure_map, hall, derives]

/-- **A step that fails releases what cannot be given back**, where no array
is acquired. -/
theorem Agrees.fails (agrees : Agrees s₀ i) (quiet : i.demand? .qubit = none)
    (hs : s₀.tracker.Keeps s.tracker)
    (same : ∀ v, binds? i = some v → s.tracker.resolve? v = s₀.tracker.resolve? v)
    (reuses : honored = true → s.pool.policy = .reuse)
    (h : (judge honored s i).failure = some x) :
    x.Refuses .qubit ∧ s.pool.policy = .reuse ∧ i.releases?.isSome := by
  cases agrees with
  | unknown _ new =>
    exact fails_of_unknown quiet (fun v hv => (same v hv).trans (new v hv)) reuses h
  | moves hv carried moves known joined =>
    rw [ends_of_moves hv carried moves (hs _ _ known) (hs.joinAs? joined)] at h
    cases h
  | array hsize =>
    rw [demand?_acquireArray, hsize] at quiet
    cases quiet

/-! ### Functions and programs -/

/-- What is visited of a function agrees if the function does. -/
theorem Agrees.visited (agrees : ∀ i ∈ g.instructions, Agrees s₀ i) {e : Site × Instruction}
    (he : e ∈ g.visited) : e.2 ∈ g.instructions ∧ Agrees s₀ e.2 := by
  have hi : e.2 ∈ g.instructions := Function.mem_instructions.2 ⟨e.1, Function.mem_visited.1 he⟩
  exact ⟨hi, agrees e.2 hi⟩

/-- **Lowering such a function draws nothing** where it ends well. -/
theorem Agrees.lower (agrees : ∀ i ∈ g.instructions, Agrees s₀ i) (hs : Settled s₀ s)
    (h : (lower sole s g).failure = none) :
    Settled s₀ (lower sole s g).stock ∧
      ∀ i ∈ g.instructions, ∀ e, i.demand? .qubit = some e → e.2 = 0 := by
  obtain ⟨ds, gone, decides, -⟩ := exists_lowered h
  obtain ⟨settled, empty⟩ := decides.forall_of_invariant
    (R := fun i => ∀ e, i.demand? .qubit = some e → e.2 = 0) hs
      fun e he s s' d hs hstep => (visited agrees he).2.step hs hstep
  refine ⟨settled, fun i hi => ?_⟩
  obtain ⟨y, hy⟩ := Function.mem_instructions.1 hi
  exact empty (y, i) (Function.mem_visited.2 hy)

/-- **And it fails** only for what cannot be given back. -/
theorem Agrees.lower_fails (agrees : ∀ i ∈ g.instructions, Agrees s₀ i)
    (quiet : ∀ i ∈ g.instructions, i.demand? .qubit = none) (hs : Settled s₀ s)
    (nodup : (g.gather binds?).Nodup)
    (same : ∀ v ∈ g.gather binds?, s.tracker.resolve? v = s₀.tracker.resolve? v)
    (h : (QubitLowering.lower sole s g).failure = some x) :
    x.Refuses .qubit ∧ s₀.pool.policy = .reuse ∧
      ∃ i ∈ g.instructions, i.releases?.isSome := by
  have perm := Function.gather_visited binds? g
  rw [lower_failure] at h
  have frames (s₁ : Stock) (i : Instruction) (s₂ : Stock) (d : Decision)
      (h : judge (honors sole s.pool g) s₁ i = (s₂, .ok d)) := frames_binds h
  refine failure_decideAll (P := Settled s₀) (Q := fun x => x.Refuses .qubit ∧
      s₀.pool.policy = .reuse ∧ ∃ i ∈ g.instructions, i.releases?.isSome) frames hs
    (perm.nodup_iff.2 nodup) (fun v hv => same v (perm.mem_iff.1 hv))
    (fun e he s s' a hs hstep => ((visited agrees he).2.step hs hstep).1)
    (fun e he s₁ hs₁ same₁ y hy => ?_) h
  obtain ⟨hi, agrees⟩ := visited agrees he
  obtain ⟨invalid, reuses, releases⟩ := agrees.fails (quiet _ hi) hs₁.known same₁
    (fun honored => (hs₁.policy.trans hs.policy.symm).trans (policy_of_honors honored)) hy
  exact ⟨invalid, hs₁.policy ▸ reuses, e.2, hi, releases⟩

variable {p q : Program} {c : Context}

/-- **A program of such functions** draws nothing where lowering it ends well,
and every array that it acquires is empty. -/
theorem settled_run (agrees : ∀ g ∈ q.definitions, ∀ i ∈ g.instructions, Agrees (c.stock .qubit) i)
    (h : (run q c).failure = none) :
    (run q c).context.qubits.highWater = c.qubits.highWater ∧
      ∀ e ∈ q.demands .qubit, e.2 = 0 := by
  rw [run_failure] at h
  rw [run_context]
  obtain ⟨s', sweeps, hc⟩ := sweeps_run h
  obtain ⟨settled, empty⟩ := sweeps.forall₂_of_invariant (P := Settled (c.stock .qubit))
    (R := fun g _ => ¬ g.isDeclaration →
      ∀ i ∈ g.instructions, ∀ e, i.demand? .qubit = some e → e.2 = 0)
    (.refl _) (fun g _ hd hg => absurd hd hg) fun g hg hd s hs hl => by
      obtain ⟨settled, empty⟩ :=
        Agrees.lower (agrees g (Program.mem_definitions.2 ⟨hg, hd⟩)) hs hl
      exact ⟨settled, fun _ => empty⟩
  refine ⟨?_, fun e he => ?_⟩
  · rw [hc]
    exact settled.highWater
  · obtain ⟨g, hg, i, hi, hie⟩ := Program.mem_gather.1 he
    obtain ⟨hg, hd⟩ := Program.mem_definitions.1 hg
    obtain ⟨g', -, hg'⟩ := exists_right_of_forall₂ empty hg
    exact hg' hd i hi e hie

/-- **Without arrays of constant size it fails** only for what cannot be given
back. -/
theorem fails_run (agrees : ∀ g ∈ q.definitions, ∀ i ∈ g.instructions, Agrees (c.stock .qubit) i)
    (nodup : (q.definitions.flatMap Function.definedValues).Nodup)
    (quiet : q.demands .qubit = []) (h : (run q c).failure = some x) :
    x.Refuses .qubit ∧ c.qubits.policy = .reuse ∧
      ∃ g ∈ q.definitions, ∃ i ∈ g.instructions, i.releases?.isSome := by
  have serves := serves_lower (managers q ≤ 1)
  have asks : ∀ g ∈ q.definitions, ∀ i ∈ g.instructions, i.demand? .qubit = none := by
    intro g hg i hi
    refine Option.eq_none_iff_forall_ne_some.2 fun e he => ?_
    have hmem : e ∈ q.demands .qubit := Program.mem_gather.2 ⟨g, hg, i, hi, he⟩
    rw [quiet] at hmem
    cases hmem
  rw [run_failure] at h
  refine failure_sweep serves (P := Settled (c.stock .qubit)) (Q := fun x => x.Refuses .qubit ∧
      c.qubits.policy = .reuse ∧ ∃ g ∈ q.definitions, ∃ i ∈ g.instructions, i.releases?.isSome)
    (.refl _)
    (serves.nodup_gather nodup) (fun v _ => rfl) (fun g hg hd s hs hl => ?_)
    (fun g hg hd s hs inside same y hy => ?_) h
  · exact (Agrees.lower (agrees g (Program.mem_definitions.2 ⟨hg, hd⟩)) hs hl).1
  · have hdef := Program.mem_definitions.2 ⟨hg, hd⟩
    obtain ⟨invalid, reuses, i, hi, releases⟩ :=
      Agrees.lower_fails (agrees g hdef) (asks g hdef) hs inside same hy
    exact ⟨invalid, reuses, g, hdef, i, hi, releases⟩

/-! ## What the first run leaves -/

/-- **The blocks of a table end below the handles that are new.** -/
def Within (s : Stock) : Prop :=
  s.tracker.All fun r => r.isBlock → r.handle + r.width ≤ s.pool.highWater

/-- **Every step keeps the blocks there.** -/
theorem within_judge (h : judge honored s i = (s', .ok d)) (hs : Within s) : Within s' := by
  have grown : s.pool.highWater ≤ s'.pool.highWater := by
    have grows := grows_judge honored s i
    rwa [h] at grows
  have known : s.tracker.All fun r => r.isBlock → r.handle + r.width ≤ s'.pool.highWater :=
    hs.imp fun r hr hb => (hr hb).trans grown
  cases judges_of_judge h with
  | acquire _ ht =>
    refine ht.all known fun r hr hb => ?_
    cases hr
    cases hb
  | acquireArray _ hp ht =>
    -- the only new block ends where the new handles start from now on
    obtain ⟨-, hbase, hp⟩ := Pool.allocateBlock_eq_ok.1 hp
    refine ht.all known fun r hr _ => ?_
    cases hr
    rw [hp, hbase]
    exact le_rfl
  | unsized _ _ ht => exact ht.all known fun r hr => by cases hr
  | project _ ht =>
    refine ht.all known fun r hr hb => ?_
    rw [isBlock_of_elementOf? hr] at hb
    cases hb
  | release _ _ ht =>
    unfold Within
    rwa [ht]
  | copy _ _ ht => exact ht.all known fun r => known.resolveAs? fun _ hb => by cases hb
  | phi _ _ ht => exact ht.all known fun r => known.joinAs? fun _ hb => by cases hb
  | unresolved | other => exact hs

theorem within_lower (h : (lower sole s f).failure = none) (hs : Within s) :
    Within (lower sole s f).stock := by
  obtain ⟨ds, gone, decides, -⟩ := exists_lowered h
  exact decides.invariant hs fun e _ s s' d hs hstep => within_judge hstep hs

/-! ### Instructions -/

/-- What operands stood for together at a visit, they stand for at the end with
addresses put in, if their values do. -/
theorem joinAs?_substitute {ds : List (Site × Decision)} {e : Site × Instruction} {s₁ s₂ : Stock}
    (visit : Decides.Visit (judge honored) s f ds s' e s₁ s₂ d)
    (new : ∀ v ∈ f.definedValues, s.tracker.resolve? v = none)
    (reads : ∀ v ∈ readValues e.2.operands, s₀.tracker.resolve? v = s'.tracker.resolve? v)
    {r : Resource} (joined : s₁.tracker.joinAs? .qubit e.2.operands = some r) :
    s₀.tracker.joinAs? .qubit
      (e.2.mapOperands (Operand.substitute (address? s'.tracker))).operands = some r := by
  have unknown : ∀ v ∈ f.definedValues, s.tracker.resolveAs? .qubit (.value v) = none := by
    intro v hv
    rw [Tracker.resolveAs?, Tracker.resolveOperand?_value, new v hv]
    rfl
  obtain ⟨hne, hops⟩ := Tracker.joinAs?_eq_some_iff.1 joined
  rw [Instruction.operands_mapOperands, Tracker.joinAs?_eq_some_iff]
  refine ⟨by simpa using hne, List.forall_mem_map.2 fun o ho => ?_⟩
  have same : ∀ v, o = .value v → s'.tracker.resolve? v = s₀.tracker.resolve? v :=
    fun v hv => (reads v (mem_readValues.2 (hv ▸ ho))).symm
  rw [← visit.resolveAs?_eq unknown (hops o ho), Tracker.resolveAs?,
    Tracker.resolveOperand?_substitute same]
  exact Tracker.resolveAs?_congr fun v hv => (same v hv).symm

/-- An instruction that asks for nothing agrees with a table that does not know
its value, with addresses put in as before. -/
theorem agrees_of_unknown {t : Tracker} (quiet : i.demand? .qubit = none)
    (new : ∀ v, binds? i = some v → s₀.tracker.resolve? v = none) :
    Agrees s₀ (i.mapOperands (Operand.substitute (address? t))) := by
  refine .unknown ?_ ?_
  · rwa [demand?_mapOperands constant?_substitute]
  · rwa [binds?_mapOperands constant?_substitute]

/-- An array agrees with a table that knows its block. -/
theorem agrees_of_block {t : Tracker} {v : ValueId} {ty : Ty} {args : List Operand}
    {size base : ℕ} (within : Within s₀) (hsize : args.head?.bind constant? = some size)
    (hone : size ≠ 1) (known : s₀.tracker.resolve? v = some (.block .qubit base size)) :
    Agrees s₀ (Instruction.mapOperands (Operand.substitute (address? t))
      ⟨some v, ty, .call Intrinsics.acquireArray args⟩) := by
  refine .array ?_ known (within v _ known (by simpa [Resource.isBlock]))
  rw [← hsize]
  cases args with
  | nil => rfl
  | cons a args => exact constant?_substitute a

/-- An element of a block has an address. -/
theorem isSome_address?_of_elementOf? {t t' : Tracker} {v : ValueId}
    {element : Option (Operand × ℕ)} {r : Resource} (h : elementOf? t element = some r)
    (known : t'.resolve? v = some r) : (address? t' v).isSome := by
  simp [address?, known, Resource.operand?, isBlock_of_elementOf? h]

/-- **An instruction that is left agrees with the table at the end**, where the
operands stand there for what they stood for after its function. -/
theorem agrees_of_finished {ds : List (Site × Decision)} {gone : List Site}
    (decides : Decides (judge honored) s f.visited ds s')
    (finished : Finished (address? s'.tracker) Prod.snd
      ((ds.filter fun d => d.2.isDroppable).map Prod.fst) f g gone)
    (nodup : f.definedValues.Nodup) (new : ∀ v ∈ f.definedValues, s.tracker.resolve? v = none)
    (within : Within s₀) {e : Site × Instruction} (he : e ∈ f.located) (left : e.1 ∉ gone)
    (same : ∀ v, e.2.result = some v → s₀.tracker.resolve? v = s'.tracker.resolve? v)
    (reads : ∀ v ∈ readValues e.2.operands, s₀.tracker.resolve? v = s'.tracker.resolve? v) :
    Agrees s₀ (e.2.mapOperands (Operand.substitute (address? s'.tracker))) := by
  obtain ⟨s₁, s₂, d, visit⟩ := decides.exists_visit frames_judge nodup he
  have goes := fun ha hv => left (finished.mem_gone (P := Decision.isDroppable) visit he ha hv)
  have result {v : ValueId} {o : Option Resource} (hv : e.2.result = some v)
      (ht : s₁.tracker.Sets s₂.tracker v o) : s'.tracker.resolve? v = o :=
    (visit.result v hv).trans ht.self
  have unknown {v : ValueId} (hv : e.2.result = some v) (hnone : s'.tracker.resolve? v = none) :
      ∀ u, binds? e.2 = some u → s₀.tracker.resolve? u = none := by
    intro u hu
    obtain rfl := Option.some.inj (hv.symm.trans (result_of_binds hu))
    rw [same v hv, hnone]
  have hmoves := fun v hv carried moves => moves_judge (v := v) hv carried moves visit.step
  have judged := judges_of_judge visit.step
  obtain ⟨y, i⟩ := e
  cases judged with
  | acquire _ ht =>
    refine absurd (fun v hv => ?_) (goes rfl)
    obtain rfl := Option.some.inj hv
    rw [address?_of_single (result rfl ht)]
    rfl
  | @acquireArray v ty args size base _ hsize _ ht =>
    have hv := result rfl ht
    by_cases hone : size = 1
    · -- an array of one is a qubit
      refine absurd (fun u hu => ?_) (goes rfl)
      obtain rfl := Option.some.inj hu
      rw [address?, hv, hone]
      rfl
    · exact agrees_of_block within hsize hone ((same v rfl).trans hv)
  | unsized hsize _ ht =>
    refine agrees_of_unknown ?_ (unknown rfl (result rfl ht))
    rw [demand?_acquireArray, hsize]
    rfl
  | @project v ty args _ _ ht =>
    have hv := result rfl ht
    cases helem : elementOf? s₁.tracker (element? args) with
    | none => exact agrees_of_unknown rfl (unknown rfl (hv.trans helem))
    | some r =>
      -- an element that is known has an address
      refine absurd (fun u hu => ?_) (goes (by rw [helem]; rfl))
      obtain rfl := Option.some.inj hu
      exact isSome_address?_of_elementOf? helem (hv.trans helem)
  | copy hty | phi hty =>
    obtain ⟨ht, -⟩ := hmoves _ rfl hty rfl
    have hv := result rfl ht
    cases hj : s₁.tracker.joinAs? .qubit _ with
    | none => exact agrees_of_unknown (demand?_of_moves rfl) (unknown rfl (hv.trans hj))
    | some r =>
      -- what moves a block stays, with operands that stand for the block
      exact .moves rfl hty rfl ((same _ rfl).trans (hv.trans hj))
        (joinAs?_substitute visit new reads hj)
  | release | unresolved =>
    exact agrees_of_unknown rfl fun u hu => by cases result_of_binds hu
  | other hrole =>
    refine agrees_of_unknown ?_ fun u hu => ?_
    · rw [demand?_role, hrole]
      rfl
    · rw [binds?, hrole] at hu
      cases hu

/-- **What the first run leaves agrees with its table.** -/
theorem agrees_run (wf : p.WellFormed) (new : ∀ v, c.tracker.resolve? v = none)
    (h : (run p c).failure = none) :
    ∀ g ∈ (run p c).program.definitions, ∀ j ∈ g.instructions,
      Agrees ((run p c).context.stock .qubit) j := by
  rw [run_failure] at h
  rw [run_program, run_context]
  obtain ⟨s', hctx, sweeps, turns⟩ :=
    exists_turns frames_lower (fun _ _ => isDeclaration_lower) wf.values h
  intro g hg j hj
  obtain ⟨f, hf, s₁, turn⟩ := exists_left_of_forall₂ turns hg
  obtain ⟨ds, gone, decides, finished⟩ := exists_lowered turn.failure
  rw [← turn.function] at finished
  obtain ⟨e, he, left, rfl⟩ := finished.mem_instructions_iff.1 hj
  have within : Within s' := sweeps.invariant (P := Within)
    (fun v r hv => by cases (new v).symm.trans hv) fun _ _ _ _ hs hl => within_lower hl hs
  have hi : e.2 ∈ f.instructions := Function.mem_instructions.2 ⟨e.1, he⟩
  rw [hctx]
  exact agrees_of_finished decides finished (wf.nodup_definedValues hf)
    (fun v hv => (turn.new v hv).trans (new v)) within he left
    (fun v hv => turn.result v (Function.result_mem_definedValues he hv))
    fun v hv => turn.result v (wf.instruction_reads hf hi hv)

/-- Every instruction that is left was there before, with other operands. -/
theorem exists_origin_run (h : (run p c).failure = none) :
    ∀ g ∈ (run p c).program.definitions, ∀ j ∈ g.instructions,
      ∃ f ∈ p.definitions, ∃ i ∈ f.instructions, ∃ σ, j = i.mapOperands σ := by
  rw [run_failure] at h
  rw [run_program]
  have origins : List.Forall₂ (fun f g => g.isDeclaration = f.isDeclaration ∧
      ∀ j ∈ g.instructions, ∃ i ∈ f.instructions, ∃ σ, j = i.mapOperands σ) p.functions
      (Lowering.run .qubit (lower (managers p ≤ 1)) p c).program.functions :=
    (sweeps_sweep h).forall₂
    (fun f _ _ => ⟨rfl, fun j hj => ⟨j, hj, id, j.mapOperands_id.symm⟩⟩)
    fun s f _ _ hl => ⟨isDeclaration_lower hl, fun j hj => by
      obtain ⟨ds, gone, -, finished⟩ := exists_lowered hl
      obtain ⟨e, he, -, rfl⟩ := finished.mem_instructions_iff.1 hj
      exact ⟨e.2, Function.mem_instructions.2 ⟨e.1, he⟩, _, rfl⟩⟩
  intro g hg j hj
  have definitions := Program.forall₂_definitions (fun _ _ => And.left) origins
  obtain ⟨f, hf, -, origin⟩ := exists_left_of_forall₂ definitions hg
  exact ⟨f, hf, origin j hj⟩

/-- **Lowering qubits keeps programs well formed**, whatever measures into
results. -/
theorem wellFormed_run (wf : p.WellFormed) (h : (run p c).failure = none) :
    (run p c).program.WellFormed := by
  have lowers := run_lowersTo h
  refine lowers.wellFormed_of_passes wf fun g hg j hj args hcall callee hcallee => ?_
  obtain ⟨f, hf, i, hi, σ, rfl⟩ := exists_origin_run h g hg j hj
  obtain ⟨callee', hcallee', harity⟩ := lowers.keepsArities _ _ hcallee
  obtain ⟨b, hb, hib⟩ := List.mem_flatMap.1 hi
  have wi := ((wf.definitions f hf).blocks b hb).instructions i hib
  obtain ⟨result, ty, operation⟩ := i
  cases operation with
  | call name args' =>
    obtain ⟨rfl, rfl⟩ := Operation.call.inj hcall
    rw [harity, List.length_map]
    exact wi.arity _ _ rfl _ hcallee'
  | _ => cases hcall

end QubitLowering

/-! ## Two runs -/

namespace QubitLowering

variable {p q q' : Program} {c c₁ c₂ : Context} {x : Failure}

/-- What ends well leaves a program well formed. -/
theorem wellFormed_of_ends (wf : p.WellFormed) (first : Pass.qubitLowering.Ends p c q c₁) :
    q.WellFormed := by
  cases first with
  | skipped => exact wf
  | ran _ h => exact wellFormed_run wf h

/-- **Two runs that end well**: the second one draws nothing, and only empty arrays
were left for it. -/
theorem ends_twice (wf : p.WellFormed) (new : ∀ v, c.tracker.resolve? v = none)
    (first : Pass.qubitLowering.Ends p c q c₁) (second : Pass.qubitLowering.Ends q c₁ q' c₂) :
    c₂.qubits.highWater = c₁.qubits.highWater ∧ c₂.results = c₁.results ∧
      ∀ e ∈ q.demands .qubit, e.2 = 0 := by
  cases second with
  | skipped hno =>
    refine ⟨rfl, rfl, fun e he => ?_⟩
    rw [demands_eq_nil hno] at he
    cases he
  | ran should hrun =>
    cases first with
    | skipped hno => exact absurd should (by rw [hno]; exact Bool.false_ne_true)
    | ran _ h =>
      obtain ⟨water, empty⟩ := settled_run (agrees_run wf new h) hrun
      refine ⟨water, ?_, empty⟩
      change (run _ _).context.results = _
      rw [run_context]
      rfl

/-- **A second run that fails** does so for a release that was left, unless an array
of constant size was. -/
theorem fails_twice (wf : p.WellFormed) (new : ∀ v, c.tracker.resolve? v = none)
    (first : Pass.qubitLowering.Ends p c q c₁)
    (should : Pass.qubitLowering.shouldRun q c₁ = true) (quiet : q.demands .qubit = [])
    (h : (Pass.qubitLowering.run q c₁).failure = some x) :
    x.Refuses .qubit ∧ c.qubits.policy = .reuse ∧
      ∃ g ∈ q.definitions, ∃ i ∈ g.instructions, i.releases?.isSome := by
  cases first with
  | skipped hno => exact absurd should (by rw [hno]; exact Bool.false_ne_true)
  | ran _ hfirst =>
    obtain ⟨refused, reuses, releases⟩ :=
      fails_run (agrees_run wf new hfirst) (wellFormed_run wf hfirst).values quiet h
    have drawn := (hfirst ▸ spends_run wf.values new).drawn_of_none
    exact ⟨refused, drawn.policy ▸ reuses, releases⟩

end QubitLowering

/-! ## Schedules -/

namespace Schedule

variable {s : Schedule} {pass : Pass} {p p' : Program} {c c' : Context} {x : Failure}

/-- A schedule of one pass ends well as the pass does. -/
theorem ends_of_single (hs : s.pipeline.map Prod.snd = [pass]) (h : (s.run p c).failure = none) :
    pass.Ends p c (s.run p c).program (s.run p c).context := by
  have runs := runs_of_run h
  rw [hs] at runs
  generalize (s.run p c).program = p' at *
  generalize (s.run p c).context = c' at *
  cases runs with
  | cons ends runs =>
    cases runs with
    | nil => exact ends

/-- And it fails as the pass does, if that leaves a program that can be
verified. -/
theorem failure_of_single (hs : s.pipeline.map Prod.snd = [pass])
    (verified : (pass.run p c).failure = none → (pass.run p c).program.verify = .ok ())
    (h : (s.run p c).failure = some x) :
    pass.shouldRun p c = true ∧ (pass.run p c).failure = some x := by
  obtain ⟨⟨hook, pass⟩, hpipeline, rfl⟩ := List.map_eq_singleton_iff.1 hs
  have hrun : (runPass s.verifyEach hook pass p c).failure = some x := by
    unfold run at h
    rw [hpipeline] at h
    cases hpass : (runPass s.verifyEach hook pass p c).failure with
    | none => simp [runAll, Outcome.andThen, hpass] at h
    | some y => simpa [runAll, Outcome.andThen, hpass] using h
  simp only [runPass] at hrun
  split at hrun
  · rename_i hshould
    refine ⟨hshould, ?_⟩
    cases hpass : (pass.run p c).failure with
    | none =>
      have hv : (if s.verifyEach then (pass.run p c).program.verify else .ok ()) = .ok () := by
        split
        · exact verified hpass
        · rfl
      simp [Outcome.andThen, hpass, finishPass, hv] at hrun
    | some y => simpa [Outcome.andThen, hpass] using hrun
  · cases hrun

/-- **What a second run can do.** Where it ends well it draws nothing. It fails where
the first run left an array of at least one qubit. Where no array of constant
size was left it ends well, unless a release was left that is refused. -/
theorem lowered_twice (s : Schedule) (hs : s.pipeline.map Prod.snd = [.qubitLowering])
    (p : Program) (hp : p.verify = .ok ()) (c : Context)
    (new : ∀ v, c.tracker.resolve? v = none) (h : (s.run p c).failure = none) :
    let first := s.run p c
    let again := s.run first.program first.context
    (again.failure = none →
        again.context.qubits.highWater = first.context.qubits.highWater ∧
          again.context.results.highWater = first.context.results.highWater) ∧
      ((∃ e ∈ first.program.demands .qubit, e.2 ≠ 0) → again.failure ≠ none) ∧
      (first.program.demands .qubit = [] → again.failure = none ∨
        ∃ x, again.failure = some x ∧ x.Refuses .qubit ∧ c.qubits.policy = .reuse ∧
          ∃ f ∈ first.program.definitions, ∃ i ∈ f.instructions, i.releases?.isSome) := by
  have wf := Program.verify_eq_ok_iff.1 hp
  intro first again
  have ends : Pass.qubitLowering.Ends p c first.program first.context := ends_of_single hs h
  refine ⟨fun ha => ?_, fun ⟨e, he, hne⟩ ha => ?_, fun quiet => ?_⟩
  · obtain ⟨water, results, -⟩ := QubitLowering.ends_twice wf new ends (ends_of_single hs ha)
    exact ⟨water, congrArg Pool.highWater results⟩
  · exact hne ((QubitLowering.ends_twice wf new ends (ends_of_single hs ha)).2.2 e he)
  · cases ha : again.failure with
    | none => exact .inl rfl
    | some x =>
      have wf₁ := QubitLowering.wellFormed_of_ends wf ends
      obtain ⟨should, hrun⟩ := failure_of_single hs (fun hr =>
        Program.verify_eq_ok_iff.2 (QubitLowering.wellFormed_run wf₁ hr)) ha
      exact .inr ⟨x, rfl, QubitLowering.fails_twice wf new ends should quiet hrun⟩

/-- The schedule that lowers qubits alone. -/
def qubitsAlone : Schedule := empty.add .pipelineStart .qubitLowering

theorem lowered_twice_coinFlip :
    coinFlip.verify = .ok () ∧ (qubitsAlone.run coinFlip .default).failure = none ∧
      (qubitsAlone.run coinFlip .default).program.demands .qubit = [] ∧
      (qubitsAlone.run (qubitsAlone.run coinFlip .default).program
        (qubitsAlone.run coinFlip .default).context).failure = none := by
  have key := lowered_twice qubitsAlone rfl coinFlip (by decide) .default (fun _ => rfl) rfl
  have quiet : (qubitsAlone.run coinFlip .default).program.demands .qubit = [] := rfl
  refine ⟨by decide, rfl, quiet, (key.2.2 quiet).resolve_right ?_⟩
  -- the pools of this context take nothing back, so nothing can be refused
  rintro ⟨x, -, -, reuses, -⟩
  cases reuses

/-- An array is acquired and passed on as a whole. -/
def passedOn : Program := straightLine "passed" [
  ⟨some ⟨0⟩, .array, .call Intrinsics.acquireArray [.int 2]⟩,
  .call "apply" [.value ⟨0⟩]]

/-- **A second run can fail**: an array that is still read is acquired again, and its
value stands for a block already. -/
theorem not_lowered_twice :
    passedOn.verify = .ok () ∧ Context.default.tracker = .empty ∧
      Context.default.qubits = .fresh .noReuse none ∧
      Context.default.results = .fresh .noReuse none ∧
      (qubitsAlone.run passedOn .default).failure = none ∧
      (qubitsAlone.run passedOn .default).context.qubits.highWater = 2 ∧
      (qubitsAlone.run (qubitsAlone.run passedOn .default).program
        (qubitsAlone.run passedOn .default).context).failure =
          some (.redefinition ⟨⟨0⟩, .block .qubit 0 2, .block .qubit 2 2⟩) ∧
      (qubitsAlone.run (qubitsAlone.run passedOn .default).program
        (qubitsAlone.run passedOn .default).context).context.qubits.highWater = 4 :=
  ⟨by decide, rfl, rfl, rfl, rfl, rfl, rfl, rfl⟩

end Schedule

namespace QubitLowering

/-! ## A release that is refused -/

/-- A qubit is released twice in a block that is visited before the one where it is
acquired. -/
def earlyMain (target : Operand) (acquisitions : List Instruction) : Function where
  name := "main"
  params := []
  signature := []
  returnType := .void
  blocks := [
    ⟨⟨0⟩, "entry", [], some (.ret none)⟩,
    ⟨⟨1⟩, "early",
      [.call Intrinsics.releaseQubit [target], .call Intrinsics.releaseQubit [target]],
      some (.ret none)⟩,
    ⟨⟨2⟩, "late", acquisitions, some (.ret none)⟩]
  attributes := .empty

/-- The function before it is lowered. -/
def earlyBefore : Function :=
  earlyMain (.value ⟨0⟩) [⟨some ⟨0⟩, .qubit, .call Intrinsics.acquireQubit []⟩]

/-- And after it was. -/
def earlyAfter : Function := earlyMain (.qubit 0) []

/-- The program of that function alone. -/
def early : Program where
  name := "early"
  functions := [earlyBefore]
  flags := .empty
  nextValue := 1

/-- The first run does not know what is released. -/
theorem plan_early :
    plan true (reusing.stock .qubit) earlyBefore =
      ⟨[(⟨1, 0⟩, .stays), (⟨1, 1⟩, .stays), (⟨2, 0⟩, .acquired ⟨0⟩ 0)],
        ⟨⟨.reuse, none, 1, ∅⟩, ⟨SortedMap.empty.insert ⟨0⟩ (.known (.single .qubit 0)),
          [⟨.qubit, 0, 1, ⟨0⟩⟩]⟩⟩, none⟩ := by
  cbv

/-- **A second run can fail where no array is left**: it knows what is released, and
does so twice. -/
theorem early_refused :
    early.verify = .ok () ∧ (run early reusing).failure = none ∧
      (run early reusing).program.demands .qubit = [] ∧
      (run (run early reusing).program (run early reusing).context).failure =
        some (.allocation .qubit (.alreadyReleased 0)) := by
  have lone : early.functions = [earlyBefore] := rfl
  obtain ⟨runs, context⟩ := run_eq_plan lone rfl reusing
  have decided : plan (managers early ≤ 1) (reusing.stock .qubit) earlyBefore = _ := plan_early
  have left : (run early reusing).program.functions = [earlyAfter] := by
    rw [functions_run_eq_lower lone rfl (by rw [decided]), lower_function (by rw [decided]),
      decided]
    rfl
  have managers : managers (run early reusing).program = 1 := by
    rw [QubitLowering.managers, Program.definitions, left]
    rfl
  refine ⟨by decide, by rw [runs, decided], ?_, ?_⟩
  · rw [Program.demands, Program.gather, left]
    rfl
  · rw [(run_eq_plan left rfl _).1, managers, context, decided]
    cbv

end QubitLowering

end QuantumLowering
