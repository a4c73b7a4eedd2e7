import QuantumLowering.Proofs.Demand.Exact
/-!
# Which addresses are given to what a program asks for

A pool counts up and looks at no program. So whatever the policy and
whatever comes of a run, the handles that a table gives to the demands of
a program are the first ones, up to the number that the pool has handed
out (`Stock.Covered`). An address that stood in the program before is
given a second time if and only if it is among them
(`Schedule.allocation_aliases_iff`).
-/


namespace QuantumLowering

open Lowering

variable {kind : ResourceKind}

/-! ## Tables -/

namespace Tracker

variable {t t' : Tracker} {v : ValueId} {r : Resource} {o : Option Resource}
variable {ds : List (ValueId × ℕ)} {x : Handle}

/-- **A table gives a handle to one of some demands.** -/
def Gives (t : Tracker) (ds : List (ValueId × ℕ)) (x : Handle) : Prop :=
  ∃ d ∈ ds, ∃ r, t.resolve? d.1 = some r ∧ x ∈ r.addresses

/-- What is given depends on the values asked for alone. -/
theorem gives_congr (h : ∀ d ∈ ds, t'.resolve? d.1 = t.resolve? d.1) :
    t'.Gives ds x ↔ t.Gives ds x := by
  refine exists_congr fun d => and_congr_right fun hd => ?_
  rw [h d hd]

/-- A value that was not looked at adds what it is bound to. -/
theorem Sets.gives_iff (ht : t.Sets t' v (some r)) (new : t.resolve? v = none) {n : ℕ}
    (hd : (v, n) ∈ ds) : t'.Gives ds x ↔ t.Gives ds x ∨ x ∈ r.addresses := by
  constructor
  · rintro ⟨d, hmem, r', hr', hx⟩
    by_cases hv : d.1 = v
    · rw [hv, ht.self] at hr'
      obtain rfl := Option.some.inj hr'
      exact .inr hx
    · rw [ht.other hv] at hr'
      exact .inl ⟨d, hmem, r', hr', hx⟩
  · rintro (⟨d, hmem, r', hr', hx⟩ | hx)
    · have hv : d.1 ≠ v := by
        intro hv
        rw [hv, new] at hr'
        cases hr'
      exact ⟨d, hmem, r', (ht.other hv).trans hr', hx⟩
    · exact ⟨(v, n), hd, r, ht.self, hx⟩

end Tracker

/-! ## Stocks -/

/-- **The handles given to some demands are the first ones**, as many as were
handed out. -/
structure Stock.Covered (s : Stock) (ds : List (ValueId × ℕ)) : Prop where
  /-- Only handles that were handed out are free. -/
  issued : s.pool.Issued
  /-- What was handed out is given to a demand, and nothing else is. -/
  covers : ∀ x, s.tracker.Gives ds x ↔ x < s.pool.highWater

namespace Stock.Covered

variable {s s' : Stock} {v : ValueId} {n : ℕ} {ds : List (ValueId × ℕ)}

/-- Nothing was given and nothing handed out. -/
theorem start {policy : ReusePolicy} {capacity : Option ℕ} {t : Tracker}
    (new : ∀ d ∈ ds, t.resolve? d.1 = none) : Stock.Covered ⟨.fresh policy capacity, t⟩ ds where
  issued := (Pool.Reachable.fresh policy capacity).issued
  covers x := by
    refine iff_of_false ?_ (Nat.not_lt_zero x)
    rintro ⟨d, hd, r, hr, -⟩
    rw [new d hd] at hr
    cases hr

/-- It depends on the values asked for alone. -/
theorem congr (h : s.Covered ds) (hp : s'.pool = s.pool)
    (same : ∀ d ∈ ds, s'.tracker.resolve? d.1 = s.tracker.resolve? d.1) : s'.Covered ds where
  issued := hp ▸ h.issued
  covers x := by rw [Tracker.gives_congr same, h.covers, hp]

/-- Handing out to a value that is asked for. -/
theorem keep (h : s.Covered ds) (hd : (v, n) ∈ ds) (new : s.tracker.resolve? v = none)
    {width : ℕ} {count : Handle → ℕ} {drawn : Pool.Reply Handle}
    (ok : ∀ p first, drawn = (p, .ok first) → p.Issued ∧
      ∀ x, x < p.highWater ↔ x < s.pool.highWater ∨ x ∈ (Resource.mk kind first width).addresses)
    (error : ∀ p e, drawn = (p, .error e) → p = s.pool) :
    (s.keep kind (fun h => s.tracker.record v ⟨kind, h, width⟩ (count h)) drawn).1.Covered ds := by
  obtain ⟨p, e | first⟩ := drawn
  · obtain rfl := error p e rfl
    exact h
  · obtain ⟨t, ht⟩ := Stock.exists_record new ⟨kind, first, width⟩ (count first)
    obtain ⟨issued, hp⟩ := ok p first rfl
    have hset := Tracker.sets_of_record ht
    simp only [Stock.keep, ht]
    refine ⟨issued, fun x => ?_⟩
    rw [hset.gives_iff new hd, h.covers x, hp x]

theorem acquire (h : s.Covered ds) (hd : (v, n) ∈ ds) (new : s.tracker.resolve? v = none) :
    (s.acquire kind v).1.Covered ds :=
  h.keep hd new (fun _ _ ha => ⟨(Pool.takes_allocate h.issued ha kind).issued,
    Pool.lt_highWater_allocate h.issued ha⟩) fun _ _ ha => (Pool.allocate_eq_error ha).2.2

theorem acquireBlock (h : s.Covered ds) (hd : (v, n) ∈ ds) (new : s.tracker.resolve? v = none)
    (size : ℕ) : (s.acquireBlock kind v size).1.Covered ds :=
  h.keep hd new (fun _ _ ha => ⟨(Pool.takes_allocateBlock h.issued ha kind).issued,
    Pool.lt_highWater_allocateBlock ha⟩) fun _ _ ha => (Pool.allocateBlock_eq_error.1 ha).2.2

/-- Deriving a value that is not asked for. -/
theorem derive (h : s.Covered ds) (hv : ∀ d ∈ ds, d.1 ≠ v) (o : Option Resource) :
    (s.derive v o).1.Covered ds := by
  have hp : (s.derive v o).1.pool = s.pool := by
    unfold Stock.derive
    split <;> rfl
  exact h.congr hp fun d hd => Stock.resolve?_derive (hv d hd)

theorem release (h : s.Covered ds) (r : Resource) : (s.release r).1.Covered ds := by
  obtain ⟨issued, hwater⟩ := Pool.issued_releaseBlock h.issued r.handle r.count
  rw [← Stock.pool_release] at issued hwater
  refine ⟨issued, fun x => ?_⟩
  rw [Stock.tracker_release, h.covers, hwater]

/-- **A step leaves it so** if it binds a value asked for only where it asks for it. -/
theorem of_effect {α : Type} {gives : Resource → Prop} {asks : Option (ValueId × ℕ)}
    {binds : Option ValueId} {d : Draw α} (h : s.Covered ds)
    (effect : s.Effect kind gives asks binds d) (asked : ∀ e, asks = some e → e ∈ ds)
    (only : ∀ e ∈ ds, binds = some e.1 → asks = some e)
    (new : ∀ v, binds = some v → s.tracker.resolve? v = none) : d.1.Covered ds := by
  cases effect with
  | acquire => exact h.acquire (asked _ rfl) (new _ rfl)
  | acquireBlock => exact h.acquireBlock (asked _ rfl) (new _ rfl) _
  | derive =>
    -- a value that is derived is not asked for
    exact h.derive (fun e he hv => by cases only e he (congrArg some hv.symm)) _
  | release => exact h.release _
  | still => exact h

end Stock.Covered

/-! ## Runs -/

/-- An instruction that binds a value asked for asks for it. -/
theorem Program.demand_of_binds {p : Program} {binds : Instruction → Option ValueId}
    (nodup : (p.definitions.flatMap Function.definedValues).Nodup)
    (result : ∀ i v, binds i = some v → i.result = some v)
    (demanded : ∀ i d, i.demand? kind = some d → binds i = some d.1) {f : Function}
    (hf : f ∈ p.definitions) {i : Instruction} (hi : i ∈ f.instructions) {d : ValueId × ℕ}
    (hd : d ∈ p.demands kind) (hb : binds i = some d.1) : i.demand? kind = some d := by
  obtain ⟨g, hg, j, hj, hjd⟩ := Program.mem_gather.1 hd
  obtain rfl := Program.instruction_unique nodup hf hg hi hj (result i d.1 hb)
    (result j d.1 (demanded j d hjd))
  exact hjd

/-- **The handles given to what a program asks for are the first ones**, of both
kinds. -/
def Context.Covered (c : Context) (p : Program) : Prop :=
  ∀ kind, (c.stock kind).Covered (p.demands kind)

variable {p p₁ : Program} {c c₁ : Context}

/-- Lowering qubits leaves them so, even if it fails. -/
theorem QubitLowering.covered_run (nodup : (p.definitions.flatMap Function.definedValues).Nodup)
    (new : ∀ v, c.tracker.resolve? v = none) (h : c.Covered p) :
    (run p c).context.Covered p := by
  intro kind
  cases kind with
  | qubit =>
    refine invariant_run (P := fun s => s.Covered (p.demands .qubit)) (h .qubit) nodup new
      fun f hf i hi honored s hs new =>
        hs.of_effect (effect_judge honored s i) (fun d hd => ?_) (fun d hd => ?_) new
    · exact Program.mem_gather.2 ⟨f, hf, i, hi, hd⟩
    · exact Program.demand_of_binds nodup (fun _ _ => result_of_binds)
        (fun _ _ => binds_of_demand) hf hi hd
  | result =>
    have hp : (run p c).context.results = c.results := by
      rw [run_context]
      rfl
    refine (h .result).congr hp fun d hd => ?_
    -- what is asked for as a result is not bound as a qubit
    refine invariant_run (P := fun s => s.tracker.resolve? d.1 = c.tracker.resolve? d.1) rfl nodup
      new fun f hf i hi honored s hs _ => ?_
    rw [← hs]
    refine resolve?_judge fun hb => ?_
    obtain ⟨g, hg, j, hj, hjd⟩ := Program.mem_gather.1 hd
    exact Program.binds_apart nodup (Program.mem_gather.2 ⟨f, hf, i, hi, hb⟩)
      (Program.mem_gather.2 ⟨g, hg, j, hj, ResultLowering.binds_of_demand hjd⟩)

/-- And so does lowering results after it. -/
theorem ResultLowering.covered_run (nodup : (p₁.definitions.flatMap Function.definedValues).Nodup)
    (new : ∀ v ∈ p₁.gather binds?, c₁.tracker.resolve? v = none)
    (demands : p₁.demands .result = p.demands .result)
    (apart : ∀ d ∈ p.demands .qubit, d.1 ∉ p₁.gather binds?) (h : c₁.Covered p) :
    (run p₁ c₁).context.Covered p := by
  intro kind
  cases kind with
  | result =>
    refine invariant_run (P := fun s => s.Covered (p.demands .result)) (h .result) nodup new
      fun f hf i hi s hs new =>
        hs.of_effect (effect_judge s i) (fun d hd => ?_) (fun d hd => ?_) new
    · rw [← demands]
      exact Program.mem_gather.2 ⟨f, hf, i, hi, hd⟩
    · rw [← demands] at hd
      exact Program.demand_of_binds nodup (fun _ _ => result_of_binds)
        (fun _ _ => binds_of_demand) hf hi hd
  | qubit =>
    have hp : (run p₁ c₁).context.qubits = c₁.qubits := by
      rw [run_context]
      rfl
    refine (h .qubit).congr hp fun d hd => ?_
    -- what is asked for as qubits is not bound as a result
    refine invariant_run (P := fun s => s.tracker.resolve? d.1 = c₁.tracker.resolve? d.1) rfl nodup
      new fun f hf i hi s hs _ => ?_
    rw [← hs]
    exact resolve?_judge fun hb => apart d hd (Program.mem_gather.2 ⟨f, hf, i, hi, hb⟩)

namespace Schedule

/-- Stating what is needed leaves the context as it is. -/
theorem eq_of_leaves_requirements {c' : Context} (h : Leaves [.requirements] p c c') : c' = c := by
  cases h with
  | stopped => rfl
  | failed => rfl
  | later ends rest =>
    cases rest with
    | stopped => exact Requirements.context_of_ends ends

/-- **Lowering qubits, then results, gives the first handles**, wherever it
stops. -/
theorem covered_of_leaves (nodup : (p.definitions.flatMap Function.definedValues).Nodup)
    (new : ∀ v, c.tracker.resolve? v = none) (h : c.Covered p) {c' : Context}
    (leaves : Leaves [.qubitLowering, .resultLowering, .requirements] p c c') : c'.Covered p := by
  cases leaves with
  | stopped => exact h
  | failed => exact QubitLowering.covered_run nodup new h
  | @later _ _ _ p₁ _ c₁ _ first leaves =>
    have h₁ : c₁.Covered p := by
      cases first with
      | skipped => exact h
      | ran => exact QubitLowering.covered_run nodup new h
    have nodup₁ := nodup.sublist (QubitLowering.lowersTo_of_ends first).definedValues_sublist
    obtain ⟨demands, binds, new₁⟩ := QubitLowering.leaves_results first nodup new
    have apart : ∀ d ∈ p.demands .qubit, d.1 ∉ p₁.gather ResultLowering.binds? := by
      intro d hd
      rw [binds]
      obtain ⟨f, hf, i, hi, hid⟩ := Program.mem_gather.1 hd
      exact Program.binds_apart nodup
        (Program.mem_gather.2 ⟨f, hf, i, hi, QubitLowering.binds_of_demand hid⟩)
    cases leaves with
    | stopped => exact h₁
    | failed => exact ResultLowering.covered_run nodup₁ new₁ demands apart h₁
    | later second leaves =>
      rw [eq_of_leaves_requirements leaves]
      cases second with
      | skipped => exact h₁
      | ran => exact ResultLowering.covered_run nodup₁ new₁ demands apart h₁

end Schedule

/-! ## Addresses that were there before -/

/-- The addresses of a kind among the operands in the definitions of a
program. -/
def Program.addresses (kind : ResourceKind) (p : Program) : List Handle :=
  p.definitions.flatMap fun f => f.operands.filterMap kind.handle?

/-- **An address of a program is given to what it asks for** as well. -/
def Program.Aliases (kind : ResourceKind) (p : Program) (t : Tracker) : Prop :=
  ∃ x ∈ p.addresses kind, t.Gives (p.demands kind) x

namespace Schedule

/-- **Lowering gives the first addresses, so it gives those that stood in the
program before** if they are among the first: with fresh pools, whatever
their policies, and whether the run ends well or not. -/
theorem allocation_aliases_iff (p : Program) (hp : p.verify = .ok ()) (c : Context)
    (hc : c.tracker = .empty)
    (fresh : ∀ kind, ∃ policy capacity, c.pool kind = .fresh policy capacity)
    (verifyEach : Bool) (kind : ResourceKind) :
    (∀ x, ({ allocation with verifyEach }.run p c).context.tracker.Gives (p.demands kind) x ↔
        x < (({ allocation with verifyEach }.run p c).context.pool kind).highWater) ∧
      (p.Aliases kind ({ allocation with verifyEach }.run p c).context.tracker ↔
        ∃ x ∈ p.addresses kind,
          x < (({ allocation with verifyEach }.run p c).context.pool kind).highWater) := by
  have new : ∀ v, c.tracker.resolve? v = none := by
    intro v
    rw [hc]
    rfl
  have start : c.Covered p := by
    intro kind
    obtain ⟨policy, capacity, hpool⟩ := fresh kind
    unfold Context.stock
    rw [hpool]
    exact .start fun d _ => new d.1
  have leaves := leaves_of_run { allocation with verifyEach } p c
  rw [allocation_passes] at leaves
  have covered := covered_of_leaves (Program.verify_eq_ok_iff.1 hp).values new start leaves kind
  refine ⟨covered.covers, exists_congr fun x => and_congr_right fun _ => covered.covers x⟩

end Schedule

/-! ## A program with an address -/

/-- A gate is applied to an address and to a qubit that is acquired. -/
def mixedMain : Function where
  name := "main"
  params := []
  signature := []
  returnType := .void
  blocks := [
    ⟨⟨0⟩, "entry", [
      .call "__quantum__qis__h__body" [.qubit 0],
      ⟨some ⟨0⟩, .qubit, .call Intrinsics.acquireQubit []⟩,
      .call "__quantum__qis__h__body" [.value ⟨0⟩]],
      some (.ret none)⟩]
  attributes := SortedMap.empty.insert Function.entryPointAttribute ""

/-- The program of that function alone. -/
def mixed : Program where
  name := "mixed"
  functions := [mixedMain]
  flags := .empty
  nextValue := 1

namespace Schedule

theorem allocation_aliases_iff_mixed :
    mixed.verify = .ok () ∧ mixed.addresses .qubit = [0] ∧
      ({ allocation with verifyEach := false }.run mixed .default).context.qubits.highWater = 1 ∧
      (mixed.Aliases .qubit
          ({ allocation with verifyEach := false }.run mixed .default).context.tracker ↔
        ∃ x ∈ mixed.addresses .qubit,
          x <
            ({ allocation with verifyEach := false }.run mixed .default).context.qubits.highWater) := by
  have verified : mixed.verify = .ok () := by decide
  have fresh : ∀ kind, ∃ policy capacity, Context.default.pool kind = .fresh policy capacity := by
    intro kind
    cases kind <;> exact ⟨.noReuse, none, rfl⟩
  exact ⟨verified, rfl, rfl,
    (allocation_aliases_iff mixed verified .default rfl fresh false .qubit).2⟩

/-- **A qubit can be given an address that stood in the program before**: pools do
not look at programs. -/
theorem mixed_aliases :
    mixed.verify = .ok () ∧ Context.default.tracker = .empty ∧
      Context.default.qubits = .fresh .noReuse none ∧
      Context.default.results = .fresh .noReuse none ∧
      ({ allocation with verifyEach := false }.run mixed .default).failure = none ∧
      mixed.Aliases .qubit
        ({ allocation with verifyEach := false }.run mixed .default).context.tracker :=
  ⟨by decide, rfl, rfl, rfl, rfl, 0, by decide, (⟨0⟩, 1), by decide, .single .qubit 0, rfl,
    List.mem_singleton_self 0⟩

end Schedule

end QuantumLowering
