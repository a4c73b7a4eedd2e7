import Mathlib.Logic.Function.Basic
import QuantumLowering.Proofs.Demand.Aliasing
import QuantumLowering.Proofs.Pass.Soundness
/-!
# Addresses are accounted for

Every address that lowering gives to a value or puts into a program was
handed out by a pool, or it stood in the program at the beginning. Nothing is
asked of the program for that, and nothing of how a pass ends: what is handed
out is marked in the pool before the table knows of it, and the table knows of
it before it is put into the program (`Pass.accounted_runEach`).
-/


namespace QuantumLowering

open Lowering

/-! ## Operands and resources -/

section

variable {p₀ : Program} {m m' : ResourceKind → ℕ} {drawn : ResourceKind}

/-- **An operand is accounted for**: if it is an address, it stands in a program or
is below the mark of its kind. -/
def Operand.Accounted (p₀ : Program) (m : ResourceKind → ℕ) (op : Operand) : Prop :=
  ∀ kind x, kind.handle? op = some x → x ∈ p₀.addresses kind ∨ x < m kind

/-- **A resource is accounted for**: its handles are below the mark of its kind, or it
is a single one whose address stands in a program. -/
def Resource.Accounted (p₀ : Program) (m : ResourceKind → ℕ) (r : Resource) : Prop :=
  (∀ x ∈ r.addresses, x < m r.kind) ∨ r.width = 1 ∧ r.handle ∈ p₀.addresses r.kind

theorem Operand.Accounted.mono {op : Operand} (h : op.Accounted p₀ m)
    (hm : ∀ kind, m kind ≤ m' kind) : op.Accounted p₀ m' :=
  fun kind x hx => (h kind x hx).imp_right fun hlt => hlt.trans_le (hm kind)

namespace Resource.Accounted

variable {r e : Resource}

theorem mono (h : r.Accounted p₀ m) (hm : ∀ kind, m kind ≤ m' kind) :
    r.Accounted p₀ m' :=
  h.imp_left fun hlt x hx => (hlt x hx).trans_le (hm r.kind)

/-- An address stands for itself. -/
theorem single {kind : ResourceKind} {x : Handle} (h : (kind.operand x).Accounted p₀ m) :
    (Resource.single kind x).Accounted p₀ m := by
  rcases h kind x (by cases kind <;> rfl) with written | below
  · exact .inr ⟨rfl, written⟩
  · exact .inl fun y hy => Resource.mem_addresses_single.1 hy ▸ below

/-- An element of a block is accounted for with it. -/
theorem element? (h : r.Accounted p₀ m) (hb : r.isBlock) {index : ℕ}
    (he : r.element? index = some e) : e.Accounted p₀ m := by
  obtain ⟨hlt, rfl⟩ := Resource.element?_eq_some_iff.1 he
  rcases h with below | ⟨width, -⟩
  · refine .inl fun x hx => ?_
    obtain rfl := Resource.mem_addresses_single.1 hx
    refine lt_of_le_of_lt (Nat.mod_le _ _) (below _ (Resource.mem_addresses.2 ⟨?_, ?_⟩))
    · exact Nat.le_add_right _ _
    · exact Nat.add_lt_add_left hlt _
  · simp [Resource.isBlock, width] at hb

/-- The operand that addresses a resource is accounted for with it. -/
theorem operand? (h : r.Accounted p₀ m) {op : Operand} (ho : r.operand? = some op) :
    op.Accounted p₀ m := by
  intro kind x hx
  obtain rfl := Resource.eq_single_of_operand? ho hx
  rcases h with below | ⟨-, written⟩
  · exact .inr (below x (Resource.mem_addresses_single.2 rfl))
  · exact .inl written

end Resource.Accounted

namespace Tracker.All

variable {t : Tracker} {r : Resource}

/-- What an operand stands for is accounted for. -/
theorem accounted_of_resolveAs? (h : t.All (Resource.Accounted p₀ m)) {op : Operand}
    (hop : op.Accounted p₀ m) (hr : t.resolveAs? drawn op = some r) :
    r.Accounted p₀ m := by
  obtain ⟨known, -⟩ := Tracker.resolveAs?_eq_some_iff.1 hr
  cases op with
  | value v => exact h v r known
  | qubit x | result x =>
    cases known
    exact .single hop
  | _ => cases known

theorem accounted_of_joinAs? (h : t.All (Resource.Accounted p₀ m)) {ops : List Operand}
    (hops : ∀ op ∈ ops, op.Accounted p₀ m) (hr : t.joinAs? drawn ops = some r) :
    r.Accounted p₀ m := by
  obtain ⟨op, hop, hr⟩ := Tracker.exists_resolveAs?_of_joinAs? hr
  exact h.accounted_of_resolveAs? (hops op hop) hr

end Tracker.All

/-! ## Stocks -/

/-- The marks with that of one kind where a stock has got. -/
def Stock.marks (s : Stock) (drawn : ResourceKind) (m : ResourceKind → ℕ) :
    ResourceKind → ℕ :=
  Function.update m drawn s.pool.highWater

/-- **A stock is accounted for**, from some marks on. -/
structure Stock.Accounted (p₀ : Program) (m : ResourceKind → ℕ) (drawn : ResourceKind)
    (s : Stock) : Prop where
  /-- Only handles that were handed out are free. -/
  issued : s.pool.Issued
  /-- No handle is taken out of those that were handed out. -/
  grown : m drawn ≤ s.pool.highWater
  /-- What values stand for is accounted for. -/
  table : s.tracker.All (Resource.Accounted p₀ (s.marks drawn m))

/-- Marks only move up with what was handed out. -/
theorem Stock.marks_le {s s' : Stock} (h : s.pool.highWater ≤ s'.pool.highWater)
    (kind : ResourceKind) : s.marks drawn m kind ≤ s'.marks drawn m kind := by
  unfold marks
  by_cases hk : kind = drawn
  · subst hk
    simpa using h
  · simp [hk]

namespace Stock.Accounted

variable {s s' : Stock} {v : ValueId} {o : Option Resource}

theorem le_marks (h : s.Accounted p₀ m drawn) (kind : ResourceKind) :
    m kind ≤ s.marks drawn m kind := by
  unfold Stock.marks
  by_cases hk : kind = drawn
  · subst hk
    simpa using h.grown
  · simp [hk]

/-- The marks may be taken from where the stock has got. -/
theorem here (h : s.Accounted p₀ m drawn) :
    s.Accounted p₀ (s.marks drawn m) drawn where
  issued := h.issued
  grown := by simp [Stock.marks]
  table := by
    have same : s.marks drawn (s.marks drawn m) = s.marks drawn m := by
      simp [Stock.marks]
    rw [same]
    exact h.table

/-- Handing out more, with what is bound to it if anything. -/
theorem ofGrown (h : s.Accounted p₀ m drawn) (issued : s'.pool.Issued)
    (grown : s.pool.highWater ≤ s'.pool.highWater)
    (table : ∀ v r, s'.tracker.resolve? v = some r →
      s.tracker.resolve? v = some r ∨ r.Accounted p₀ (s'.marks drawn m)) :
    s'.Accounted p₀ m drawn where
  issued := issued
  grown := h.grown.trans grown
  table v r hr := (table v r hr).elim
    (fun known => (h.table v r known).mono (Stock.marks_le grown)) id

/-- **Handing out is marked in the pool**, even if the table refuses it. -/
theorem keep (h : s.Accounted p₀ m drawn) {width : ℕ} {count : Handle → ℕ}
    {taken : Pool.Reply Handle}
    (ok : ∀ p first, taken = (p, .ok first) → p.Issued ∧ ∀ x, x < p.highWater ↔
      x < s.pool.highWater ∨ x ∈ (Resource.mk drawn first width).addresses)
    (error : ∀ p e, taken = (p, .error e) → p = s.pool) :
    (s.keep drawn (fun h => s.tracker.record v ⟨drawn, h, width⟩ (count h)) taken).1.Accounted
      p₀ m drawn := by
  obtain ⟨p, e | first⟩ := taken
  · obtain rfl := error p e rfl
    exact h
  · obtain ⟨issued, hp⟩ := ok p first rfl
    have grown : s.pool.highWater ≤ p.highWater :=
      le_of_forall_lt fun x hx => (hp x).2 (.inl hx)
    rcases ht : s.tracker.record v ⟨drawn, first, width⟩ (count first) with ⟨t, e | _⟩
    · simp only [Stock.keep, ht]
      refine h.ofGrown issued grown fun u r hr => .inl ?_
      rwa [Tracker.eq_of_record_eq_error ht] at hr
    · simp only [Stock.keep, ht]
      refine h.ofGrown issued grown fun u r hr => ?_
      rw [Tracker.sets_of_record ht u] at hr
      split at hr
      · cases hr
        refine .inr (.inl fun x hx => ?_)
        simpa [Stock.marks] using (hp x).2 (.inr hx)
      · exact .inl hr

theorem acquire (h : s.Accounted p₀ m drawn) :
    (s.acquire drawn v).1.Accounted p₀ m drawn :=
  h.keep (fun _ _ ha => ⟨(Pool.takes_allocate h.issued ha drawn).issued,
    Pool.lt_highWater_allocate h.issued ha⟩) fun _ _ ha => (Pool.allocate_eq_error ha).2.2

theorem acquireBlock (h : s.Accounted p₀ m drawn) (size : ℕ) :
    (s.acquireBlock drawn v size).1.Accounted p₀ m drawn :=
  h.keep (fun _ _ ha => ⟨(Pool.takes_allocateBlock h.issued ha drawn).issued,
    Pool.lt_highWater_allocateBlock ha⟩) fun _ _ ha => (Pool.allocateBlock_eq_error.1 ha).2.2

/-- Deriving binds what was known of others. -/
theorem derive (h : s.Accounted p₀ m drawn)
    (ho : ∀ r, o = some r → r.Accounted p₀ (s.marks drawn m)) :
    (s.derive v o).1.Accounted p₀ m drawn := by
  rcases ht : s.tracker.bind v o with ⟨t, e | _⟩
  · obtain rfl := Tracker.eq_of_bind_eq_error ht
    simp only [Stock.derive, ht]
    exact h
  · simp only [Stock.derive, ht]
    refine h.ofGrown h.issued (Nat.le_refl _) fun u r hr => ?_
    rw [Tracker.sets_of_bind ht u] at hr
    split at hr
    · exact .inr (ho r hr)
    · exact .inl hr

/-- Releasing keeps the marks, even if a handle is refused. -/
theorem release (h : s.Accounted p₀ m drawn) (r : Resource) :
    (s.release r).1.Accounted p₀ m drawn := by
  obtain ⟨issued, hwater⟩ := Pool.issued_releaseBlock h.issued r.handle r.count
  rw [← Stock.pool_release] at issued hwater
  refine h.ofGrown issued hwater.ge fun u r' hr' => .inl ?_
  rwa [Stock.tracker_release] at hr'

end Stock.Accounted

/-! ## Steps -/

/-- A function is accounted for if all its operands are. -/
def Function.Accounted (p₀ : Program) (m : ResourceKind → ℕ) (f : Function) : Prop :=
  ∀ op ∈ f.operands, op.Accounted p₀ m

theorem Function.Accounted.mono {f : Function} (h : f.Accounted p₀ m)
    (hm : ∀ kind, m kind ≤ m' kind) : f.Accounted p₀ m' := fun op hop => (h op hop).mono hm

/-- The operands of a function are those of its instructions and of its
terminators. -/
theorem Function.mem_operands {f : Function} {op : Operand} :
    op ∈ f.operands ↔ (∃ i ∈ f.instructions, op ∈ i.operands) ∨ op ∈ f.exitOperands := by
  simp only [operands, instructions, exitOperands, List.mem_flatMap, List.mem_append]
  grind

theorem Function.Accounted.visited {f : Function} (h : f.Accounted p₀ m)
    {e : Site × Instruction} (he : e ∈ f.visited) {op : Operand} (hop : op ∈ e.2.operands) :
    op.Accounted p₀ m :=
  h op (mem_operands.2 (.inl ⟨e.2, mem_instructions.2 ⟨e.1, mem_visited.1 he⟩, hop⟩))

namespace Lowering

/-- **What every step keeps, deciding keeps**, even where it fails. -/
theorem decideAll_invariant {α : Type} {step : Stock → Instruction → Draw α}
    {P : Stock → Prop} {s : Stock} {l : List (Site × Instruction)} (hs : P s)
    (hstep : ∀ e ∈ l, ∀ s, P s → P (step s e.2).1) : P (decideAll step s l).stock := by
  induction l generalizing s with
  | nil => exact hs
  | cons e l ih =>
    have first := hstep e List.mem_cons_self s hs
    unfold decideAll
    split <;> rename_i hi
    · rw [hi] at first
      exact ih first fun d hd => hstep d (List.mem_cons_of_mem _ hd)
    · rw [hi] at first
      exact first

/-- Where an operand of what the last step makes of a function comes from. -/
theorem Finished.exists_source {resolve : ValueId → Option Operand}
    {change : Site × Instruction → Instruction} {candidates gone : List Site} {f g : Function}
    (h : Finished resolve change candidates f g gone) {op : Operand} (hop : op ∈ g.operands) :
    (∃ v, resolve v = some op) ∨ op ∈ f.exitOperands ∨
      ∃ e ∈ f.located, op ∈ (change e).operands := by
  have substituted : ∀ o, Operand.substitute resolve o = op →
      (∃ v, resolve v = some op) ∨ o = op := by
    rintro o rfl
    unfold Operand.substitute
    cases hv : o.value?.bind resolve with
    | none => exact .inr rfl
    | some op =>
      obtain ⟨v, -, hv⟩ := Option.bind_eq_some_iff.1 hv
      exact .inl ⟨v, hv⟩
  rcases Function.mem_operands.1 hop with ⟨j, hj, hop⟩ | hop
  · obtain ⟨e, he, -, rfl⟩ := h.mem_instructions_iff.1 hj
    rw [Instruction.operands_mapOperands] at hop
    obtain ⟨o, ho, hop⟩ := List.mem_map.1 hop
    rcases substituted o hop with known | rfl
    · exact .inl known
    · exact .inr (.inr ⟨e, he, ho⟩)
  · rw [h.eq, Function.exitOperands_rewrite] at hop
    obtain ⟨o, ho, hop⟩ := List.mem_map.1 hop
    rcases substituted o hop with known | rfl
    · exact .inl known
    · exact .inr (.inl ho)

/-- **Lowering a function keeps the accounts**: of the stock in any case, and of the
function where it does not fail. -/
def KeepsAccounts (p₀ : Program) (drawn : ResourceKind) (lower : Stock → Function → Lowered) :
    Prop :=
  ∀ m s f, s.Accounted p₀ m drawn → f.Accounted p₀ m →
    (lower s f).stock.Accounted p₀ m drawn ∧
      ((lower s f).failure = none →
        (lower s f).function.Accounted p₀ ((lower s f).stock.marks drawn m))

end Lowering

namespace QubitLowering

variable {honored sole : Bool} {s : Stock} {i : Instruction}

/-- The operands that the value of an instruction is derived from. -/
def Role.sources : Role → List Operand
  | project _ (some (array, _)) => [array]
  | copy _ source => [source]
  | phi _ sources => sources
  | _ => []

theorem mem_operands_of_sources {op : Operand} (h : op ∈ (role i).sources) : op ∈ i.operands := by
  obtain ⟨result, ty, operation⟩ := i
  cases operation with
  | call callee args =>
    cases result with
    | some v =>
      simp only [role, valueCallRole] at h
      split at h
      · cases h
      split at h
      · cases h
      split at h
      · rcases args with - | ⟨array, - | ⟨index, rest⟩⟩
        · cases h
        · cases h
        · cases hn : constant? index with
          | none =>
            simp [element?, hn, Role.sources] at h
          | some n =>
            simp only [element?, hn, Option.map_some, Role.sources, List.mem_singleton] at h
            exact h ▸ List.mem_cons_self
      · cases h
    | none =>
      simp only [role, plainCallRole] at h
      split at h
      · cases args <;> cases h
      · cases h
  | _ =>
    cases result with
    | none => cases h
    | some v =>
      simp only [role] at h
      split at h
      · exact h
      · cases h

/-- **A step keeps the accounts**, whatever comes of it. -/
theorem accounted_judge (h : s.Accounted p₀ m .qubit)
    (hi : ∀ op ∈ i.operands, op.Accounted p₀ m) : (judge honored s i).1.Accounted p₀ m .qubit := by
  have sources : ∀ op ∈ (role i).sources, op.Accounted p₀ (s.marks .qubit m) := fun op hop =>
    (hi op (mem_operands_of_sources hop)).mono h.le_marks
  unfold judge
  generalize role i = r at sources
  cases r with
  | acquire v => exact h.acquire
  | acquireArray v size =>
    cases size with
    | some n => exact h.acquireBlock n
    | none => exact h.derive fun _ hr => nomatch hr
  | project v element =>
    refine h.derive fun r hr => ?_
    match element with
    | none => cases hr
    | some (array, index) =>
      obtain ⟨block, hblock, hr⟩ := Option.bind_eq_some_iff.1 hr
      obtain ⟨hblock, hb⟩ := Option.filter_eq_some_iff.1 hblock
      exact (h.table.accounted_of_resolveAs? (sources array List.mem_cons_self) hblock).element?
        hb hr
  | release target =>
    simp only [judgeRole]
    split
    · split
      · exact h.release _
      · exact h
    · exact h
  | copy v source =>
    exact h.derive fun r => h.table.accounted_of_resolveAs? (sources source List.mem_cons_self)
  | phi v ops => exact h.derive fun r => h.table.accounted_of_joinAs? sources
  | other => exact h

/-- **Lowering the qubits of a function keeps the accounts.** -/
theorem keepsAccounts : KeepsAccounts p₀ .qubit (lower sole) := by
  intro m s f hs hf
  have stock : (lower sole s f).stock.Accounted p₀ m .qubit := by
    rw [lower_stock]
    exact decideAll_invariant (P := fun s => s.Accounted p₀ m .qubit) hs fun e he s hs =>
      accounted_judge hs fun op => hf.visited he
  refine ⟨stock, fun hl op hop => ?_⟩
  obtain ⟨ds, gone, -, finished⟩ := exists_lowered hl
  rcases finished.exists_source hop with ⟨v, hv⟩ | hexit | ⟨e, he, hop⟩
  · obtain ⟨r, hr, hv⟩ := Option.bind_eq_some_iff.1 hv
    exact (stock.table v r hr).operand? hv
  · exact (hf op (Function.mem_operands.2 (.inr hexit))).mono stock.le_marks
  · exact (hf.visited (Function.mem_visited.2 he) hop).mono stock.le_marks

end QubitLowering

namespace ResultLowering

variable {s s' : Stock} {i : Instruction}

/-- The operands that the value of an instruction is derived from. -/
def Role.sources : Role → List Operand
  | copy _ source => [source]
  | phi _ sources => sources
  | measure _ _ | other => []

theorem mem_operands_of_sources {op : Operand} (h : op ∈ (role i).sources) : op ∈ i.operands := by
  obtain ⟨result, ty, operation⟩ := i
  unfold role at h
  split at h
  · cases operation with
    | call callee args =>
      rcases args with - | ⟨qubit, - | ⟨next, rest⟩⟩
      · cases h
      · simp only [operationRole] at h
        split at h <;> cases h
      · cases h
    | _ => exact h
  · cases h

/-- **A step keeps the accounts**, whatever comes of it. -/
theorem accounted_judge (h : s.Accounted p₀ m .result)
    (hi : ∀ op ∈ i.operands, op.Accounted p₀ m) : (judge s i).1.Accounted p₀ m .result := by
  have sources : ∀ op ∈ (role i).sources, op.Accounted p₀ (s.marks .result m) := fun op hop =>
    (hi op (mem_operands_of_sources hop)).mono h.le_marks
  unfold judge
  generalize role i = r at sources
  cases r with
  | measure v qubit => exact h.acquire
  | copy v source =>
    exact h.derive fun r => h.table.accounted_of_resolveAs? (sources source List.mem_cons_self)
  | phi v ops => exact h.derive fun r => h.table.accounted_of_joinAs? sources
  | other => exact h

/-- What stands in place of a measurement is accounted for: its qubit was before, and
its result is bound to its value. -/
theorem Judges.accounted_replacement {d : Decision} (h : Judges s i s' d)
    (hs' : s'.Accounted p₀ m .result) (hi : ∀ op ∈ i.operands, op.Accounted p₀ m)
    {j : Instruction} (hj : d.replacement? = some j) {op : Operand} (hop : op ∈ j.operands) :
    op.Accounted p₀ (s'.marks .result m) := by
  cases h with
  | @measure v qubit handle _ hp hset =>
    cases hj
    have hop : op ∈ [qubit, .result handle] := hop
    rcases List.mem_pair.1 hop with rfl | rfl
    · exact (hi op (List.mem_singleton_self _)).mono hs'.le_marks
    · exact (hs'.table v _ hset.self).operand? rfl
  | copy | phi => simp at hj
  | other => cases hj

/-- **All that a run puts in place of measurements is accounted for** at its end. -/
theorem accounted_replacements {l : List (Site × Instruction)} {ds : List (Site × Decision)}
    (h : Decides judge s l ds s') (hs : s.Accounted p₀ m .result)
    (hl : ∀ e ∈ l, ∀ op ∈ e.2.operands, op.Accounted p₀ m) :
    ∀ e ∈ replacements ds, ∀ op ∈ e.2.operands, op.Accounted p₀ (s'.marks .result m) := by
  have keeps : ∀ m s i, s.Accounted p₀ m .result → (∀ op ∈ i.operands, op.Accounted p₀ m) →
      ∀ s' d, judge s i = (s', .ok d) → s'.Accounted p₀ m .result := by
    intro m s i hs hi s' d hstep
    simpa [hstep] using accounted_judge hs hi
  induction h with
  | nil => intro e he; cases he
  | @cons s s₁ s' x i a l ds hstep h ih =>
    have hi := hl (x, i) List.mem_cons_self
    have hl : ∀ e ∈ l, ∀ op ∈ e.2.operands, op.Accounted p₀ m := fun e he =>
      hl e (List.mem_cons_of_mem _ he)
    have hs₁ := keeps m s i hs hi s₁ a hstep
    -- the rest of the run hands out more
    have rest : s'.Accounted p₀ (s₁.marks .result m) .result :=
      h.invariant (P := fun s => s.Accounted p₀ (s₁.marks .result m) .result) hs₁.here
        fun e he s s' d hs hstep =>
          keeps _ s e.2 hs (fun op hop => (hl e he op hop).mono hs₁.le_marks) s' d hstep
    have grown : s₁.pool.highWater ≤ s'.pool.highWater := by
      simpa [Stock.marks] using rest.grown
    intro e he op hop
    obtain ⟨d, hd, he⟩ := List.mem_filterMap.1 he
    rcases List.mem_cons.1 hd with rfl | hd
    · obtain ⟨j, hj, rfl⟩ := Option.map_eq_some_iff.1 he
      exact ((judges_of_judge hstep).accounted_replacement hs₁ hi hj hop).mono
        (Stock.marks_le grown)
    · exact ih hs₁ hl e (List.mem_filterMap.2 ⟨d, hd, he⟩) op hop

/-- **Lowering the results of a function keeps the accounts.** -/
theorem keepsAccounts : KeepsAccounts p₀ .result lower := by
  intro m s f hs hf
  have stock : (lower s f).stock.Accounted p₀ m .result := by
    rw [lower_stock]
    exact decideAll_invariant (P := fun s => s.Accounted p₀ m .result) hs fun e he s hs =>
      accounted_judge hs fun op => hf.visited he
  refine ⟨stock, fun hl op hop => ?_⟩
  obtain ⟨ds, gone, decides, finished⟩ := exists_lowered hl
  rcases finished.exists_source hop with ⟨v, hv⟩ | hexit | ⟨e, he, hop⟩
  · obtain ⟨r, hr, hv⟩ := Option.bind_eq_some_iff.1 hv
    exact (stock.table v r (Option.filter_eq_some_iff.1 hr).1).operand? hv
  · exact (hf op (Function.mem_operands.2 (.inr hexit))).mono stock.le_marks
  · unfold replaced at hop
    cases hr : (replacements ds).lookup e.1 with
    | none =>
      rw [hr] at hop
      exact (hf.visited (Function.mem_visited.2 he) hop).mono stock.le_marks
    | some j =>
      rw [hr] at hop
      obtain ⟨l₁, l₂, heq, -⟩ := List.lookup_eq_some_iff.1 hr
      exact accounted_replacements decides hs (fun e he op => hf.visited he) (e.1, j)
        (by simp [heq]) op hop

end ResultLowering

/-! ## Programs and contexts -/

/-- A program is accounted for if all its functions are. -/
def Program.Accounted (p p₀ : Program) (m : ResourceKind → ℕ) : Prop :=
  ∀ f ∈ p.functions, f.Accounted p₀ m

/-- How far the pools of a context have got. -/
def Context.marks (c : Context) (kind : ResourceKind) : ℕ := (c.pool kind).highWater

/-- **A context is accounted for.** -/
structure Context.Accounted (p₀ : Program) (c : Context) : Prop where
  /-- Only handles that were handed out are free. -/
  issued : ∀ kind, (c.pool kind).Issued
  /-- What values stand for is accounted for. -/
  table : c.tracker.All (Resource.Accounted p₀ c.marks)

variable {p : Program} {c : Context} {lower : Stock → Function → Lowered}

theorem Context.marks_withStock {s : Stock} :
    (c.withStock drawn s).marks = s.marks drawn c.marks := by
  funext kind
  cases drawn <;> cases kind <;> rfl

theorem Context.Accounted.stock (h : c.Accounted p₀) (drawn : ResourceKind) :
    (c.stock drawn).Accounted p₀ c.marks drawn where
  issued := h.issued drawn
  grown := Nat.le_refl _
  table := by
    have same : (c.stock drawn).marks drawn c.marks = c.marks := Function.update_eq_self drawn _
    rw [same]
    exact h.table

theorem Context.Accounted.withStock (h : c.Accounted p₀) {s : Stock}
    (hs : s.Accounted p₀ c.marks drawn) : (c.withStock drawn s).Accounted p₀ where
  issued kind := by
    have rest := h.issued kind
    cases drawn <;> cases kind <;> first | exact hs.issued | exact rest
  table := by
    rw [Context.marks_withStock]
    exact hs.table

namespace Lowering

/-- **Lowering functions one by one keeps the accounts**, up to where it fails and
beyond. -/
theorem KeepsAccounts.sweep (keeps : KeepsAccounts p₀ drawn lower) {s : Stock}
    {fs : List Function} (hs : s.Accounted p₀ m drawn) (hfs : ∀ f ∈ fs, f.Accounted p₀ m) :
    (sweep lower s fs).stock.Accounted p₀ m drawn ∧
      ∀ g ∈ (sweep lower s fs).functions,
        g.Accounted p₀ ((sweep lower s fs).stock.marks drawn m) := by
  induction fs generalizing s m with
  | nil => exact ⟨hs, fun g hg => nomatch hg⟩
  | cons f fs ih =>
    have hf := hfs f List.mem_cons_self
    have rest := fun g hg => hfs g (List.mem_cons_of_mem f hg)
    unfold Lowering.sweep
    split
    · obtain ⟨stock, functions⟩ := ih hs rest
      exact ⟨stock, List.forall_mem_cons.2 ⟨hf.mono stock.le_marks, functions⟩⟩
    · obtain ⟨hs₁, lowered⟩ := keeps m s f hs hf
      cases hl : (lower s f).failure with
      | some e =>
        simp only [hl]
        exact ⟨hs₁, fun g hg => (hfs g hg).mono hs₁.le_marks⟩
      | none =>
        simp only [hl]
        obtain ⟨stock, functions⟩ := ih hs₁ rest
        -- later functions draw on what is left, so the marks of the first are passed
        obtain ⟨later, -⟩ := ih hs₁.here fun g hg => (rest g hg).mono hs₁.le_marks
        have grown : (lower s f).stock.pool.highWater ≤
            (Lowering.sweep lower (lower s f).stock fs).stock.pool.highWater := by
          simpa [Stock.marks] using later.grown
        exact ⟨stock, List.forall_mem_cons.2
          ⟨(lowered hl).mono (Stock.marks_le grown), functions⟩⟩

/-- **Lowering a program keeps the accounts**, even where it fails. -/
theorem KeepsAccounts.run (keeps : KeepsAccounts p₀ drawn lower) (hc : c.Accounted p₀)
    (hp : p.Accounted p₀ c.marks) :
    (run drawn lower p c).context.Accounted p₀ ∧
      (run drawn lower p c).program.Accounted p₀ (run drawn lower p c).context.marks := by
  obtain ⟨stock, functions⟩ := keeps.sweep (hc.stock drawn) hp
  refine ⟨hc.withStock stock, ?_⟩
  rw [Lowering.run, Context.marks_withStock]
  exact functions

end Lowering

/-- A declaration has no operands. -/
theorem Program.Accounted.declare (h : p.Accounted p₀ m) (name : String) (signature : List Ty)
    (returnType : Ty) : (p.declare name signature returnType).Accounted p₀ m := by
  unfold Program.declare
  split
  · exact h
  · intro f hf
    rcases List.mem_append.1 hf with hf | hf
    · exact h f hf
    · obtain rfl := List.mem_singleton.1 hf
      exact fun op hop => nomatch hop

/-! ## Passes -/

/-- **A pass keeps the accounts**, whether it fails or not. -/
def Pass.KeepsAccounts (pass : Pass) : Prop :=
  ∀ (p₀ p : Program) (c : Context), c.Accounted p₀ → p.Accounted p₀ c.marks →
    (pass.run p c).context.Accounted p₀ ∧
      (pass.run p c).program.Accounted p₀ (pass.run p c).context.marks

theorem Pass.keepsAccounts_qubitLowering : Pass.qubitLowering.KeepsAccounts := by
  intro p₀ p c hc hp
  change (QubitLowering.run p c).context.Accounted p₀ ∧
    (QubitLowering.run p c).program.Accounted p₀ (QubitLowering.run p c).context.marks
  rw [QubitLowering.run_context, QubitLowering.run_program]
  exact QubitLowering.keepsAccounts.run hc hp

theorem Pass.keepsAccounts_resultLowering : Pass.resultLowering.KeepsAccounts := by
  intro p₀ p c hc hp
  change (ResultLowering.run p c).context.Accounted p₀ ∧
    (ResultLowering.run p c).program.Accounted p₀ (ResultLowering.run p c).context.marks
  obtain ⟨context, program⟩ := ResultLowering.keepsAccounts.run hc hp
  rw [ResultLowering.run_context]
  rcases ResultLowering.run_program p c with hr | hr
  · exact hr ▸ ⟨context, program⟩
  · exact hr ▸ ⟨context, program.declare _ _ _⟩

theorem Pass.keepsAccounts_requirements : Pass.requirements.KeepsAccounts := by
  intro p₀ p c hc hp
  have same : List.Forall₂ (fun f g => g.operands = f.operands) p.functions
      (Requirements.run p c).program.functions :=
    p.forall₂_updateEntryPoint (R := fun f g => g.operands = f.operands) (fun _ => rfl)
      fun _ => rfl
  refine ⟨hc, fun g hg => ?_⟩
  obtain ⟨f, hf, hfg⟩ := exists_left_of_forall₂ same hg
  intro op hop
  exact hp f hf op (hfg ▸ hop)

theorem Pass.keepsAccounts_verify : Pass.verify.KeepsAccounts := by
  intro p₀ p c hc hp
  unfold Pass.verify
  simp only
  split
  · exact ⟨hc, hp⟩
  · exact ⟨hc, hp⟩

/-- **Every pass of this library keeps the accounts.** -/
theorem Pass.keepsAccounts_of_mem_builtin {pass : Pass} (h : pass ∈ Pass.builtin) :
    pass.KeepsAccounts := by
  simp only [builtin, List.mem_cons, List.not_mem_nil, or_false] at h
  rcases h with rfl | rfl | rfl | rfl | rfl
  · exact keepsAccounts_qubitLowering
  · exact keepsAccounts_resultLowering
  · exact keepsAccounts_requirements
  · exact keepsAccounts_verify
  · exact fun _ _ _ hc hp => ⟨hc, hp⟩

/-! ## Sequences of passes -/

/-- Runs passes one after the other, and goes on after one that fails from where
that got. -/
def Pass.runEach : List Pass → Program → Context → Program × Context
  | [], p, c => (p, c)
  | pass :: passes, p, c => runEach passes (pass.run p c).program (pass.run p c).context

namespace Schedule

/-- What follows a pass in a schedule goes on from what the pass leaves. -/
theorem runEach_runPass (verifyEach : Bool) (hook : Hook) (pass : Pass) (passes : List Pass) :
    Pass.runEach passes (runPass verifyEach hook pass p c).program
        (runPass verifyEach hook pass p c).context =
      Pass.runEach (if pass.shouldRun p c then pass :: passes else passes) p c := by
  simp only [runPass]
  split
  · cases hpass : (pass.run p c).failure <;>
      simp [Outcome.andThen, hpass, finishPass_unchanged, Pass.runEach]
  · rfl

theorem exists_runEach_runAll (verifyEach : Bool) (passes : List (Hook × Pass))
    (start : Outcome) :
    ∃ ran, ran.Sublist (passes.map Prod.snd) ∧
      ((runAll verifyEach passes start).program, (runAll verifyEach passes start).context) =
        Pass.runEach ran start.program start.context := by
  induction passes generalizing start with
  | nil => exact ⟨[], .slnil, rfl⟩
  | cons x passes ih =>
    cases hstart : start.failure with
    | some e =>
      rw [runAll_of_failure hstart]
      exact ⟨[], List.nil_sublist _, rfl⟩
    | none =>
      obtain ⟨ran, hsub, hran⟩ := ih (start.andThen (runPass verifyEach x.1 x.2))
      rw [Outcome.program_andThen hstart, Outcome.context_andThen hstart, runEach_runPass] at hran
      refine ⟨_, ?_, hran⟩
      split
      · exact hsub.cons_cons x.2
      · exact hsub.cons x.2

/-- **A schedule runs some of its passes**, those that find something to do, up to
where it stops. -/
theorem exists_runEach (s : Schedule) (p : Program) (c : Context) :
    ∃ ran, ran.Sublist (s.pipeline.map Prod.snd) ∧
      ((s.run p c).program, (s.run p c).context) = Pass.runEach ran p c := by
  obtain ⟨ran, hsub, hran⟩ := exists_runEach_runAll s.verifyEach s.pipeline
    ⟨p, c, none, [s.opening p]⟩
  refine ⟨ran, hsub, hran ▸ ?_⟩
  unfold run Outcome.andThen
  split <;> rfl

end Schedule

/-- **What every pass keeps, a sequence of them keeps.** -/
theorem Pass.keepsAccounts_runEach {passes : List Pass}
    (keeps : ∀ pass ∈ passes, pass.KeepsAccounts) (hc : c.Accounted p₀)
    (hp : p.Accounted p₀ c.marks) :
    (runEach passes p c).2.Accounted p₀ ∧
      (runEach passes p c).1.Accounted p₀ (runEach passes p c).2.marks := by
  induction passes generalizing p c with
  | nil => exact ⟨hc, hp⟩
  | cons pass passes ih =>
    obtain ⟨hc₁, hp₁⟩ := keeps pass List.mem_cons_self p₀ p c hc hp
    exact ih (fun pass h => keeps pass (List.mem_cons_of_mem _ h)) hc₁ hp₁

/-- An address of a program is that of an operand in a definition. -/
theorem Program.mem_addresses {kind : ResourceKind} {x : Handle} :
    x ∈ p.addresses kind ↔
      ∃ f ∈ p.definitions, ∃ op ∈ f.operands, kind.handle? op = some x := by
  simp only [addresses, List.mem_flatMap, List.mem_filterMap]

/-- A program accounts for its own addresses. -/
theorem Program.accounted_self (p : Program) (m : ResourceKind → ℕ) : p.Accounted p m := by
  intro f hf op hop kind x hx
  refine .inl (mem_addresses.2 ⟨f, mem_definitions.2 ⟨hf, fun hd => ?_⟩, op, hop, hx⟩)
  have hblocks : f.blocks = [] := by simpa [Function.isDeclaration] using hd
  simp [Function.operands, hblocks] at hop

/-- Before any pass nothing is to be accounted for. -/
theorem Context.accounted_of_fresh
    (fresh : ∀ kind, ∃ policy capacity, c.pool kind = .fresh policy capacity)
    (empty : c.tracker = .empty) : c.Accounted p₀ where
  issued kind := by
    obtain ⟨policy, capacity, hpool⟩ := fresh kind
    rw [hpool]
    exact (Pool.Reachable.fresh policy capacity).issued
  table v r hr := by
    rw [empty] at hr
    cases hr

end

/-- **Passes account for every address**, whatever the program, the order and number of
passes and the policies of the pools, and whichever of the passes fail. What a value
is known to stand for was handed out by the pool of its kind, or it is a single
address that stood in the program at the beginning. So it is with all addresses
that stand in the program at the end. -/
theorem Pass.accounted_runEach {passes : List Pass} (builtin : ∀ pass ∈ passes, pass ∈ builtin)
    (p : Program) {c : Context}
    (fresh : ∀ kind, ∃ policy capacity, c.pool kind = .fresh policy capacity)
    (empty : c.tracker = .empty) :
    (∀ v r, (runEach passes p c).2.tracker.resolve? v = some r →
        (∀ x ∈ r.addresses, x < ((runEach passes p c).2.pool r.kind).highWater) ∨
          r.width = 1 ∧ r.handle ∈ p.addresses r.kind) ∧
      ∀ kind, ∀ x ∈ (runEach passes p c).1.addresses kind,
        x ∈ p.addresses kind ∨ x < ((runEach passes p c).2.pool kind).highWater := by
  obtain ⟨context, program⟩ := keepsAccounts_runEach
    (fun pass h => keepsAccounts_of_mem_builtin (builtin pass h))
    (Context.accounted_of_fresh fresh empty) (p.accounted_self c.marks)
  refine ⟨context.table, fun kind x hx => ?_⟩
  obtain ⟨f, hf, op, hop, hx⟩ := Program.mem_addresses.1 hx
  exact program f (Program.mem_definitions.1 hf).1 op hop kind x hx

/-! ## A program that fails -/

/-- A function that acquires the same value as the one before. -/
def mixedAgain : Function := { mixedMain with name := "again" }

/-- The program of both. It is not well formed. -/
def repeated : Program where
  name := "repeated"
  functions := [mixedMain, mixedAgain]
  flags := .empty
  nextValue := 1

/-- Verification fails, and so does lowering qubits once the second acquisition has
been handed an address, for which no value stands. -/
theorem Pass.accounted_runEach_repeated :
    (verify.run repeated .default).failure.isSome ∧
      (qubitLowering.run repeated .default).failure.isSome ∧
      (runEach [verify, qubitLowering] repeated .default).2.qubits.highWater = 2 ∧
      (∀ v r, (runEach [verify, qubitLowering] repeated .default).2.tracker.resolve? v = some r →
        (∀ x ∈ r.addresses,
          x < ((runEach [verify, qubitLowering] repeated .default).2.pool r.kind).highWater) ∨
          r.width = 1 ∧ r.handle ∈ repeated.addresses r.kind) ∧
      ∀ kind, ∀ x ∈ (runEach [verify, qubitLowering] repeated .default).1.addresses kind,
        x ∈ repeated.addresses kind ∨
          x < ((runEach [verify, qubitLowering] repeated .default).2.pool kind).highWater := by
  have builtin : ∀ pass ∈ [verify, qubitLowering], pass ∈ builtin := by
    simp [Pass.builtin]
  have fresh : ∀ kind, ∃ policy capacity, Context.default.pool kind = .fresh policy capacity := by
    intro kind
    cases kind <;> exact ⟨.noReuse, none, rfl⟩
  exact ⟨by decide, by decide, rfl, accounted_runEach builtin repeated fresh rfl⟩

end QuantumLowering
