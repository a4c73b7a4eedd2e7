import QuantumLowering.Proofs.Custody.Ranges
/-!
# The table tells who holds what

Where releases count, a handle may be handed out again, so what keeps
qubits apart is an invariant between the table, the pool and the custody
of qubits along the walk (`Custody.Tracked`): what the table knows of a
value is right, and the qubits held have live handles that differ. A qubit
released twice would break it, since its handle may be another qubit's by
then.
-/


namespace QuantumLowering

/-- The handle of a qubit, by the table. -/
def Tracker.qubitHandle? (t : Tracker) (q : Qubit) : Option Handle :=
  (t.resolve? q.value).bind fun r => (r.element? q.index).map Resource.handle

theorem Tracker.qubitHandle?_of_lt {t : Tracker} {q : Qubit} {r : Resource}
    (known : t.resolve? q.value = some r) (fits : r.Fits) (hlt : q.index < r.width) :
    t.qubitHandle? q = some (r.handle + q.index) := by
  simp [qubitHandle?, known, fits.element? hlt, Resource.single]

/-- A qubit that was acquired alone has the handle of its value. -/
theorem Tracker.qubitHandle?_of_single {t : Tracker} {v : ValueId} {x : Handle}
    (known : t.resolve? v = some (.single .qubit x)) (fits : (Resource.single .qubit x).Fits) :
    t.qubitHandle? ⟨v, 0⟩ = some x := by
  rw [qubitHandle?_of_lt known fits Nat.zero_lt_one]
  rfl

/-- **The qubits held are apart**, by a table, and were not live in a pool. -/
structure Custody.Apart (c : Custody) (t : Tracker) (initial : Pool) : Prop where
  /-- They have handles that were not live. -/
  new : ∀ q ∈ c.held, ∃ x, t.qubitHandle? q = some x ∧ ¬ initial.Live x
  /-- They have different handles. -/
  apart : (c.held.map t.qubitHandle?).Nodup

/-- What a value stands for has the handles of a resource, by the table. The
resource fits. -/
def Holding.Names (t : Tracker) (h : Holding) (r : Resource) : Prop :=
  r.Fits ∧
    match h with
    | .nothing => False
    | .qubit q => ∃ x, t.qubitHandle? q = some x ∧ r = .single .qubit x
    | .array v size => t.resolve? v = some r ∧ r = .block .qubit r.handle size

namespace Holding.Names

variable {t : Tracker} {h : Holding} {r : Resource}

theorem fits (hn : h.Names t r) : r.Fits := hn.1

/-- The qubits have the handles of the resource, one by one. -/
theorem map_qubitHandle? (hn : h.Names t r) :
    h.qubits.map t.qubitHandle? = r.addresses.map some := by
  obtain ⟨fits, hn⟩ := hn
  cases h with
  | nothing => exact hn.elim
  | qubit q =>
    obtain ⟨x, hx, rfl⟩ := hn
    simp [qubits, hx, Resource.addresses, Resource.single]
  | array v size =>
    obtain ⟨hv, hr⟩ := hn
    have hw : r.width = size := congrArg Resource.width hr
    rw [Resource.addresses, hw, List.range'_eq_map_range, qubits, List.map_map, List.map_map]
    refine List.map_congr_left fun k hk => ?_
    have hk : k < r.width := hw ▸ List.mem_range.1 hk
    exact Tracker.qubitHandle?_of_lt hv fits hk

/-- The qubits have different handles. -/
theorem nodup_qubitHandle? (hn : h.Names t r) : (h.qubits.map t.qubitHandle?).Nodup := by
  rw [hn.map_qubitHandle?]
  exact List.Nodup.map (Option.some_injective _) List.nodup_range'

theorem exists_handle (hn : h.Names t r) {q : Qubit} (hq : q ∈ h.qubits) :
    ∃ x ∈ r.addresses, t.qubitHandle? q = some x := by
  have hmem : t.qubitHandle? q ∈ r.addresses.map some := by
    rw [← hn.map_qubitHandle?]
    exact List.mem_map_of_mem hq
  obtain ⟨x, hx, hxq⟩ := List.mem_map.1 hmem
  exact ⟨x, hx, hxq.symm⟩

theorem exists_qubit (hn : h.Names t r) {x : Handle} (hx : x ∈ r.addresses) :
    ∃ q ∈ h.qubits, t.qubitHandle? q = some x := by
  have hmem : some x ∈ h.qubits.map t.qubitHandle? := by
    rw [hn.map_qubitHandle?]
    exact List.mem_map_of_mem hx
  exact List.mem_map.1 hmem

/-- An element of a block is the qubit at that index. -/
theorem element (hn : h.Names t r) (hb : r.isBlock) {index : ℕ} {e : Resource}
    (he : r.element? index = some e) : (h.element index).Names t e := by
  obtain ⟨hlt, -⟩ := Resource.element?_eq_some_iff.1 he
  obtain ⟨fits, hn⟩ := hn
  obtain rfl := Option.some.inj ((fits.element? hlt).symm.trans he)
  cases h with
  | nothing => exact hn.elim
  | qubit q =>
    obtain ⟨x, hx, rfl⟩ := hn
    simp [Resource.isBlock, Resource.single] at hb
  | array v size =>
    obtain ⟨hv, hr⟩ := hn
    have hw : r.width = size := congrArg Resource.width hr
    have hk : r.kind = .qubit := congrArg Resource.kind hr
    rw [Holding.element, if_pos (hw ▸ hlt)]
    exact ⟨fits.single hlt, r.handle + index, Tracker.qubitHandle?_of_lt hv fits hlt, by rw [hk]⟩

end Holding.Names

namespace Custody

variable {t : Tracker} {initial : Pool} {s s' : Stock} {c : Custody}

/-- **The table tells who holds what**, given the table in the end and the pool
before lowering. -/
structure Tracked (t : Tracker) (initial : Pool) (s : Stock) (c : Custody) : Prop where
  /-- The pool is sound. -/
  sound : s.pool.Sound
  /-- Values stand for qubits that were acquired. -/
  acquired : ∀ v, ∀ q ∈ (c.holdings v).qubits, q ∈ c.acquired
  /-- What the table knows of values is right. -/
  known : ∀ v r, s.tracker.resolve? v = some r → (c.holdings v).Names t r
  /-- What was live before is live. -/
  before : ∀ x, initial.Live x → s.pool.Live x
  /-- The qubits held have handles that are live and were not live before. -/
  live : ∀ q ∈ c.held, ∃ x, t.qubitHandle? q = some x ∧ s.pool.Live x ∧ ¬ initial.Live x
  /-- They have different handles. -/
  apart : (c.held.map t.qubitHandle?).Nodup

namespace Tracked

/-- What the table knows of operands is right, but for addresses. -/
theorem names (h : Tracked t initial s c) {op : Operand} (hop : ∀ x, op ≠ .qubit x)
    {r : Resource} (hr : s.tracker.resolveAs? .qubit op = some r) : (c.holding op).Names t r := by
  obtain ⟨hr, hk⟩ := Tracker.resolveAs?_eq_some_iff.1 hr
  cases op with
  | value v => exact h.known v r hr
  | qubit x => exact absurd rfl (hop x)
  | result x =>
    cases hr
    cases hk
  | _ => cases hr

theorem acquired_holding (h : Tracked t initial s c) (op : Operand) :
    ∀ q ∈ (c.holding op).qubits, q ∈ c.acquired :=
  Covered.holding h.acquired op

/-- A value may stand for qubits that were acquired before. -/
theorem set (h : Tracked t initial s c) {v : ValueId} {held : Holding} {o : Option Resource}
    (hpool : s'.pool = s.pool) (hset : s.tracker.Sets s'.tracker v o)
    (hacq : ∀ q ∈ held.qubits, q ∈ c.acquired) (hnames : ∀ r, o = some r → held.Names t r) :
    Tracked t initial s' (c.set v held) where
  sound := hpool ▸ h.sound
  acquired := Covered.set h.acquired hacq
  known u r hr := by
    by_cases huv : u = v
    · subst huv
      rw [set_self]
      exact hnames r (hset.self.symm.trans hr)
    · rw [set_other huv]
      exact h.known u r ((hset.other huv).symm.trans hr)
  before x hx := hpool ▸ h.before x hx
  live q hq := hpool ▸ h.live q hq
  apart := h.apart

/-- A value acquires qubits with handles that were not live. -/
theorem acquire (h : Tracked t initial s c) {v : ValueId} {held : Holding} {r : Resource}
    (takes : s.pool.Takes r s'.pool) (sound : s'.pool.Sound)
    (hset : s.tracker.Sets s'.tracker v (some r)) (hnames : held.Names t r) : Tracked t initial s' (c.acquire v held) := by
  have hheld : (c.acquire v held).held =
      c.held ++ held.qubits.filter fun q => q ∉ c.released := List.filter_append ..
  have handle : ∀ q ∈ held.qubits.filter (fun q => q ∉ c.released),
      ∃ x ∈ r.addresses, t.qubitHandle? q = some x := fun q hq =>
    hnames.exists_handle (List.mem_filter.1 hq).1
  refine ⟨sound, Covered.acquire h.acquired v held, fun u r' hr => ?_, fun x hx => ?_,
    fun q hq => ?_, ?_⟩
  · by_cases huv : u = v
    · subst huv
      obtain rfl := Option.some.inj (hset.self.symm.trans hr)
      simpa [Custody.acquire] using hnames
    · have := h.known u r' ((hset.other huv).symm.trans hr)
      simpa [Custody.acquire, set_other huv] using this
  · exact (takes.live x).2 (.inl (h.before x hx))
  · rw [hheld] at hq
    rcases List.mem_append.1 hq with hq | hq
    · obtain ⟨x, hx, hlive, hnew⟩ := h.live q hq
      exact ⟨x, hx, (takes.live x).2 (.inl hlive), hnew⟩
    · obtain ⟨x, hx, hxq⟩ := handle q hq
      exact ⟨x, hxq, (takes.live x).2 (.inr hx), fun hb => takes.new x hx (h.before x hb)⟩
  · rw [hheld, List.map_append, List.nodup_append]
    refine ⟨h.apart, hnames.nodup_qubitHandle?.sublist (List.filter_sublist.map _), ?_⟩
    -- a handle that is held is live, and the new ones were not
    intro o ho o' ho' heq
    obtain ⟨q, hq, rfl⟩ := List.mem_map.1 ho
    obtain ⟨q', hq', rfl⟩ := List.mem_map.1 ho'
    obtain ⟨x, hx, hlive, -⟩ := h.live q hq
    obtain ⟨x', hx', hxq'⟩ := handle q' hq'
    rw [hx, hxq'] at heq
    exact takes.new x' hx' (Option.some.inj heq ▸ hlive)

/-- The qubits that are released now were held. -/
theorem held_of_release (h : Tracked t initial s c) {target : Operand}
    (once : (c.release target).released.Nodup) :
    ∀ q ∈ (c.holding target).qubits, q ∈ c.held := by
  intro q hq
  refine List.mem_filter.2 ⟨h.acquired_holding target q hq, ?_⟩
  have := (List.nodup_append.1 once).2.2
  simpa using fun hr => this q hr q hq rfl

/-- What is still held after a release. -/
theorem mem_held_release {target : Operand} {q : Qubit} :
    q ∈ (c.release target).held ↔ q ∈ c.held ∧ q ∉ (c.holding target).qubits := by
  simp [held, Custody.release, and_assoc]

theorem held_release_sublist (c : Custody) (target : Operand) :
    (c.release target).held.Sublist c.held := by
  have : (c.release target).held = c.held.filter fun q => q ∉ (c.holding target).qubits := by
    simp [held, Custody.release, List.filter_filter, Bool.and_comm]
  rw [this]
  exact List.filter_sublist

/-- Qubits that are released give their handles back. -/
theorem release (h : Tracked t initial s c) {target : Operand} {r : Resource}
    (hnames : (c.holding target).Names t r) (returns : s.pool.Returns r.addresses s'.pool)
    (sound : s'.pool.Sound) (htracker : s'.tracker = s.tracker) (once : (c.release target).released.Nodup) :
    Tracked t initial s' (c.release target) := by
  -- a handle that goes back is that of a qubit held, and of no other one
  have back : ∀ x ∈ r.addresses, ∃ q ∈ (c.holding target).qubits, q ∈ c.held ∧
      t.qubitHandle? q = some x := by
    intro x hx
    obtain ⟨q, hq, hqx⟩ := hnames.exists_qubit hx
    exact ⟨q, hq, h.held_of_release once q hq, hqx⟩
  refine ⟨sound, h.acquired, fun v r hr => ?_, fun x hx => ?_, fun q hq => ?_, ?_⟩
  · exact h.known v r (htracker ▸ hr)
  · refine (returns.live x).2 ⟨h.before x hx, fun hxr => ?_⟩
    obtain ⟨q, -, hheld, hqx⟩ := back x hxr
    obtain ⟨x', hx', -, hnew⟩ := h.live q hheld
    obtain rfl := Option.some.inj (hqx.symm.trans hx')
    exact hnew hx
  · obtain ⟨hheld, hother⟩ := mem_held_release.1 hq
    obtain ⟨x, hx, hlive, hnew⟩ := h.live q hheld
    refine ⟨x, hx, (returns.live x).2 ⟨hlive, fun hxr => ?_⟩, hnew⟩
    obtain ⟨q', hq', hheld', hqx'⟩ := back x hxr
    obtain rfl := List.inj_on_of_nodup_map h.apart hheld hheld' (hx.trans hqx'.symm)
    exact hother hq'
  · exact h.apart.sublist ((held_release_sublist c target).map _)

/-- Qubits may be released that the table does not know. -/
theorem release_unknown (h : Tracked t initial s c) (target : Operand) :
    Tracked t initial s (c.release target) :=
  ⟨h.sound, h.acquired, h.known, h.before, fun q hq => h.live q (mem_held_release.1 hq).1,
    h.apart.sublist ((held_release_sublist c target).map _)⟩

/-- Values derived from others stand for qubits that were acquired. -/
theorem acquired_derived (h : Tracked t initial s c) (source : Option BlockId) (o : Operation) :
    ∀ q ∈ (c.derived source o).qubits, q ∈ c.acquired :=
  Covered.derived h.acquired source o

/-- The array whose element is named is an argument. -/
theorem mem_of_element? {args : List Operand} {array : Operand} {index : ℕ}
    (h : QubitLowering.element? args = some (array, index)) : array ∈ args := by
  cases args with
  | nil => cases h
  | cons a args =>
    cases args with
    | nil => cases h
    | cons b args =>
      obtain ⟨k, -, hk⟩ := Option.map_eq_some_iff.1 h
      cases hk
      exact List.mem_cons_self

/-- The table knows the qubit that an element of an array stands for. -/
theorem names_element (h : Tracked t initial s c) {args : List Operand}
    (static : ∀ o ∈ args, ∀ x, o ≠ .qubit x) {r : Resource}
    (hr : QubitLowering.elementOf? s.tracker (QubitLowering.element? args) = some r)
    (source : Option BlockId) :
    (c.derived source (.call Intrinsics.arrayElement args)).Names t r := by
  simp only [derived, if_true]
  cases he : QubitLowering.element? args with
  | none =>
    rw [he] at hr
    cases hr
  | some e =>
    obtain ⟨array, index⟩ := e
    simp only [he, QubitLowering.elementOf?, Option.bind_eq_some_iff,
      Option.filter_eq_some_iff] at hr
    obtain ⟨block, ⟨hblock, hb⟩, hr⟩ := hr
    exact (h.names (static array (mem_of_element? he)) hblock).element hb hr

theorem exists_lookup_of_mem {incoming : List (BlockId × Operand)} {b : BlockId}
    (hb : b ∈ incoming.map Prod.fst) : ∃ o, incoming.lookup b = some o := by
  cases ho : incoming.lookup b with
  | some o => exact ⟨o, rfl⟩
  | none =>
    obtain ⟨e, he, rfl⟩ := List.mem_map.1 hb
    simpa using List.lookup_eq_none_iff.1 ho e he

theorem acquires?_of_other {i : Instruction} (h : QubitLowering.role i = .other) :
    i.acquires? = none := by
  refine Option.eq_none_iff_forall_ne_some.2 fun a ha => ?_
  obtain ⟨v, held⟩ := a
  rcases Instruction.acquires?_eq_some ha with ⟨_, _, rfl, -⟩ | ⟨_, _, _, rfl, -⟩ <;> cases h

theorem releases?_of_other {i : Instruction} (h : QubitLowering.role i = .other) :
    i.releases? = none := by
  obtain ⟨result, ty, operation⟩ := i
  cases operation with
  | call callee args =>
    cases result with
    | some v => cases args <;> rfl
    | none =>
      cases args with
      | nil => rfl
      | cons target args =>
        by_cases hc : callee = Intrinsics.releaseQubit ∨ callee = Intrinsics.releaseArray
        · simp [QubitLowering.role, QubitLowering.plainCallRole, hc] at h
        · simp [Instruction.releases?, hc]
  | _ => rfl

/-- **What a step of lowering leaves tells who holds what after the
instruction.** -/
theorem step (h : Tracked t initial s c) {i : Instruction} {d : QubitLowering.Decision}
    (hj : QubitLowering.Judges true s i s' d) (static : ∀ o ∈ i.operands, ∀ x, o ≠ .qubit x)
    (new : ∀ v, i.result = some v → s.tracker.resolve? v = none)
    (agrees : ∀ v, i.result = some v → t.resolve? v = s'.tracker.resolve? v)
    {source : Option BlockId}
    (lists : ∀ incoming, i.operation = .phi incoming →
      ∃ b, source = some b ∧ b ∈ incoming.map Prod.fst)
    (once : (c.step source i).released.Nodup) : Tracked t initial s' (c.step source i) := by
  have sound := hj.sound h.sound
  cases hj with
  | @acquire v ty args x _ hp hset =>
    rw [step_of_acquires Instruction.acquires?_acquireQubit]
    have fits := Pool.fits_of_allocate h.sound .qubit hp
    exact h.acquire (Pool.takes_allocate h.sound.issued hp .qubit) sound hset
      ⟨fits, x, Tracker.qubitHandle?_of_single ((agrees v rfl).trans hset.self) fits, rfl⟩
  | @acquireArray v ty args size base _ hsize hp hset =>
    rw [step_of_acquires (by rw [Instruction.acquires?_acquireArray, hsize]; rfl)]
    exact h.acquire (Pool.takes_allocateBlock h.sound.issued hp .qubit) sound hset
      ⟨Pool.fits_of_allocateBlock .qubit hp, (agrees v rfl).trans hset.self, rfl⟩
  | @unsized v ty args _ hsize hp hset =>
    rw [step_of_result (by simp [hsize]) Instruction.releases?_of_result_some rfl]
    exact h.set hp hset (h.acquired_derived source _) fun r hr => by cases hr
  | @project v ty args _ hp hset =>
    rw [step_of_result Instruction.acquires?_arrayElement Instruction.releases?_of_result_some rfl]
    exact h.set hp hset (h.acquired_derived source _)
      fun r hr => h.names_element static hr source
  | @release ty callee target args r _ hc hr htracker hp _ =>
    rw [step_of_releases Instruction.acquires?_of_result_none (Instruction.releases?_call hc)]
      at once ⊢
    have names := h.names (static target List.mem_cons_self) hr
    have returns : s.pool.Returns r.handles s'.pool :=
      Pool.returns_releaseBlock h.sound.issued (hp rfl)
    rw [names.fits.handles] at returns
    exact h.release names returns sound htracker once
  | @unresolved ty callee target args hc _ =>
    rw [step_of_releases Instruction.acquires?_of_result_none (Instruction.releases?_call hc)]
    exact h.release_unknown target
  | @copy v ty o _ _ hp hset =>
    exact h.set hp hset (h.acquired_derived source (.copy o)) fun r hr =>
      h.names (static o (List.mem_singleton_self o)) hr
  | @phi v ty incoming _ _ hp hset =>
    refine h.set hp hset (h.acquired_derived source (.phi incoming)) fun r hr => ?_
    -- the phi takes one of its operands, and the table knows what all of them stand for
    obtain ⟨b, rfl, hb⟩ := lists incoming rfl
    obtain ⟨o, ho⟩ := exists_lookup_of_mem hb
    have hmem : o ∈ incoming.map Prod.snd := List.mem_map_of_mem (Execution.mem_of_lookup ho)
    simp only [derived, Option.bind_some, ho]
    exact h.names (static o hmem) ((Tracker.joinAs?_eq_some_iff.1 hr).2 o hmem)
  | other hrole =>
    have hacquires := acquires?_of_other hrole
    have hreleases := releases?_of_other hrole
    cases hresult : i.result with
    | none => rwa [step_of_result_none hacquires hreleases hresult]
    | some v =>
      rw [step_of_result hacquires hreleases hresult]
      exact h.set rfl (Tracker.sets_none (new v hresult)) (h.acquired_derived source _)
        fun r hr => by cases hr

/-- **The table tells who holds what all along**: when lowering has visited the
instructions, and they were executed. -/
theorem run_all {ds : List (Site × QubitLowering.Decision)}
    {l : List (Option BlockId × (Site × Instruction))}
    (decides : Lowering.Decides (QubitLowering.judge true) s (l.map Prod.snd) ds s')
    (nodup : ((l.map Prod.snd).filterMap fun e => e.2.result).Nodup)
    (new : ∀ e ∈ l.map Prod.snd, ∀ v, e.2.result = some v → s.tracker.resolve? v = none)
    (agrees : ∀ e ∈ l.map Prod.snd, ∀ v, e.2.result = some v →
      t.resolve? v = s'.tracker.resolve? v)
    (static : ∀ e ∈ l.map Prod.snd, ∀ o ∈ e.2.operands, ∀ x, o ≠ .qubit x)
    (lists : ∀ e ∈ l, ∀ incoming, e.2.2.operation = .phi incoming →
      ∃ b, e.1 = some b ∧ b ∈ incoming.map Prod.fst)
    (once : (c.run l).released.Nodup) (h : Tracked t initial s c) :
    Tracked t initial s' (c.run l) := by
  induction l generalizing s c ds with
  | nil =>
    cases decides
    exact h
  | cons e l ih =>
    obtain ⟨source, x, i⟩ := e
    rw [List.map_cons] at decides nodup new agrees static
    cases decides with
    | @cons _ s₁ _ _ _ d _ _ hs decides =>
      -- no later instruction computes the value, so the table has it from here to the end
      have later : ∀ v, i.result = some v → ∀ e ∈ l.map Prod.snd, e.2.result ≠ some v := by
        intro v hv
        have hmem : (x, i) ∈ [(x, i)] := List.mem_singleton_self _
        exact Lowering.Decides.result_ne_of_nodup nodup hmem hv
      have once' : (c.step source i).released.Nodup :=
        once.sublist ((c.step source i).released_prefix_run l).sublist
      refine ih decides ?_ (fun e he v hv => ?_)
        (fun e he => agrees e (List.mem_cons_of_mem _ he))
        (fun e he => static e (List.mem_cons_of_mem _ he))
        (fun e he => lists e (List.mem_cons_of_mem _ he)) once
        (h.step (QubitLowering.judges_of_judge hs) (static _ List.mem_cons_self)
          (new _ List.mem_cons_self) (fun v hv => ?_) (lists _ List.mem_cons_self) once')
      · exact nodup.sublist ((List.sublist_cons_self _ _).filterMap _)
      · rw [← new e (List.mem_cons_of_mem _ he) v hv]
        exact QubitLowering.frames_judge _ _ _ _ hs v fun hi => later v hi e he hv
      · rw [agrees (x, i) List.mem_cons_self v hv]
        exact decides.frame QubitLowering.frames_judge (later v hv)

/-- The same after any of the instructions that lowering visits first. -/
theorem run {rest : List (Site × Instruction)} {ds : List (Site × QubitLowering.Decision)}
    {l : List (Option BlockId × (Site × Instruction))}
    (decides : Lowering.Decides (QubitLowering.judge true) s rest ds s')
    (hl : l.map Prod.snd <+: rest) (nodup : (rest.filterMap fun e => e.2.result).Nodup)
    (new : ∀ e ∈ rest, ∀ v, e.2.result = some v → s.tracker.resolve? v = none)
    (agrees : ∀ e ∈ rest, ∀ v, e.2.result = some v →
      t.resolve? v = s'.tracker.resolve? v)
    (static : ∀ e ∈ rest, ∀ o ∈ e.2.operands, ∀ x, o ≠ .qubit x)
    (lists : ∀ e ∈ l, ∀ incoming, e.2.2.operation = .phi incoming →
      ∃ b, e.1 = some b ∧ b ∈ incoming.map Prod.fst)
    (once : (c.run l).released.Nodup) (h : Tracked t initial s c) :
    ∃ s₁, Tracked t initial s₁ (c.run l) := by
  obtain ⟨tail, rfl⟩ := hl
  obtain ⟨ds₁, ds₂, s₁, -, decides₁, decides₂⟩ := decides.exists_append
  refine ⟨s₁, h.run_all decides₁ (nodup.sublist ((List.sublist_append_left _ _).filterMap _))
    (fun e he => new e (List.mem_append_left _ he)) (fun e he v hv => ?_)
    (fun e he => static e (List.mem_append_left _ he)) lists once⟩
  rw [agrees e (List.mem_append_left _ he) v hv]
  exact decides₂.frame QubitLowering.frames_judge
    (Lowering.Decides.result_ne_of_nodup nodup he hv)

/-- Nothing is held in the beginning. -/
theorem start (sound : s.pool.Sound) (new : ∀ v, s.tracker.resolve? v = none) :
    Tracked t s.pool s Custody.start where
  sound := sound
  acquired _ q hq := by cases hq
  known v r hr := by
    rw [new v] at hr
    cases hr
  before _ hx := hx
  live q hq := by cases hq
  apart := .nil

theorem apart_held (h : Tracked t initial s c) : c.Apart t initial := by
  refine ⟨fun q hq => ?_, h.apart⟩
  obtain ⟨x, hx, -, hnew⟩ := h.live q hq
  exact ⟨x, hx, hnew⟩

end Tracked

end Custody

end QuantumLowering
