import QuantumLowering.Proofs.Custody.Reuse
import QuantumLowering.Proofs.Demand.Steps
/-!
# Qubits that are released twice

Where releases count, the pool refuses to take a free handle back. It
knows handles but not the qubits that they were handed out for, so a
second release of a qubit is refused as long as no other qubit has the
handle by then (`QubitLowering.second_release_refused`). If one has, the
release is taken for one of that qubit (`QubitLowering.releasedTwice`).
-/


namespace QuantumLowering

open Lowering

/-! ## Free handles -/

namespace Pool

variable {p p' : Pool} {x : Handle}

/-- Handles that are taken back were not free and are free then; those that
were free stay so. -/
theorem free_of_releaseBlock {base : Handle} {size : ℕ}
    (h : p.releaseBlock base size = (p', .ok ())) :
    (∀ x ∈ List.range' base size, x ∉ p.free ∧ x ∈ p'.free) ∧ ∀ x ∈ p.free, x ∈ p'.free := by
  induction size generalizing p base with
  | zero =>
    cases h
    exact ⟨fun x hx => by simp at hx, fun x hx => hx⟩
  | succ size ih =>
    unfold releaseBlock at h
    split at h
    · rename_i q hq
      obtain ⟨-, hfree, -, rfl⟩ := release_eq_ok.1 hq
      obtain ⟨back, kept⟩ := ih h
      have inserted : ∀ y, y = base ∨ y ∈ p.free → y ∈ p.free.insert base := by
        intro y hy
        rw [Std.TreeSet.mem_insert, Handle.order_eq_iff]
        exact hy.imp_left Eq.symm
      refine ⟨fun x hx => ?_, fun x hx => kept x (inserted x (.inr hx))⟩
      rw [List.range'_succ, List.mem_cons] at hx
      rcases hx with rfl | hx
      · exact ⟨hfree, kept x (inserted x (.inl rfl))⟩
      · obtain ⟨hnot, hmem⟩ := back x hx
        exact ⟨fun hf => hnot (inserted x (.inr hf)), hmem⟩
    · cases h

/-- A free handle stays free while others are handed out. -/
theorem free_of_allocate {handle : Handle} (h : p.allocate = (p', .ok handle)) (hx : x ∈ p.free)
    (hne : handle ≠ x) : x ∈ p'.free := by
  rcases p.allocate_cases with ⟨least, -, -, ha⟩ | ⟨-, ha⟩
  · rw [ha] at h
    cases h
    rw [Std.TreeSet.mem_erase, ne_eq, Handle.order_eq_iff]
    exact ⟨hne, hx⟩
  · rw [ha] at h
    obtain ⟨-, -, rfl⟩ := allocateBlock_eq_ok.1 h
    exact hx

theorem free_of_allocateBlock {size : ℕ} {base : Handle}
    (h : p.allocateBlock size = (p', .ok base)) (hx : x ∈ p.free) : x ∈ p'.free := by
  obtain ⟨-, -, rfl⟩ := allocateBlock_eq_ok.1 h
  exact hx

end Pool

/-! ## Tracing qubits

A second release is one of the same qubit where lowering can tell. So unlike
in `Custody`, which follows a walk, nothing is traced through a phi, and only
elements that lowering resolves are. -/

/-- The element of an array at an index, where lowering can tell: an array of
one is taken for a qubit, which has no elements. -/
def Holding.resolved (index : ℕ) : Holding → Holding
  | array v size => if size ≠ 1 ∧ index < size then qubit ⟨v, index⟩ else nothing
  | _ => nothing

/-- The qubits that an instruction acquires. -/
def Instruction.acquired (i : Instruction) : List Qubit :=
  ((i.acquires?.map Prod.snd).getD .nothing).qubits

/-- What values are traced to, and what became of the qubits. -/
structure Tracing where
  /-- What values are traced to. -/
  values : ValueId → Holding
  /-- The qubits acquired and not released since. -/
  held : List Qubit
  /-- The qubits released so far. -/
  released : List Qubit

namespace Tracing

/-- Nothing was executed yet. -/
def start : Tracing := ⟨fun _ => .nothing, [], []⟩

/-- What an operand is traced to. -/
def operand (h : Tracing) : Operand → Holding
  | .value v => h.values v
  | _ => .nothing

/-- **What the value of an instruction is traced to**: what the instruction
acquires, or through a copy or an element to what its operand is. Nothing is
traced through a phi. -/
def derived (h : Tracing) (i : Instruction) : Holding :=
  match i.acquires?, i.operation with
  | some (_, held), _ => held
  | none, .call callee args =>
    if callee = Intrinsics.arrayElement then
      match QubitLowering.element? args with
      | some (array, index) => (h.operand array).resolved index
      | none => .nothing
    else .nothing
  | none, .copy source => if QubitLowering.carriesQubits i.type then h.operand source else .nothing
  | none, .phi _ => .nothing

/-- **The qubits that an instruction releases**: those that its operand is
traced to. -/
def releases (h : Tracing) (i : Instruction) : List Qubit :=
  ((i.releases?.map h.operand).getD .nothing).qubits

/-- Executes an instruction. -/
def step (h : Tracing) (i : Instruction) : Tracing where
  values :=
    match i.result with
    | some v => fun u => if u = v then h.derived i else h.values u
    | none => h.values
  held := (h.held.filter fun q => q ∉ h.releases i) ++ i.acquired
  released := h.released ++ h.releases i

/-- Executes instructions one by one. -/
def run (h : Tracing) (l : List (Site × Instruction)) : Tracing :=
  l.foldl (fun h e => h.step e.2) h

/-- What values are traced to is in a table, by the names that the qubits have
in another one. -/
def Recorded (t : Tracker) (h : Tracing) (table : Tracker) : Prop :=
  ∀ v, h.values v ≠ .nothing → ∃ r, table.resolve? v = some r ∧ (h.values v).Names t r

/-- Released qubits are accounted for: a handle that was given back is free, or
a qubit that is held has it. -/
def Accounted (t : Tracker) (h : Tracing) (p : Pool) : Prop :=
  ∀ q ∈ h.released, ∃ x, t.qubitHandle? q = some x ∧
    (x ∈ p.free ∨ ∃ other ∈ h.held, t.qubitHandle? other = some x)

/-- **What is traced is known**: values to the table, releases to the pool. -/
structure Known (t : Tracker) (h : Tracing) (s : Stock) : Prop where
  sound : s.pool.Sound
  recorded : h.Recorded t s.tracker
  accounted : h.Accounted t s.pool

end Tracing

/-- **A qubit is released twice along a walk**, the second time after these
instructions. -/
def Function.ReleasesTwice (f : Function) (w : List ℕ) (q : Qubit)
    (executed : List (Site × Instruction)) : Prop :=
  ∃ second rest, (f.trace w).map Prod.snd = executed ++ second :: rest ∧
    q ∈ (Tracing.start.run executed).released ∧
    q ∈ (Tracing.start.run executed).releases second.2

theorem Holding.Names.kind {t : Tracker} {h : Holding} {r : Resource} (hn : h.Names t r) :
    r.kind = .qubit := by
  obtain ⟨-, hn⟩ := hn
  cases h with
  | nothing => exact hn.elim
  | qubit q =>
    obtain ⟨x, -, rfl⟩ := hn
    rfl
  | array v size =>
    obtain ⟨-, hr⟩ := hn
    rw [hr]
    rfl

/-- An element that lowering can tell is one. -/
theorem Holding.resolved_eq {h : Holding} {index : ℕ} (hne : h.resolved index ≠ .nothing) :
    ∃ v size, h = .array v size ∧ size ≠ 1 ∧ index < size ∧
      h.resolved index = h.element index := by
  cases h with
  | array v size =>
    simp only [resolved] at hne ⊢
    split at hne
    · rename_i hlt
      exact ⟨v, size, rfl, hlt.1, hlt.2, by simp [element, hlt]⟩
    · exact absurd rfl hne
  | _ => exact absurd rfl hne

/-- What means nothing for qubits is traced to none. -/
theorem Tracing.derived_of_other {h : Tracing} {i : Instruction} {v : ValueId}
    (hv : i.result = some v) (hrole : QubitLowering.role i = .other) : h.derived i = .nothing := by
  have hacquires := Custody.Tracked.acquires?_of_other hrole
  obtain ⟨result, ty, operation⟩ := i
  obtain rfl : result = some v := hv
  simp only [derived, hacquires]
  cases operation with
  | call callee args =>
    have hne : callee ≠ Intrinsics.arrayElement := by
      rintro rfl
      cases hrole
    simp only [if_neg hne]
  | copy source =>
    have hty : ¬ QubitLowering.carriesQubits ty := fun hty => by
      simp [QubitLowering.role, hty] at hrole
    simp only [if_neg hty]
  | phi incoming => rfl

namespace Tracing

variable {t : Tracker} {h : Tracing} {s s' : Stock} {i : Instruction}
variable {d : QubitLowering.Decision}

/-- The table knows operands that are traced. -/
theorem Recorded.operand (recorded : h.Recorded t s.tracker) {op : Operand}
    (hne : h.operand op ≠ .nothing) :
    ∃ r, s.tracker.resolveAs? .qubit op = some r ∧ (h.operand op).Names t r := by
  cases op with
  | value v =>
    obtain ⟨r, hr, names⟩ := recorded v hne
    exact ⟨r, Tracker.resolveAs?_eq_some_iff.2 ⟨hr, names.kind⟩, names⟩
  | _ => exact absurd rfl hne

/-- A value that an instruction computes is known if it is traced. -/
theorem Recorded.step_of_result (recorded : h.Recorded t s.tracker) {v : ValueId}
    (hv : i.result = some v)
    (frame : ∀ u, u ≠ v → s'.tracker.resolve? u = s.tracker.resolve? u)
    (own : h.derived i ≠ .nothing →
      ∃ r, s'.tracker.resolve? v = some r ∧ (h.derived i).Names t r) :
    (h.step i).Recorded t s'.tracker := by
  intro u hu
  simp only [step, hv] at hu ⊢
  by_cases huv : u = v
  · subst huv
    rw [if_pos rfl] at hu ⊢
    exact own hu
  · rw [if_neg huv] at hu ⊢
    rw [frame u huv]
    exact recorded u hu

theorem Recorded.step_of_result_none (recorded : h.Recorded t s.tracker) (hi : i.result = none)
    (htracker : s'.tracker = s.tracker) : (h.step i).Recorded t s'.tracker := by
  intro u hu
  simp only [step, hi] at hu ⊢
  rw [htracker]
  exact recorded u hu

/-- An element that is traced is known. -/
theorem Recorded.element (recorded : h.Recorded t s.tracker) {array : Operand} {index : ℕ}
    (hne : (h.operand array).resolved index ≠ .nothing) :
    ∃ r, QubitLowering.elementOf? s.tracker (some (array, index)) = some r ∧
      ((h.operand array).resolved index).Names t r := by
  obtain ⟨v, size, harray, hone, hlt, heq⟩ := Holding.resolved_eq hne
  have traced : h.operand array ≠ .nothing := by
    rw [harray]
    simp
  obtain ⟨r, hr, names⟩ := recorded.operand traced
  have hwidth : r.width = size := by
    rw [harray] at names
    exact congrArg Resource.width names.2.2
  have hblock : r.isBlock := by
    simp [Resource.isBlock, hwidth, hone]
  have helement := names.fits.element? (hwidth ▸ hlt)
  rw [heq]
  refine ⟨_, ?_, names.element hblock helement⟩
  simp [QubitLowering.elementOf?, hr, Option.filter, hblock, helement]

/-- A step of lowering records what its value is traced to. -/
theorem Recorded.step (recorded : h.Recorded t s.tracker) (sound : s.pool.Sound)
    (hj : QubitLowering.Judges true s i s' d)
    (agrees : ∀ v, i.result = some v → t.resolve? v = s'.tracker.resolve? v) :
    (h.step i).Recorded t s'.tracker := by
  cases hj with
  | @acquire v ty args x _ hp hset =>
    refine recorded.step_of_result rfl (fun u hu => hset.other hu) fun _ => ?_
    have fits := Pool.fits_of_allocate sound .qubit hp
    simp only [derived, Instruction.acquires?_acquireQubit]
    exact ⟨_, hset.self, fits, x,
      Tracker.qubitHandle?_of_single ((agrees v rfl).trans hset.self) fits, rfl⟩
  | @acquireArray v ty args size base _ hsize hp hset =>
    refine recorded.step_of_result rfl (fun u hu => hset.other hu) fun _ => ?_
    simp only [derived, Instruction.acquires?_acquireArray, hsize, Option.map_some]
    exact ⟨_, hset.self, Pool.fits_of_allocateBlock .qubit hp, (agrees v rfl).trans hset.self, rfl⟩
  | @unsized v ty args _ hsize _ hset =>
    refine recorded.step_of_result rfl (fun u hu => hset.other hu) fun hne => absurd ?_ hne
    have other : Intrinsics.acquireArray ≠ Intrinsics.arrayElement := by decide
    simp [derived, hsize, other]
  | @project v ty args _ _ hset =>
    refine recorded.step_of_result rfl (fun u hu => hset.other hu) fun hne => ?_
    simp only [derived, Instruction.acquires?_arrayElement, if_true] at hne ⊢
    cases he : QubitLowering.element? args with
    | none =>
      simp only [he] at hne
      exact absurd rfl hne
    | some e =>
      obtain ⟨array, index⟩ := e
      simp only [he] at hne ⊢
      obtain ⟨r, hr, names⟩ := recorded.element hne
      rw [he, hr] at hset
      exact ⟨r, hset.self, names⟩
  | release _ _ htracker => exact recorded.step_of_result_none rfl htracker
  | unresolved => exact recorded.step_of_result_none rfl rfl
  | @copy v ty source _ hty _ hset =>
    refine recorded.step_of_result rfl (fun u hu => hset.other hu) fun hne => ?_
    have hd : h.derived ⟨some v, ty, .copy source⟩ = h.operand source := by
      simp [derived, Instruction.acquires?, hty]
    rw [hd] at hne ⊢
    obtain ⟨r, hr, names⟩ := recorded.operand hne
    rw [hr] at hset
    exact ⟨r, hset.self, names⟩
  | phi _ _ hset =>
    exact recorded.step_of_result rfl (fun u hu => hset.other hu) fun hne => absurd rfl hne
  | other hrole =>
    cases hv : i.result with
    | none => exact recorded.step_of_result_none hv rfl
    | some v =>
      refine recorded.step_of_result hv (fun _ _ => rfl) fun hne => ?_
      exact absurd (derived_of_other hv hrole) hne

/-- **A release of a qubit that is traced gives its handle back**, which was not
free. -/
theorem Recorded.back (recorded : h.Recorded t s.tracker)
    (hj : QubitLowering.Judges true s i s' d) {q : Qubit} (hq : q ∈ h.releases i) :
    ∃ x, t.qubitHandle? q = some x ∧ x ∉ s.pool.free ∧ x ∈ s'.pool.free := by
  cases ht : i.releases? with
  | none => simp [releases, ht, Holding.qubits] at hq
  | some target =>
    replace hq : q ∈ (h.operand target).qubits := by simpa [releases, ht] using hq
    have hne : h.operand target ≠ .nothing := by
      intro h0
      rw [h0] at hq
      cases hq
    obtain ⟨r, hres, names⟩ := recorded.operand hne
    obtain ⟨x, hx, hqx⟩ := names.exists_handle hq
    cases hj with
    | release hc hres' _ hp =>
      rw [Instruction.releases?_call hc] at ht
      obtain rfl := Option.some.inj ht
      obtain rfl := Option.some.inj (hres.symm.trans hres')
      have hx : x ∈ r.handles := names.fits.handles ▸ hx
      obtain ⟨hnot, hmem⟩ := (Pool.free_of_releaseBlock (hp rfl)).1 x hx
      exact ⟨x, hqx, hnot, hmem⟩
    | unresolved hc hnone =>
      rw [Instruction.releases?_call hc] at ht
      obtain rfl := Option.some.inj ht
      rw [hres] at hnone
      cases hnone
    | other hrole =>
      rw [Custody.Tracked.releases?_of_other hrole] at ht
      cases ht
    | _ =>
      rw [Instruction.releases?_of_result_some] at ht
      cases ht

/-- A free handle stays free unless a qubit is acquired that has it. -/
theorem free_or_acquired (sound : s.pool.Sound) (hj : QubitLowering.Judges true s i s' d)
    {x : Handle} (hx : x ∈ s.pool.free)
    (agrees : ∀ v, i.result = some v → t.resolve? v = s'.tracker.resolve? v) :
    x ∈ s'.pool.free ∨ ∃ q ∈ i.acquired, t.qubitHandle? q = some x := by
  cases hj with
  | @acquire v ty args y _ hp hset =>
    have handle := Tracker.qubitHandle?_of_single ((agrees v rfl).trans hset.self)
      (Pool.fits_of_allocate sound .qubit hp)
    by_cases hyx : y = x
    · exact .inr ⟨⟨v, 0⟩, by simp [Instruction.acquired, Holding.qubits], hyx ▸ handle⟩
    · exact .inl (Pool.free_of_allocate hp hx hyx)
  | acquireArray _ hp => exact .inl (Pool.free_of_allocateBlock hp hx)
  | release _ _ _ hp => exact .inl ((Pool.free_of_releaseBlock (hp rfl)).2 x hx)
  | unresolved => exact .inl hx
  | other => exact .inl hx
  | unsized _ hp => exact .inl (hp ▸ hx)
  | project hp => exact .inl (hp ▸ hx)
  | copy _ hp => exact .inl (hp ▸ hx)
  | phi _ hp => exact .inl (hp ▸ hx)

/-- **A step of lowering keeps what is traced known.** -/
theorem Known.step (known : h.Known t s) (hj : QubitLowering.Judges true s i s' d)
    (agrees : ∀ v, i.result = some v → t.resolve? v = s'.tracker.resolve? v) :
    (h.step i).Known t s' := by
  refine ⟨hj.sound known.sound, known.recorded.step known.sound hj agrees, fun q hq => ?_⟩
  rcases List.mem_append.1 hq with hq | hq
  · obtain ⟨x, hqx, hfree | ⟨other, hheld, hox⟩⟩ := known.accounted q hq
    · refine ⟨x, hqx, (free_or_acquired known.sound hj hfree agrees).imp_right ?_⟩
      exact fun ⟨other, hacquired, hox⟩ => ⟨other, List.mem_append_right _ hacquired, hox⟩
    · -- the qubit that has the handle is released now, or it is still held
      by_cases hor : other ∈ h.releases i
      · obtain ⟨y, hoy, -, hfree⟩ := known.recorded.back hj hor
        obtain rfl := Option.some.inj (hox.symm.trans hoy)
        exact ⟨x, hqx, .inl hfree⟩
      · have kept : other ∈ h.held.filter fun q => q ∉ h.releases i :=
          List.mem_filter.2 ⟨hheld, by simpa using hor⟩
        exact ⟨x, hqx, .inr ⟨other, List.mem_append_left _ kept, hox⟩⟩
  · obtain ⟨x, hqx, -, hfree⟩ := known.recorded.back hj hq
    exact ⟨x, hqx, .inl hfree⟩

theorem Known.start (sound : s.pool.Sound) : Tracing.start.Known t s :=
  ⟨sound, fun _ hv => absurd rfl hv, fun _ hq => by cases hq⟩

/-- The table after more steps has the values of the steps before them. -/
theorem resolve?_later {l₁ l₂ : List (Site × Instruction)}
    {ds : List (Site × QubitLowering.Decision)}
    (decides : Decides (QubitLowering.judge true) s l₂ ds s') {e : Site × Instruction}
    (he : e ∈ l₁) (nodup : ((l₁ ++ l₂).filterMap fun e => e.2.result).Nodup) {v : ValueId}
    (hv : e.2.result = some v) :
    s'.tracker.resolve? v = s.tracker.resolve? v :=
  decides.frame QubitLowering.frames_judge (Decides.result_ne_of_nodup nodup he hv)

/-- **What is traced is known all along.** -/
theorem Known.run {l : List (Site × Instruction)} {ds : List (Site × QubitLowering.Decision)}
    (known : h.Known t s) (decides : Decides (QubitLowering.judge true) s l ds s')
    (nodup : (l.filterMap fun e => e.2.result).Nodup)
    (agrees : ∀ e ∈ l, ∀ v, e.2.result = some v → t.resolve? v = s'.tracker.resolve? v) :
    (h.run l).Known t s' := by
  induction decides generalizing h with
  | nil => exact known
  | @cons s s₁ s' x i d l ds hs decides ih =>
    refine ih (known.step (QubitLowering.judges_of_judge hs) fun v hv => ?_) ?_
      fun e he => agrees e (List.mem_cons_of_mem _ he)
    · rw [agrees (x, i) List.mem_cons_self v hv]
      exact resolve?_later decides (List.mem_singleton_self (x, i)) nodup hv
    · exact nodup.sublist ((List.sublist_cons_self (x, i) l).filterMap _)

/-- A qubit that is released again has a handle that a qubit has which is
held. -/
theorem Known.holder_of_released (known : h.Known t s) (hj : QubitLowering.Judges true s i s' d)
    {q : Qubit} (released : q ∈ h.released) (again : q ∈ h.releases i) :
    ∃ x, t.qubitHandle? q = some x ∧ ∃ other ∈ h.held, t.qubitHandle? other = some x := by
  obtain ⟨x, hqx, hnot, -⟩ := known.recorded.back hj again
  obtain ⟨y, hqy, hfree | holder⟩ := known.accounted q released
  · obtain rfl := Option.some.inj (hqx.symm.trans hqy)
    exact absurd hfree hnot
  · exact ⟨y, hqy, holder⟩

end Tracing

namespace QubitLowering

variable {p : Program} {c : Context}

/-- What was executed along a walk is known when the next instruction is
decided. -/
theorem exists_known (wf : p.WellFormed) (hc : c.tracker = .empty) (sound : c.qubits.Sound)
    (static : ∀ f ∈ p.definitions, ∀ i ∈ f.instructions, ∀ o ∈ i.operands, ∀ x, o ≠ .qubit x)
    (hrun : (run p c).failure = none) {f : Function} (hf : f ∈ p.definitions)
    (hm : f.managesQubits) (honored : honors (managers p ≤ 1) c.qubits f)
    (acyclic : ControlFlow.Acyclic f.edges) {w : List ℕ} (hw : f.Walk w)
    {executed rest : List (Site × Instruction)} {next : Site × Instruction}
    (htrace : (f.trace w).map Prod.snd = executed ++ next :: rest) :
    ∃ s s' d, (Tracing.start.run executed).Known (run p c).context.tracker s ∧
      Judges true s next.2 s' d := by
  obtain ⟨s₁, s₂, ds, hpool, -, decides, agrees⟩ :=
    exists_honored_visit wf hc static hrun hf hm honored
  -- lowering visits first what is executed along the walk
  obtain ⟨tail, hvisited⟩ := trace_prefix_visited (wf.definitions f hf).ids
    (isStraight_of_honors honored) acyclic hw
  rw [htrace, List.append_assoc, List.cons_append] at hvisited
  have nodup := Function.nodup_visited_results (wf.nodup_definedValues hf)
  rw [← hvisited] at decides agrees nodup
  obtain ⟨ds₁, ds₂, s, -, decides₁, decides₂⟩ := decides.exists_append
  have known := (Tracing.Known.start (hpool ▸ sound)).run decides₁
    (nodup.sublist ((List.sublist_append_left _ _).filterMap _)) fun e he v hv =>
      (agrees e (List.mem_append_left _ he) v hv).trans
        (Tracing.resolve?_later decides₂ he nodup hv)
  cases decides₂ with
  | cons hs => exact ⟨s, _, _, known, judges_of_judge hs⟩

/-- **A qubit that is released twice is noticed**, unless another one has its
handle by then: one that was acquired and not released since. The definition
that manages qubits is the only one, it goes one way and it does not call
itself, so releases count. -/
theorem second_release_refused (p : Program) (hp : p.verify = .ok ())
    (static : ∀ f ∈ p.definitions, ∀ i ∈ f.instructions, ∀ o ∈ i.operands, ∀ x, o ≠ .qubit x)
    (c : Context) (hc : c.tracker = .empty) (hq : c.qubits = .fresh .reuse none) (f : Function)
    (hf : f ∈ p.definitions) (manages : f.managesQubits) (sole : managers p ≤ 1)
    (straight : isStraight f) (recursive : callsItself f = false)
    (acyclic : ControlFlow.Acyclic f.edges) (w : List ℕ) (hw : f.Walk w) (q : Qubit)
    (executed : List (Site × Instruction)) (twice : f.ReleasesTwice w q executed)
    (kept : ∀ other ∈ (Tracing.start.run executed).held, ∀ x,
      (run p c).context.tracker.qubitHandle? q = some x →
        (run p c).context.tracker.qubitHandle? other ≠ some x) :
    ∃ e : PoolError, (run p c).failure = some (.allocation .qubit e) ∧
      (e.Invalid ∨ e = .exhausted (addressLimit - 1)) := by
  have wf := Program.verify_eq_ok_iff.1 hp
  have new : ∀ v, c.tracker.resolve? v = none := by
    intro v
    rw [hc]
    rfl
  have spends := spends_run (c := c) wf.values new
  cases hrun : (run p c).failure with
  | some e =>
    rw [hrun, hq] at spends
    cases spends with
    | exhausted => exact ⟨_, rfl, .inr rfl⟩
    | refused _ he => exact ⟨_, rfl, .inl he⟩
  | none =>
    have honored : honors (managers p ≤ 1) c.qubits f := by
      simp [honors, hq, Pool.reuses, Pool.fresh, sole, straight, recursive]
    obtain ⟨second, rest, htrace, released, again⟩ := twice
    obtain ⟨s, s', d, known, hj⟩ :=
      exists_known wf hc (hq ▸ (Pool.Reachable.fresh _ _).sound) static hrun hf manages honored
        acyclic hw htrace
    obtain ⟨x, hqx, other, hheld, hox⟩ := known.holder_of_released hj released again
    exact absurd hox (kept other hheld x hqx)

/-! ## Programs that release twice -/

/-- A function of one block. -/
def blockMain (instructions : List Instruction) : Function where
  name := "main"
  params := []
  signature := []
  returnType := .void
  blocks := [⟨⟨0⟩, "entry", instructions, some (.ret none)⟩]
  attributes := .empty

/-- The program of that function alone. -/
def blockProgram (instructions : List Instruction) (nextValue : ℕ) : Program where
  name := "twice"
  functions := [blockMain instructions]
  flags := .empty
  nextValue := nextValue

/-- The second of two qubits is released under two names. In between, the
handle of the first one is given to a third one. -/
def renamed : List Instruction := [
  ⟨some ⟨0⟩, .qubit, .call Intrinsics.acquireQubit []⟩,
  ⟨some ⟨1⟩, .qubit, .call Intrinsics.acquireQubit []⟩,
  .call Intrinsics.releaseQubit [.value ⟨0⟩],
  .call Intrinsics.releaseQubit [.value ⟨1⟩],
  ⟨some ⟨2⟩, .qubit, .call Intrinsics.acquireQubit []⟩,
  ⟨some ⟨3⟩, .qubit, .copy (.value ⟨1⟩)⟩,
  .call Intrinsics.releaseQubit [.value ⟨3⟩]]

theorem second_release_refused_renamed :
    (blockProgram renamed 4).verify = .ok () ∧
      (blockMain renamed).ReleasesTwice [0] ⟨⟨1⟩, 0⟩ ((blockMain renamed).located.take 6) ∧
      (Tracing.start.run ((blockMain renamed).located.take 6)).held = [⟨⟨2⟩, 0⟩] ∧
      (run (blockProgram renamed 4) reusing).context.tracker.qubitHandle? ⟨⟨1⟩, 0⟩ = some 1 ∧
      (run (blockProgram renamed 4) reusing).context.tracker.qubitHandle? ⟨⟨2⟩, 0⟩ = some 0 ∧
      ∃ e : PoolError, (run (blockProgram renamed 4) reusing).failure =
          some (.allocation .qubit e) ∧ (e.Invalid ∨ e = .exhausted (addressLimit - 1)) := by
  have verified : (blockProgram renamed 4).verify = .ok () := by decide
  have twice : (blockMain renamed).ReleasesTwice [0] ⟨⟨1⟩, 0⟩
      ((blockMain renamed).located.take 6) :=
    ⟨(⟨0, 6⟩, .call Intrinsics.releaseQubit [.value ⟨3⟩]), [], by decide, by decide, by decide⟩
  have held : (Tracing.start.run ((blockMain renamed).located.take 6)).held = [⟨⟨2⟩, 0⟩] := by
    decide
  have tracker := tracker_run_eq_plan (p := blockProgram renamed 4) (f := blockMain renamed)
    rfl rfl reusing
  have own : (run (blockProgram renamed 4) reusing).context.tracker.qubitHandle? ⟨⟨1⟩, 0⟩ =
      some 1 := by
    rw [tracker]
    cbv
  have third : (run (blockProgram renamed 4) reusing).context.tracker.qubitHandle? ⟨⟨2⟩, 0⟩ =
      some 0 := by
    rw [tracker]
    cbv
  refine ⟨verified, twice, held, own, third, second_release_refused (blockProgram renamed 4)
    verified (static_of_values (by decide)) reusing rfl rfl (blockMain renamed)
    (List.mem_singleton_self _) (by decide) (by decide) (by decide) (by decide)
    (ControlFlow.acyclic_of_forall_lt (by decide)) [0] (.start (by decide)) ⟨⟨1⟩, 0⟩ _ twice ?_⟩
  intro other hheld x hx
  rw [held] at hheld
  obtain rfl := List.mem_singleton.1 hheld
  rw [own] at hx
  obtain rfl := Option.some.inj hx
  rw [third]
  decide

/-- A qubit is released, and again after another one was given its handle. A
third one is given the handle then. -/
def releasedTwice : List Instruction := [
  ⟨some ⟨0⟩, .qubit, .call Intrinsics.acquireQubit []⟩,
  .call Intrinsics.releaseQubit [.value ⟨0⟩],
  ⟨some ⟨1⟩, .qubit, .call Intrinsics.acquireQubit []⟩,
  .call Intrinsics.releaseQubit [.value ⟨0⟩],
  ⟨some ⟨2⟩, .qubit, .call Intrinsics.acquireQubit []⟩,
  .call "__quantum__qis__cnot__body" [.value ⟨1⟩, .value ⟨2⟩]]

/-- **A second release that is not noticed**: it is taken for one of the qubit
that has the handle by then, which loses it to another one. -/
theorem second_release_taken :
    (blockProgram releasedTwice 3).verify = .ok () ∧
      (∀ f ∈ (blockProgram releasedTwice 3).definitions, ∀ i ∈ f.instructions,
        ∀ o ∈ i.operands, ∀ x, o ≠ .qubit x) ∧
      managers (blockProgram releasedTwice 3) = 1 ∧ isStraight (blockMain releasedTwice) ∧
      callsItself (blockMain releasedTwice) = false ∧
      ControlFlow.Acyclic (blockMain releasedTwice).edges ∧ (blockMain releasedTwice).Walk [0] ∧
      (blockMain releasedTwice).ReleasesTwice [0] ⟨⟨0⟩, 0⟩
        ((blockMain releasedTwice).located.take 3) ∧
      (run (blockProgram releasedTwice 3) reusing).failure = none ∧
      (run (blockProgram releasedTwice 3) reusing).context.tracker.qubitHandle? ⟨⟨1⟩, 0⟩ =
        some 0 ∧
      (run (blockProgram releasedTwice 3) reusing).context.tracker.qubitHandle? ⟨⟨2⟩, 0⟩ =
        some 0 := by
  have twice : (blockMain releasedTwice).ReleasesTwice [0] ⟨⟨0⟩, 0⟩
      ((blockMain releasedTwice).located.take 3) :=
    ⟨(⟨0, 3⟩, .call Intrinsics.releaseQubit [.value ⟨0⟩]),
      (blockMain releasedTwice).located.drop 4, by decide, by decide, by decide⟩
  have tracker := tracker_run_eq_plan (p := blockProgram releasedTwice 3)
    (f := blockMain releasedTwice) rfl rfl reusing
  refine ⟨by decide, static_of_values (by decide), by decide, by decide, by decide,
    ControlFlow.acyclic_of_forall_lt (by decide), .start (by decide), twice, ?_, ?_, ?_⟩
  · rw [(run_eq_plan (f := blockMain releasedTwice) rfl rfl reusing).1]
    cbv
  · rw [tracker]
    cbv
  · rw [tracker]
    cbv

end QubitLowering

end QuantumLowering
