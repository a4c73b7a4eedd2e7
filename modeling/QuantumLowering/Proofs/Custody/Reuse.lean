import Mathlib
import QuantumLowering.Proofs.Custody.Tracking
/-!
# Qubits that are held never share a handle

Where releases do not count, all that lowering hands out is apart. Where
they count, only one definition manages qubits and it goes one way, so
lowering visits its instructions in the order in which they are executed,
and at every point of its walk the qubits held have different handles.
-/


namespace QuantumLowering

open Lowering

/-! ## Definitions that manage no qubits -/

namespace QubitLowering

variable {honored sole : Bool} {s s' : Stock} {i : Instruction} {d : Decision} {f : Function}

/-- Where nothing is known, operands stand for no qubit. -/
theorem resolveAs?_eq_none {t : Tracker} (new : ∀ v, t.resolve? v = none) {op : Operand}
    (hop : ∀ x, op ≠ .qubit x) : t.resolveAs? .qubit op = none := by
  cases op with
  | value v => simp [Tracker.resolveAs?, Tracker.resolveOperand?_value, new v]
  | qubit x => exact absurd rfl (hop x)
  | _ => rfl

/-- A step that manages no qubits learns nothing. -/
theorem Judges.unmanaged (h : Judges honored s i s' d) (hm : i.managesQubits = false)
    (static : ∀ o ∈ i.operands, ∀ x, o ≠ .qubit x) (new : ∀ v, s.tracker.resolve? v = none) :
    s'.pool = s.pool ∧ ∀ v, s'.tracker.resolve? v = none := by
  have unknown : ∀ {v o}, s.tracker.Sets s'.tracker v o → o = none →
      ∀ u, s'.tracker.resolve? u = none := by
    intro v o hset ho u
    rw [hset u]
    split
    · exact ho
    · exact new u
  cases h with
  | acquire | acquireArray | unsized =>
    rw [Instruction.managesQubits_call] at hm
    exact absurd hm (by decide)
  | @project v ty args _ hp hset =>
    refine ⟨hp, unknown hset ?_⟩
    match args with
    | [] => rfl
    | [_] => rfl
    | array :: index :: _ =>
      have := resolveAs?_eq_none new (static array List.mem_cons_self)
      cases hc : constant? index <;> simp [element?, elementOf?, hc, this]
  | release hc =>
    rw [Instruction.managesQubits_call] at hm
    rcases hc with rfl | rfl <;> exact absurd hm (by decide)
  | unresolved => exact ⟨rfl, new⟩
  | @copy v ty source _ _ hp hset =>
    exact ⟨hp, unknown hset (resolveAs?_eq_none new (static source (List.mem_singleton_self _)))⟩
  | @phi v ty incoming _ _ hp hset =>
    refine ⟨hp, unknown hset (Option.eq_none_iff_forall_ne_some.2 fun r hr => ?_)⟩
    obtain ⟨o, ho, hr⟩ := Tracker.exists_resolveAs?_of_joinAs? hr
    rw [resolveAs?_eq_none new (static o ho)] at hr
    cases hr
  | other => exact ⟨rfl, new⟩

/-- A definition that manages no qubits leaves the pool as it is, and nothing
is known after it. -/
theorem lower_unmanaged (h : (lower sole s f).failure = none) (hm : f.managesQubits = false)
    (static : ∀ i ∈ f.instructions, ∀ o ∈ i.operands, ∀ x, o ≠ .qubit x)
    (new : ∀ v, s.tracker.resolve? v = none) :
    (lower sole s f).stock.pool = s.pool ∧
      ∀ v, (lower sole s f).stock.tracker.resolve? v = none := by
  obtain ⟨ds, gone, decides, -⟩ := exists_lowered h
  refine decides.invariant (P := fun s₁ => s₁.pool = s.pool ∧ ∀ v, s₁.tracker.resolve? v = none)
    ⟨rfl, new⟩ fun e he s₁ s₂ d ⟨hp, hnew⟩ hs => ?_
  have hi := Function.mem_instructions.2 ⟨e.1, Function.mem_visited.1 he⟩
  have hmi : e.2.managesQubits = false := by
    simpa using List.any_eq_false.1 hm e.2 hi
  obtain ⟨hp', hnew'⟩ := (judges_of_judge hs).unmanaged hmi (static e.2 hi) hnew
  exact ⟨hp'.trans hp, hnew'⟩

/-! ## The order of execution -/

/-- A block of a function that never branches goes one way. -/
theorem edge_unique (ids : (f.blocks.map Block.id).Nodup) (straight : isStraight f) (k l m : ℕ)
    (hl : ControlFlow.Edge f.edges k l) (hm : ControlFlow.Edge f.edges k m) : l = m := by
  obtain ⟨b, s, hb, hk, -, -⟩ := Function.exists_of_edge hl
  obtain ⟨b', hb', -⟩ := Function.exists_block_of_position? hk
  obtain ⟨c, hc, hcs⟩ := (Function.edge_iff ids hb').1 hl
  obtain ⟨c', hc', hcs'⟩ := (Function.edge_iff ids hb').1 hm
  have hone : b'.terminator.any Terminator.isConditional = false := by
    have := straight
    simp only [isStraight, Bool.not_eq_true', List.any_eq_false] at this
    simpa using this b' (List.mem_of_getElem? hb')
  -- without a conditional branch a block has one successor at most
  have hsame : c.id = c'.id := by
    unfold Block.successors at hcs hcs'
    cases ht : b'.terminator with
    | none => simp [ht] at hcs
    | some t =>
      rw [ht] at hone hcs hcs'
      cases t with
      | branch target => simp_all [Terminator.successors]
      | condBranch => cases hone
      | _ => simp [Terminator.successors] at hcs
  exact Function.position_unique ids hc hc' hsame

/-- **Lowering visits instructions in the order of execution**, where there is
one way and no cycle. -/
theorem trace_prefix_visited (ids : (f.blocks.map Block.id).Nodup) (straight : isStraight f)
    (acyclic : ControlFlow.Acyclic f.edges) {w : List ℕ} (hw : f.Walk w) :
    (f.trace w).map Prod.snd <+: f.visited := by
  obtain ⟨rest, horder⟩ := hw.isPrefix_reversePostOrder (edge_unique ids straight) acyclic
  rw [Function.map_snd_trace, Function.visited_eq, ← horder, List.flatMap_append]
  exact List.prefix_append _ _

/-! ## Programs -/

/-- **What a table gives to the acquisitions of a program is apart**, and was
not live in a pool. -/
structure Apart (p : Program) (initial : Pool) (t : Tracker) : Prop where
  /-- Every acquisition is given as many handles as it acquires qubits. -/
  given : ∀ f ∈ p.definitions, ∀ i ∈ f.instructions, ∀ v held, i.acquires? = some (v, held) →
    ∃ base, t.resolve? v = some (.block .qubit base held.qubits.length)
  /-- They were not live. -/
  new : ∀ f ∈ p.definitions, ∀ i ∈ f.instructions, ∀ v held, i.acquires? = some (v, held) →
    ∀ r, t.resolve? v = some r → ∀ x ∈ r.addresses, ¬ initial.Live x
  /-- Different acquisitions are given different handles. -/
  apart : ∀ f ∈ p.definitions, ∀ i ∈ f.instructions, ∀ v held, i.acquires? = some (v, held) →
    ∀ g ∈ p.definitions, ∀ j ∈ g.instructions, ∀ u held', j.acquires? = some (u, held') → v ≠ u →
      ∀ r r', t.resolve? v = some r → t.resolve? u = some r' → List.Disjoint r.addresses r'.addresses

variable {p : Program} {c : Context}

/-- One definition manages qubits if no more than one does. -/
theorem eq_of_managers_le (h : managers p ≤ 1) {f g : Function} (hf : f ∈ p.definitions)
    (hg : g ∈ p.definitions) (hfm : f.managesQubits) (hgm : g.managesQubits) : f = g := by
  rw [managers, List.countP_eq_length_filter] at h
  have hf := List.mem_filter.2 ⟨hf, hfm⟩
  have hg := List.mem_filter.2 ⟨hg, hgm⟩
  generalize p.definitions.filter Function.managesQubits = l at h hf hg
  match l, h with
  | [a], _ => rw [List.mem_singleton.1 hf, List.mem_singleton.1 hg]

/-- Where releases do not count for the definition that manages qubits, they
count nowhere. -/
theorem honors_eq_false {initial : Pool}
    (h : initial.reuses = false ∨ 1 < managers p ∨
      ∃ f ∈ p.definitions, f.managesQubits ∧ (isStraight f = false ∨ callsItself f))
    {f : Function} (hf : f ∈ p.definitions) {pool : Pool} (hp : pool.policy = initial.policy) :
    honors (managers p ≤ 1) pool f = false ∨ ∀ i ∈ f.instructions, i.managesQubits = false := by
  by_cases hm : f.managesQubits
  · left
    have hreuses : pool.reuses = initial.reuses := by simp [Pool.reuses, hp]
    rcases h with h | h | ⟨g, hg, hgm, h⟩
    · simp [honors, hreuses, h]
    · simp [honors, h]
    · by_cases hsole : managers p ≤ 1
      · obtain rfl := eq_of_managers_le hsole hf hg hm hgm
        rcases h with h | h <;> simp [honors, h]
      · simp [honors, hsole]
  · right
    simpa [Function.managesQubits] using hm

theorem apart_of_not_honored (nodup : (p.definitions.flatMap Function.definedValues).Nodup)
    (issued : c.qubits.Issued)
    (h : c.qubits.reuses = false ∨ 1 < managers p ∨
      ∃ f ∈ p.definitions, f.managesQubits ∧ (isStraight f = false ∨ callsItself f))
    (hrun : (run p c).failure = none) : Apart p c.qubits (run p c).context.tracker := by
  rw [run_failure] at hrun
  obtain ⟨s', sweeps, hc⟩ := sweeps_run hrun
  obtain ⟨given, hands, hgiven⟩ := exists_handsOut sweeps nodup issued fun f hf hd pool hp =>
    honors_eq_false h (Program.mem_definitions.2 ⟨hf, hd⟩) hp
  have ht : (run p c).context.tracker = s'.tracker := by rw [run_context, hc]; rfl
  have acquired : ∀ f ∈ p.definitions, ∀ i ∈ f.instructions, ∀ v held,
      i.acquires? = some (v, held) → ∃ base,
        (v, .block .qubit base held.qubits.length) ∈ given ∧
          s'.tracker.resolve? v = some (.block .qubit base held.qubits.length) := fun f hf =>
    hgiven f (Program.mem_definitions.1 hf).1 (Program.mem_definitions.1 hf).2
  rw [ht]
  refine ⟨?_, ?_, ?_⟩
  · intro f hf i hi v held ha
    obtain ⟨base, -, hv⟩ := acquired f hf i hi v held ha
    exact ⟨base, hv⟩
  · intro f hf i hi v held ha r hr
    obtain ⟨base, hmem, hv⟩ := acquired f hf i hi v held ha
    obtain rfl := Option.some.inj (hr.symm.trans hv)
    exact hands.new _ hmem
  · intro f hf i hi v held ha g hg j hj u held' hb hne r r' hr hr'
    obtain ⟨base, hmem, hv⟩ := acquired f hf i hi v held ha
    obtain ⟨base', hmem', hu⟩ := acquired g hg j hj u held' hb
    obtain rfl := Option.some.inj (hr.symm.trans hv)
    obtain rfl := Option.some.inj (hr'.symm.trans hu)
    have : Std.Symm fun a b : ValueId × Resource => List.Disjoint a.2.addresses b.2.addresses :=
      ⟨fun _ _ h => h.symm⟩
    exact hands.apart.forall hmem hmem' fun heq => hne (Prod.mk.inj heq).1

/-- If no more than one definition manages qubits, none before that one
does. -/
theorem unmanaged_before (sole : managers p ≤ 1) {f g : Function} (hf : f ∈ p.definitions)
    (hm : f.managesQubits) {fs₁ fs₂ : List Function} (hsplit : p.functions = fs₁ ++ f :: fs₂)
    (hg : g ∈ fs₁) (hd : ¬ g.isDeclaration) : g.managesQubits = false := by
  by_contra hgm
  have hgm : g.managesQubits = true := by simpa using hgm
  rw [managers, Program.definitions, hsplit, List.filter_append, List.countP_append,
    List.filter_cons_of_pos (by simpa using (Program.mem_definitions.1 hf).2),
    List.countP_cons_of_pos hm] at sole
  have : 0 < (fs₁.filter fun f => !f.isDeclaration).countP Function.managesQubits :=
    List.countP_pos_iff.2 ⟨g, List.mem_filter.2 ⟨hg, by simpa using hd⟩, hgm⟩
  omega

/-- Lowering comes to the definition that manages qubits with the pool as it was, and
nothing is known. -/
theorem start_of_sweeps (sole : managers p ≤ 1) (hc : c.tracker = .empty)
    (static : ∀ f ∈ p.definitions, ∀ i ∈ f.instructions, ∀ o ∈ i.operands, ∀ x, o ≠ .qubit x)
    {f : Function} (hf : f ∈ p.definitions) (hm : f.managesQubits) {fs₁ fs₂ gs₁ : List Function}
    (hsplit : p.functions = fs₁ ++ f :: fs₂) {s₁ : Stock}
    (before : Sweeps (lower (managers p ≤ 1)) (c.stock .qubit) fs₁ gs₁ s₁) :
    s₁.pool = c.qubits ∧ ∀ v, s₁.tracker.resolve? v = none := by
  refine before.invariant (P := fun s => s.pool = c.qubits ∧ ∀ v, s.tracker.resolve? v = none)
    ⟨rfl, fun v => ?_⟩ fun g hg hd s ⟨hp, hnew⟩ h => ?_
  · change c.tracker.resolve? v = none
    rw [hc]
    rfl
  · have hgdef : g ∈ p.definitions :=
      Program.mem_definitions.2 ⟨hsplit ▸ List.mem_append_left _ hg, hd⟩
    obtain ⟨hp', hnew'⟩ :=
      lower_unmanaged h (unmanaged_before sole hf hm hsplit hg hd) (static g hgdef) hnew
    exact ⟨hp'.trans hp, hnew'⟩

/-- So the definition has its turn. -/
theorem start_of_turn (sole : managers p ≤ 1) (hc : c.tracker = .empty)
    (static : ∀ f ∈ p.definitions, ∀ i ∈ f.instructions, ∀ o ∈ i.operands, ∀ x, o ≠ .qubit x)
    {f g : Function} (hf : f ∈ p.definitions) (hm : f.managesQubits) {s' s₁ : Stock}
    (turn : Sweeps.Turn (lower (managers p ≤ 1)) (c.stock .qubit) p.functions s' f g s₁) :
    s₁.pool = c.qubits ∧ ∀ v, s₁.tracker.resolve? v = none := by
  obtain ⟨fs₁, fs₂, gs₁, hsplit, before⟩ := turn.before
  exact start_of_sweeps sole hc static hf hm hsplit before

/-- **Where releases count, lowering comes to the definition with the pool as it
was and nothing known**, and what it records of the values of the definition
stays. -/
theorem exists_honored_visit (wf : p.WellFormed) (hc : c.tracker = .empty)
    (static : ∀ f ∈ p.definitions, ∀ i ∈ f.instructions, ∀ o ∈ i.operands, ∀ x, o ≠ .qubit x)
    (hrun : (run p c).failure = none) {f : Function} (hf : f ∈ p.definitions)
    (hm : f.managesQubits) (honored : honors (managers p ≤ 1) c.qubits f) :
    ∃ s₁ s₂ ds, s₁.pool = c.qubits ∧ (∀ v, s₁.tracker.resolve? v = none) ∧
      Decides (judge true) s₁ f.visited ds s₂ ∧
      ∀ e ∈ f.visited, ∀ v, e.2.result = some v →
        (run p c).context.tracker.resolve? v = s₂.tracker.resolve? v := by
  rw [run_failure] at hrun
  obtain ⟨s', hs', -, turns⟩ := exists_turns frames_lower (fun _ _ => isDeclaration_lower)
    wf.values hrun
  have ht : (run p c).context.tracker = s'.tracker := by rw [run_context, hs']; rfl
  obtain ⟨g, -, s₁, turn⟩ := exists_right_of_forall₂ turns hf
  have sole : managers p ≤ 1 := by
    simp only [honors, Bool.and_eq_true, decide_eq_true_eq] at honored
    exact honored.1.1.2
  -- the definitions before this one manage no qubits, so it finds the pool as it was
  obtain ⟨hpool, new⟩ := start_of_turn sole hc static hf hm turn
  obtain ⟨ds, gone, decides, -⟩ := exists_lowered turn.failure
  rw [hpool, honored] at decides
  refine ⟨s₁, _, ds, hpool, new, decides, fun e he v hv => ?_⟩
  rw [ht]
  exact turn.result v (Function.result_mem_definedValues (Function.mem_visited.1 he) hv)

theorem isStraight_of_honors {sole : Bool} {pool : Pool} {f : Function}
    (h : honors sole pool f) : isStraight f := by
  simp only [honors, Bool.and_eq_true] at h
  exact h.1.2

/-- Where releases count for the definition that manages qubits, the qubits
held along a walk are apart. -/
theorem apart_of_honored (wf : p.WellFormed) (hc : c.tracker = .empty) (sound : c.qubits.Sound)
    (static : ∀ f ∈ p.definitions, ∀ i ∈ f.instructions, ∀ o ∈ i.operands, ∀ x, o ≠ .qubit x)
    (hrun : (run p c).failure = none) {f : Function} (hf : f ∈ p.definitions)
    (hm : f.managesQubits) (honored : honors (managers p ≤ 1) c.qubits f)
    (acyclic : ControlFlow.Acyclic f.edges) {w : List ℕ} (hw : f.Walk w)
    {l : List (Option BlockId × (Site × Instruction))} (hl : l <+: f.trace w)
    (lists : ∀ e ∈ l, ∀ incoming, e.2.2.operation = .phi incoming →
      ∃ b, e.1 = some b ∧ b ∈ incoming.map Prod.fst)
    (once : (Custody.start.run l).released.Nodup) :
    (Custody.start.run l).Apart (run p c).context.tracker c.qubits := by
  obtain ⟨s₁, s₂, ds, hpool, new, decides, agrees⟩ :=
    exists_honored_visit wf hc static hrun hf hm honored
  have first := trace_prefix_visited (wf.definitions f hf).ids (isStraight_of_honors honored)
    acyclic hw
  have located : ∀ e ∈ f.visited, e ∈ f.located := fun e he => Function.mem_visited.1 he
  obtain ⟨s', tracked⟩ := Custody.Tracked.run decides ((hl.map Prod.snd).trans first)
    (Function.nodup_visited_results (wf.nodup_definedValues hf)) (fun e _ v _ => new v) agrees
    (fun e he => static f hf e.2 (Function.mem_instructions.2 ⟨e.1, located e he⟩)) lists once
    (Custody.Tracked.start (hpool ▸ sound) new)
  rw [← hpool]
  exact tracked.apart_held

/-- **Qubits that are held have different handles**, and none that was live
before. Where releases do not count, this holds of everything that is
acquired. -/
theorem held_qubits_apart (p : Program) (hp : p.verify = .ok ())
    (static : ∀ f ∈ p.definitions, ∀ i ∈ f.instructions, ∀ o ∈ i.operands, ∀ x, o ≠ .qubit x)
    (c : Context) (hc : c.tracker = .empty) (reachable : c.qubits.Reachable)
    (h : (run p c).failure = none) :
    ((c.qubits.reuses = false ∨ 1 < managers p ∨
        ∃ f ∈ p.definitions, f.managesQubits ∧ (isStraight f = false ∨ callsItself f)) →
      Apart p c.qubits (run p c).context.tracker) ∧
    ∀ f ∈ p.definitions, f.managesQubits → honors (managers p ≤ 1) c.qubits f →
      ControlFlow.Acyclic f.edges → ∀ w, f.Walk w → ∀ l, l <+: f.trace w →
        (∀ e ∈ l, ∀ incoming, e.2.2.operation = .phi incoming →
          ∃ b, e.1 = some b ∧ b ∈ incoming.map Prod.fst) →
        (Custody.start.run l).released.Nodup →
        (Custody.start.run l).Apart (run p c).context.tracker c.qubits := by
  have wf := Program.verify_eq_ok_iff.1 hp
  refine ⟨fun unhonored => ?_, fun f hf hm honored acyclic w hw l hl lists once => ?_⟩
  · exact apart_of_not_honored wf.values reachable.issued unhonored h
  · exact apart_of_honored wf hc reachable.sound static h hf hm honored acyclic hw hl lists once

/-- A program whose operands are values has no static qubits. -/
theorem static_of_values
    (values : ∀ f ∈ p.definitions, ∀ i ∈ f.instructions, ∀ o ∈ i.operands, o.value?.isSome) :
    ∀ f ∈ p.definitions, ∀ i ∈ f.instructions, ∀ o ∈ i.operands, ∀ x, o ≠ .qubit x := by
  rintro f hf i hi o ho x rfl
  cases values f hf i hi _ ho

/-! ## A program that acquires again -/

/-- A qubit is released, and two are acquired after it. -/
def acquireAgainMain : Function where
  name := "main"
  params := []
  signature := []
  returnType := .void
  blocks := [
    ⟨⟨0⟩, "entry", [
      ⟨some ⟨0⟩, .qubit, .call Intrinsics.acquireQubit []⟩,
      .call "__quantum__qis__h__body" [.value ⟨0⟩],
      .call Intrinsics.releaseQubit [.value ⟨0⟩]],
      some (.branch ⟨1⟩)⟩,
    ⟨⟨1⟩, "body", [
      ⟨some ⟨1⟩, .qubit, .call Intrinsics.acquireQubit []⟩,
      ⟨some ⟨2⟩, .qubit, .call Intrinsics.acquireQubit []⟩,
      .call "__quantum__qis__cnot__body" [.value ⟨1⟩, .value ⟨2⟩],
      .call Intrinsics.releaseQubit [.value ⟨1⟩],
      .call Intrinsics.releaseQubit [.value ⟨2⟩]],
      some (.ret none)⟩]
  attributes := SortedMap.empty.insert Function.entryPointAttribute ""

/-- The program of that function alone. -/
def acquireAgain : Program where
  name := "again"
  functions := [acquireAgainMain]
  flags := .empty
  nextValue := 3

/-- A context whose pools reuse. -/
def reusing : Context := .start (.fresh .reuse none) (.fresh .reuse none) .empty

theorem held_qubits_apart_acquireAgain :
    acquireAgain.verify = .ok () ∧
      (run acquireAgain reusing).failure = none ∧
      (run acquireAgain reusing).context.tracker.qubitHandle? ⟨⟨0⟩, 0⟩ = some 0 ∧
      (run acquireAgain reusing).context.tracker.qubitHandle? ⟨⟨1⟩, 0⟩ = some 0 ∧
      (Custody.start.run ((acquireAgainMain.trace [1, 0]).take 5)).held =
        [⟨⟨1⟩, 0⟩, ⟨⟨2⟩, 0⟩] ∧
      (Custody.start.run ((acquireAgainMain.trace [1, 0]).take 5)).Apart
        (run acquireAgain reusing).context.tracker reusing.qubits ∧
      Apart acquireAgain Context.default.qubits
        (run acquireAgain .default).context.tracker := by
  have verified : acquireAgain.verify = .ok () := by decide
  have static := static_of_values (p := acquireAgain) (by decide)
  have ends : (run acquireAgain reusing).failure = none :=
    (run_eq_plan (f := acquireAgainMain) rfl rfl reusing).1.trans (by cbv)
  have tracker := tracker_run_eq_plan (p := acquireAgain) (f := acquireAgainMain) rfl rfl reusing
  obtain ⟨-, held⟩ := held_qubits_apart acquireAgain verified static reusing rfl (.fresh _ _) ends
  obtain ⟨acquired, -⟩ := held_qubits_apart acquireAgain verified static .default rfl
    (.fresh _ _) rfl
  have walk : acquireAgainMain.Walk [1, 0] :=
    .step (.start (by decide)) (show (0, 1) ∈ acquireAgainMain.edges by decide)
  have apart := held acquireAgainMain (List.mem_singleton_self _) (by decide) (by decide)
    (ControlFlow.acyclic_of_forall_lt (by decide)) [1, 0] walk
    ((acquireAgainMain.trace [1, 0]).take 5) (List.take_prefix _ _) ?_ (by decide)
  · refine ⟨verified, ends, ?_, ?_, by decide, apart, acquired (.inl rfl)⟩
    · rw [tracker]
      cbv
    · rw [tracker]
      cbv
  · have plain : ∀ e ∈ (acquireAgainMain.trace [1, 0]).take 5, e.2.2.isPhi = false := by decide
    intro e he incoming hphi
    have := plain e he
    simp [Instruction.isPhi, hphi] at this

end QubitLowering

end QuantumLowering
