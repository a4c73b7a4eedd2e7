import QuantumLowering.Proofs.Compliance.Base
import QuantumLowering.Proofs.Execution.Allocation
/-!
# The limits of a target

A target bounds its pools, so lowering gives no address beyond what the
target has. The addresses that stand in a program before are looked at
only when its needs are stated. So a program needs no more than the target
has if all of them are below its limits (`Configuration.base_needs`), and
it may need more if one is not.
-/


namespace QuantumLowering

open Lowering

variable {drawn kind : ResourceKind} {n : ℕ}

/-! ## Below a limit -/

/-- The addresses of a kind among some operands are below a limit. -/
def OperandsBelow (kind : ResourceKind) (n : ℕ) (ops : List Operand) : Prop :=
  ∀ op ∈ ops, ∀ x, kind.handle? op = some x → x < n

/-- The addresses of a kind in the instructions of a function are below a
limit. -/
def Function.Below (kind : ResourceKind) (n : ℕ) (f : Function) : Prop :=
  ∀ i ∈ f.instructions, OperandsBelow kind n i.operands

/-- The addresses that a resource has are below a limit, if it is of a kind. -/
def Resource.Below (kind : ResourceKind) (n : ℕ) (r : Resource) : Prop :=
  r.kind = kind → ∀ x ∈ r.addresses, x < n

/-- A declaration has no instructions. -/
theorem Function.below_of_declaration {f : Function} (h : f.isDeclaration) : f.Below kind n := by
  intro i hi
  have hblocks : f.blocks = [] := by simpa [isDeclaration] using h
  simp [instructions, hblocks] at hi

theorem Tracker.All.below_of_resolveAs? {t : Tracker} (h : t.All (Resource.Below kind n))
    {op : Operand} (hop : ∀ x, kind.handle? op = some x → x < n) {r : Resource}
    (hr : t.resolveAs? drawn op = some r) : r.Below kind n := by
  obtain ⟨known, -⟩ := Tracker.resolveAs?_eq_some_iff.1 hr
  cases op with
  | value v => exact h v r known
  | qubit x | result x =>
    cases known
    rintro rfl y hy
    exact hop y (congrArg some (Resource.mem_addresses_single.1 hy).symm)
  | _ => cases known

theorem Tracker.All.below_of_joinAs? {t : Tracker} (h : t.All (Resource.Below kind n))
    {ops : List Operand} (hops : OperandsBelow kind n ops) {r : Resource}
    (hr : t.joinAs? drawn ops = some r) : r.Below kind n := by
  obtain ⟨op, hop, hr⟩ := Tracker.exists_resolveAs?_of_joinAs? hr
  exact h.below_of_resolveAs? (hops op hop) hr

/-- An element of a block is below what the block is below. -/
theorem Resource.Below.element? {r e : Resource} (h : r.Below kind n) {index : ℕ}
    (he : r.element? index = some e) : e.Below kind n := by
  obtain ⟨hlt, rfl⟩ := Resource.element?_eq_some_iff.1 he
  intro hk x hx
  obtain rfl := Resource.mem_addresses_single.1 hx
  -- an element that does not fit starts again from zero, which is below as well
  refine lt_of_le_of_lt (Nat.mod_le _ _) (h hk _ (Resource.mem_addresses.2 ⟨?_, ?_⟩))
  · exact Nat.le_add_right _ _
  · exact Nat.add_lt_add_left hlt _

/-- The operand that addresses such a resource is below the limit. -/
theorem Resource.Below.operand? {r : Resource} (h : r.Below kind n) {op : Operand}
    (hop : r.operand? = some op) {x : Handle} (hx : kind.handle? op = some x) : x < n := by
  obtain rfl := Resource.eq_single_of_operand? hop hx
  exact h rfl x (Resource.mem_addresses_single.2 rfl)

/-! ## Stocks -/

/-- **What is handed out and what is known are below a limit**, if the pool is of
the kind that is limited. -/
structure Stock.Below (s : Stock) (drawn kind : ResourceKind) (n : ℕ) : Prop where
  /-- The pool is sound. -/
  sound : s.pool.Sound
  /-- The limit is the capacity of the pool. -/
  capacity : drawn = kind → s.pool.capacity = some n
  /-- What values stand for is below the limit. -/
  table : s.tracker.All (Resource.Below kind n)

namespace Stock.Below

variable {s s' : Stock} {v : ValueId} {r : Resource} {o : Option Resource}

/-- No more handles than the limit were handed out. -/
theorem highWater_le (h : s.Below drawn kind n) (hk : drawn = kind) : s.pool.highWater ≤ n :=
  h.sound.bounded.highWater_le (h.capacity hk)

/-- Drawing on the pool keeps it within its capacity. -/
theorem ofDrawn (h : s.Below drawn kind n) (hd : ∃ m, s.pool.Drawn m s'.pool)
    (issued : s'.pool.Issued)
    (table : (drawn = kind → s'.pool.highWater ≤ n) → s'.tracker.All (Resource.Below kind n)) :
    s'.Below drawn kind n := by
  obtain ⟨m, hd⟩ := hd
  have capacity : drawn = kind → s'.pool.capacity = some n := fun hk =>
    hd.capacity.trans (h.capacity hk)
  have bounded : s'.pool.Bounded := hd.bounded h.sound.bounded
  exact ⟨⟨issued, bounded⟩, capacity, table fun hk => bounded.highWater_le (capacity hk)⟩

/-- A value is bound to what was taken from the pool. -/
theorem ofSets (h : s.Below drawn kind n) (hd : ∃ m, s.pool.Drawn m s'.pool)
    (issued : s'.pool.Issued) (hset : s.tracker.Sets s'.tracker v (some r)) (hr : r.kind = drawn)
    (hlt : ∀ x ∈ r.addresses, x < s'.pool.highWater) : s'.Below drawn kind n := by
  refine h.ofDrawn hd issued fun highWater => hset.all h.table fun r' hr' hk x hx => ?_
  obtain rfl := Option.some.inj hr'
  exact (hlt x hx).trans_le (highWater (hr.symm.trans hk))

/-- A value is bound to what others stand for. -/
theorem ofDerived (h : s.Below drawn kind n) (hp : s'.pool = s.pool)
    (hset : s.tracker.Sets s'.tracker v o) (ho : ∀ r, o = some r → r.Below kind n) :
    s'.Below drawn kind n := by
  obtain ⟨sound, capacity, table⟩ := h
  rw [← hp] at sound capacity
  exact ⟨sound, capacity, hset.all table ho⟩

end Stock.Below

/-! ## Functions -/

/-- The last step of lowering keeps addresses below a limit if those are that it
puts in place of values. -/
theorem Lowering.Finished.below {resolve : ValueId → Option Operand}
    {change : Site × Instruction → Instruction} {candidates gone : List Site} {f g : Function}
    (h : Finished resolve change candidates f g gone)
    (resolved : ∀ v op, resolve v = some op → ∀ x, kind.handle? op = some x → x < n)
    (changed : ∀ e ∈ f.located, OperandsBelow kind n (change e).operands) : g.Below kind n := by
  intro j hj op hop x hx
  obtain ⟨e, he, -, rfl⟩ := h.mem_instructions_iff.1 hj
  rw [Instruction.operands_mapOperands] at hop
  obtain ⟨o, ho, rfl⟩ := List.mem_map.1 hop
  cases o with
  | value v =>
    rw [Operand.substitute_value] at hx
    cases hv : resolve v with
    | some op =>
      rw [hv] at hx
      exact resolved v op hv x hx
    | none =>
      rw [hv] at hx
      cases kind <;> cases hx
  | _ => exact changed e he _ ho x hx

namespace QubitLowering

variable {honored sole : Bool} {s s' : Stock} {i : Instruction} {d : Decision} {f : Function}

/-- **A step keeps below a limit** what is handed out and what is known. -/
theorem Judges.below (h : Judges honored s i s' d) (hs : s.Below .qubit kind n)
    (hi : OperandsBelow kind n i.operands) : s'.Below .qubit kind n := by
  have hd := h.exists_drawn
  cases h with
  | acquire hp hset =>
    refine hs.ofSets hd (Pool.takes_allocate hs.sound.issued hp .qubit).issued hset rfl fun x hx => ?_
    exact (Pool.lt_highWater_allocate hs.sound.issued hp x).2 (.inr hx)
  | acquireArray _ hp hset =>
    refine hs.ofSets hd (Pool.takes_allocateBlock hs.sound.issued hp .qubit).issued hset rfl
      fun x hx => ?_
    exact (Pool.lt_highWater_allocateBlock hp x).2 (.inr hx)
  | unsized _ hp hset => exact hs.ofDerived hp hset fun r hr => nomatch hr
  | @project v ty args _ hp hset =>
    refine hs.ofDerived hp hset fun r hr => ?_
    match args with
    | [] => cases hr
    | [_] => cases hr
    | array :: index :: rest =>
      cases hc : constant? index with
      | none => simp [element?, hc, elementOf?] at hr
      | some k =>
        simp only [element?, hc, Option.map_some, elementOf?] at hr
        obtain ⟨block, hblock, hr⟩ := Option.bind_eq_some_iff.1 hr
        obtain ⟨hblock, -⟩ := Option.filter_eq_some_iff.1 hblock
        exact (hs.table.below_of_resolveAs? (hi array List.mem_cons_self) hblock).element? hr
  | release _ _ ht hp hn =>
    have issued : s'.pool.Issued := by
      cases honored with
      | true => exact (Pool.returns_releaseBlock hs.sound.issued (hp rfl)).issued
      | false => exact hn rfl ▸ hs.sound.issued
    exact hs.ofDrawn hd issued fun _ => ht ▸ hs.table
  | unresolved => exact hs
  | copy _ hp hset =>
    exact hs.ofDerived hp hset fun r =>
      hs.table.below_of_resolveAs? (hi _ (List.mem_singleton_self _))
  | phi _ hp hset => exact hs.ofDerived hp hset fun r => hs.table.below_of_joinAs? hi
  | other => exact hs

/-- **Lowering the qubits of a function keeps its addresses below a limit**, if
the pool has no more. -/
theorem below_lower (h : (lower sole s f).failure = none) (hs : s.Below .qubit kind n)
    (hf : f.Below kind n) :
    (lower sole s f).stock.Below .qubit kind n ∧ (lower sole s f).function.Below kind n := by
  obtain ⟨ds, gone, decides, finished⟩ := exists_lowered h
  have stock : (lower sole s f).stock.Below .qubit kind n :=
    decides.invariant (P := fun s => s.Below .qubit kind n) hs fun e he s s' d hs hstep =>
      (judges_of_judge hstep).below hs
        (hf e.2 (Function.mem_instructions.2 ⟨e.1, Function.mem_visited.1 he⟩))
  refine ⟨stock, finished.below (fun v op hv x hx => ?_) fun e he =>
    hf e.2 (Function.mem_instructions.2 ⟨e.1, he⟩)⟩
  obtain ⟨r, hr, hop⟩ := Option.bind_eq_some_iff.1 hv
  exact (stock.table v r hr).operand? hop hx

end QubitLowering

namespace ResultLowering

variable {s s' : Stock} {i : Instruction} {d : Decision} {f : Function}

/-- **A step keeps below a limit** what is handed out and what is known. -/
theorem Judges.below (h : Judges s i s' d) (hs : s.Below .result kind n)
    (hi : OperandsBelow kind n i.operands) : s'.Below .result kind n := by
  have hd := h.exists_drawn
  cases h with
  | measure hp hset =>
    refine hs.ofSets hd (Pool.takes_allocate hs.sound.issued hp .result).issued hset rfl fun x hx => ?_
    exact (Pool.lt_highWater_allocate hs.sound.issued hp x).2 (.inr hx)
  | copy hp hset =>
    exact hs.ofDerived hp hset fun r =>
      hs.table.below_of_resolveAs? (hi _ (List.mem_singleton_self _))
  | phi hp hset => exact hs.ofDerived hp hset fun r => hs.table.below_of_joinAs? hi
  | other => exact hs

/-- A measurement is given an address below the limit, and it is all that stands
in its place beside the qubit. -/
theorem Judges.below_replacement (h : Judges s i s' d) (hs : s.Below .result kind n)
    (hi : OperandsBelow kind n i.operands) {j : Instruction} (hj : d.replacement? = some j) :
    OperandsBelow kind n j.operands := by
  have below := h.below hs hi
  cases h with
  | @measure v qubit handle _ hp hset =>
    cases hj
    intro op hop x hx
    have hop : op ∈ [qubit, .result handle] := hop
    rcases List.mem_pair.1 hop with rfl | rfl
    · exact hi op (List.mem_singleton_self _) x hx
    · have known := below.table v _ hset.self
      cases kind with
      | qubit => cases hx
      | result =>
        cases hx
        exact known rfl handle (Resource.mem_addresses_single.2 rfl)
  | copy | phi => simp at hj
  | other => cases hj

/-- **Lowering the results of a function keeps its addresses below a limit**, if
the pool has no more. -/
theorem below_lower (h : (lower s f).failure = none) (hs : s.Below .result kind n)
    (hf : f.Below kind n) :
    (lower s f).stock.Below .result kind n ∧ (lower s f).function.Below kind n := by
  obtain ⟨ds, gone, decides, finished⟩ := exists_lowered h
  have operands : ∀ e ∈ f.visited, OperandsBelow kind n e.2.operands := fun e he =>
    hf e.2 (Function.mem_instructions.2 ⟨e.1, Function.mem_visited.1 he⟩)
  have keeps : ∀ e ∈ f.visited, ∀ s s' d, s.Below .result kind n → judge s e.2 = (s', .ok d) →
      s'.Below .result kind n := fun e he s s' d hs hstep =>
    (judges_of_judge hstep).below hs (operands e he)
  have stock : (lower s f).stock.Below .result kind n :=
    decides.invariant (P := fun s => s.Below .result kind n) hs keeps
  refine ⟨stock, finished.below (fun v op hv x hx => ?_) fun e he => ?_⟩
  · obtain ⟨r, hr, hop⟩ := Option.bind_eq_some_iff.1 hv
    obtain ⟨hr, -⟩ := Option.filter_eq_some_iff.1 hr
    exact (stock.table v r hr).operand? hop hx
  · unfold replaced
    cases hl : (replacements ds).lookup e.1 with
    | none => exact hf e.2 (Function.mem_instructions.2 ⟨e.1, he⟩)
    | some j =>
      obtain ⟨l₁, l₂, heq, -⟩ := List.lookup_eq_some_iff.1 hl
      have hmem : (e.1, j) ∈ replacements ds := by simp [heq]
      obtain ⟨⟨x, d⟩, hd, hj⟩ := List.mem_filterMap.1 hmem
      obtain ⟨k, hj, heq⟩ := Option.map_eq_some_iff.1 hj
      cases heq
      obtain ⟨i, s₁, s₂, hi, hs₁, hstep⟩ := decides.exists_step_of_mem hs keeps hd
      exact (judges_of_judge hstep).below_replacement hs₁ (operands _ hi) hj

end ResultLowering

/-! ## Programs -/

/-- The addresses of a kind in the instructions of a program. -/
def Program.instructionAddresses (kind : ResourceKind) (p : Program) : List Handle :=
  p.instructions.flatMap fun e => e.2.operands.filterMap kind.handle?

theorem Program.forall_instructionAddresses {p : Program} {P : Handle → Prop} :
    (∀ x ∈ p.instructionAddresses kind, P x) ↔
      ∀ f ∈ p.definitions, ∀ i ∈ f.instructions, ∀ op ∈ i.operands, ∀ x,
        kind.handle? op = some x → P x := by
  simp only [instructionAddresses, List.mem_flatMap, List.mem_filterMap, forall_exists_index,
    and_imp]
  constructor
  · exact fun h f hf i hi op hop x hx => h x (f, i) (mem_instructions.2 ⟨hf, hi⟩) op hop hx
  · intro h x e he op hop hx
    obtain ⟨hf, hi⟩ := mem_instructions.1 he
    exact h e.1 hf e.2 hi op hop x hx

/-- Declarations have no instructions, so all functions may be looked at. -/
theorem Program.forall_instructionAddresses_lt {p : Program} :
    (∀ x ∈ p.instructionAddresses kind, x < n) ↔ ∀ f ∈ p.functions, f.Below kind n := by
  rw [forall_instructionAddresses]
  constructor
  · intro h f hf
    by_cases hd : f.isDeclaration
    · exact Function.below_of_declaration hd
    · exact h f (mem_definitions.2 ⟨hf, hd⟩)
  · exact fun h f hf => h f (mem_definitions.1 hf).1

/-- **Whatever either pool hands out and whatever is known is below a limit.** -/
def Context.Below (c : Context) (kind : ResourceKind) (n : ℕ) : Prop :=
  ∀ drawn, (c.stock drawn).Below drawn kind n

theorem Context.Below.withStock {c : Context} (h : c.Below kind n) {s : Stock}
    (hs : s.Below drawn kind n) : (c.withStock drawn s).Below kind n := by
  intro other
  have rest := h other
  cases drawn <;> cases other
  · exact hs
  · exact ⟨rest.sound, rest.capacity, hs.table⟩
  · exact ⟨rest.sound, rest.capacity, hs.table⟩
  · exact hs

namespace Lowering

variable {lower : Stock → Function → Lowered} {p : Program} {c : Context}

/-- **What lowering every function keeps below a limit, a run keeps below it.** -/
theorem below_run
    (keeps : ∀ s f, (lower s f).failure = none → s.Below drawn kind n → f.Below kind n →
      (lower s f).stock.Below drawn kind n ∧ (lower s f).function.Below kind n)
    (h : (run drawn lower p c).failure = none) (hc : c.Below kind n)
    (hp : ∀ f ∈ p.functions, f.Below kind n) :
    (run drawn lower p c).context.Below kind n ∧
      ∀ g ∈ (run drawn lower p c).program.functions, g.Below kind n := by
  obtain ⟨s', sweeps, hctx⟩ := sweeps_run h
  obtain ⟨hs', rel⟩ := sweeps.forall₂_of_invariant (P := fun s => s.Below drawn kind n)
    (R := fun _ g => g.Below kind n) (hc drawn) (fun f hf _ => hp f hf)
    fun f hf _ s hs hl => keeps s f hl hs (hp f hf)
  rw [hctx]
  refine ⟨hc.withStock hs', fun g hg => ?_⟩
  obtain ⟨f, -, hg⟩ := exists_left_of_forall₂ rel hg
  exact hg

/-- An entry point stays one. -/
theorem isSome_entryPoint?_run
    (same : ∀ s f, (lower s f).failure = none →
      (lower s f).function.isDeclaration = f.isDeclaration ∧
        (lower s f).function.attributes = f.attributes)
    (h : (run drawn lower p c).failure = none) (entry : p.entryPoint?.isSome) :
    (run drawn lower p c).program.entryPoint?.isSome := by
  obtain ⟨s', sweeps, -⟩ := sweeps_run h
  have rel := sweeps.forall₂ (R := fun f g => Program.isEntry g = Program.isEntry f)
    (fun _ _ _ => rfl) fun s f _ _ hl => by
      obtain ⟨hd, ha⟩ := same s f hl
      rw [Program.isEntry, hd, Function.isEntryPoint, ha]
      rfl
  obtain ⟨f, hf, hentry⟩ := List.find?_isSome.1 entry
  obtain ⟨g, hg, hsame⟩ := exists_right_of_forall₂ rel hf
  exact List.find?_isSome.2 ⟨g, hg, hsame.trans hentry⟩

end Lowering

/-- **What a pass that ends well keeps** of limits and entry points. -/
structure Pass.Keeps (kind : ResourceKind) (n : ℕ) (p : Program) (c : Context) (p' : Program)
    (c' : Context) : Prop where
  /-- There is an entry point still. -/
  entry : p.entryPoint?.isSome → p'.entryPoint?.isSome
  /-- What is below the limit stays below it. -/
  below : c.Below kind n → (∀ f ∈ p.functions, f.Below kind n) →
    c'.Below kind n ∧ ∀ f ∈ p'.functions, f.Below kind n

theorem Pass.Keeps.skipped {p : Program} {c : Context} : Pass.Keeps kind n p c p c :=
  ⟨id, fun hc hp => ⟨hc, hp⟩⟩

theorem Pass.Keeps.trans {p p₁ p' : Program} {c c₁ c' : Context}
    (h : Pass.Keeps kind n p c p₁ c₁) (k : Pass.Keeps kind n p₁ c₁ p' c') :
    Pass.Keeps kind n p c p' c' where
  entry := k.entry ∘ h.entry
  below hc hp := by
    obtain ⟨hc₁, hp₁⟩ := h.below hc hp
    exact k.below hc₁ hp₁

/-- Another declaration is in no one's way. -/
theorem Pass.Keeps.declare {p p' : Program} {c c' : Context} (h : Pass.Keeps kind n p c p' c')
    {name : String} {signature : List Ty} {returnType : Ty} :
    Pass.Keeps kind n p c (p'.declare name signature returnType) c' where
  entry entry := by
    obtain ⟨f, hf, hentry⟩ := List.find?_isSome.1 (h.entry entry)
    refine List.find?_isSome.2 ⟨f, ?_, hentry⟩
    unfold Program.declare
    split
    · exact hf
    · exact List.mem_append_left _ hf
  below hc hp := by
    obtain ⟨hc', hp'⟩ := h.below hc hp
    refine ⟨hc', Program.forall_instructionAddresses_lt.1 ?_⟩
    rw [Program.forall_instructionAddresses, Program.definitions_declare]
    exact Program.forall_instructionAddresses.1 (Program.forall_instructionAddresses_lt.2 hp')

namespace QubitLowering

variable {p p' : Program} {c c' : Context}

/-- **Lowering qubits keeps within the limits.** -/
theorem keeps_of_ends (ends : Pass.qubitLowering.Ends p c p' c') :
    Pass.Keeps kind n p c p' c' := by
  cases ends with
  | skipped => exact .skipped
  | ran _ h =>
    change (run p c).failure = none at h
    change Pass.Keeps kind n p c (run p c).program (run p c).context
    rw [run_failure] at h
    rw [run_program, run_context]
    exact ⟨isSome_entryPoint?_run
      (fun _ _ hl => ⟨isDeclaration_lower hl, attributes_lower hl⟩) h,
      below_run (fun _ _ => below_lower) h⟩

end QubitLowering

namespace ResultLowering

variable {p p' : Program} {c c' : Context}

/-- **Lowering results keeps within the limits.** -/
theorem keeps_of_ends (ends : Pass.resultLowering.Ends p c p' c') :
    Pass.Keeps kind n p c p' c' := by
  cases ends with
  | skipped => exact .skipped
  | ran _ h =>
    change (run p c).failure = none at h
    change Pass.Keeps kind n p c (run p c).program (run p c).context
    rw [run_failure] at h
    rw [run_context]
    have lowered : Pass.Keeps kind n p c (Lowering.run .result lower p c).program
        (Lowering.run .result lower p c).context :=
      ⟨isSome_entryPoint?_run
        (fun _ _ hl => ⟨isDeclaration_lower hl, attributes_lower hl⟩) h,
        below_run (fun _ _ => below_lower) h⟩
    -- the declaration of what measures into addresses has no address in it
    rcases run_program p c with hp | hp
    · rwa [hp]
    · rw [hp]
      exact lowered.declare

end ResultLowering

/-! ## What is stated -/

namespace Requirements

variable {p p' : Program} {c c' : Context}

/-- **What is needed is within a limit** if the pool has handed out no more and all
the addresses are. -/
theorem extent_le_iff : extent p c kind ≤ n ↔
    (c.pool kind).highWater ≤ n ∧ ∀ x ∈ p.instructionAddresses kind, needed x ≤ n := by
  have key : ∀ (l : List Handle) (m : ℕ),
      l.foldl (fun n h => max n (needed h)) m ≤ n ↔ m ≤ n ∧ ∀ x ∈ l, needed x ≤ n := by
    intro l
    induction l with
    | nil => simp
    | cons x l ih =>
      intro m
      rw [List.foldl_cons, ih, max_le_iff, List.forall_mem_cons, and_assoc]
  exact key _ _

/-- An address below a limit needs no more. -/
theorem needed_le {x : Handle} (h : x < n) : needed x ≤ n := (Nat.min_le_left _ _).trans h

/-- Stating the needs keeps what does not depend on attributes. -/
theorem flatMap_definitions_run {β : Type} {items : Function → List β}
    (same : ∀ f attributes, items { f with attributes := attributes } = items f) :
    (run p c).program.definitions.flatMap items = p.definitions.flatMap items := by
  have rel : List.Forall₂ (fun f g => ∃ attributes, g = { f with attributes := attributes })
      p.definitions (run p c).program.definitions := forall₂_of_ends (.ran rfl rfl)
  generalize (run p c).program.definitions = gs at rel
  generalize p.definitions = fs at rel
  induction rel with
  | nil => rfl
  | cons hfg _ ih =>
    obtain ⟨attributes, rfl⟩ := hfg
    rw [List.flatMap_cons, List.flatMap_cons, same, ih]

/-- So it keeps the addresses. -/
theorem instructionAddresses_run :
    (run p c).program.instructionAddresses kind = p.instructionAddresses kind := by
  simp only [Program.instructionAddresses, Program.instructions, List.flatMap_assoc,
    List.flatMap_map]
  exact flatMap_definitions_run fun _ _ => rfl

/-- What an entry point says that a program needs. -/
def stated? (kind : ResourceKind) (p : Program) : Option String :=
  p.entryPoint?.bind fun f => f.attribute? (needsAttribute kind)

/-- **The needs are stated at the entry point.** -/
theorem stated?_run (entry : p.entryPoint?.isSome) (kind : ResourceKind) :
    stated? kind (run p c).program = some (toString (extent p c kind)) := by
  obtain ⟨f, hf⟩ := Option.isSome_iff_exists.1 entry
  rw [stated?, entryPoint?_run hf, Option.bind_some]
  exact attribute?_withNeeds (extent p c) kind f

end Requirements

/-! ## All passes -/

/-- **Lowering qubits, then results, and stating what is needed** hands out no more
than a limit of the pools. The need that is stated is within the limit just if
those of all addresses are, and so it is if the program began with addresses below
the limit. -/
theorem Schedule.needs_run {s : Schedule}
    (hs : s.pipeline.map Prod.snd = [.qubitLowering, .resultLowering, .requirements])
    {p : Program} (entry : p.entryPoint?.isSome) {c : Context} (hc : c.Below kind n)
    (h : (s.run p c).failure = none) :
    ((s.run p c).context.pool kind).highWater ≤ n ∧
      ∃ needs : ℕ, Requirements.stated? kind (s.run p c).program = some (toString needs) ∧
        (needs ≤ n ↔
          ∀ x ∈ (s.run p c).program.instructionAddresses kind, Requirements.needed x ≤ n) ∧
        ((∀ x ∈ p.instructionAddresses kind, x < n) → needs ≤ n) := by
  obtain ⟨p₁, c₁, p₂, c₂, first, second, third⟩ := exists_ends_of_run hs h
  generalize (s.run p c).program = p' at *
  generalize (s.run p c).context = c' at *
  have keeps : Pass.Keeps kind n p c p₂ c₂ :=
    (QubitLowering.keeps_of_ends first).trans (ResultLowering.keeps_of_ends second)
  -- the pools hold to their capacities whatever addresses the program has
  have highWater : (c₂.pool kind).highWater ≤ n := by
    obtain ⟨m, hm⟩ := QubitLowering.exists_drawn_of_ends first kind
    obtain ⟨k, hk⟩ := ResultLowering.exists_drawn_of_ends second kind
    have drawn := hm.trans hk
    exact (drawn.bounded (hc kind).sound.bounded).highWater_le
      (drawn.capacity.trans ((hc kind).capacity rfl))
  have needs : Requirements.extent p₂ c₂ kind ≤ n ↔
      ∀ x ∈ p₂.instructionAddresses kind, Requirements.needed x ≤ n := by
    rw [Requirements.extent_le_iff, and_iff_right highWater]
  cases third with
  | skipped hskip => cases hskip
  | ran =>
    change _ ∧ ∃ needs : ℕ, Requirements.stated? kind (Requirements.run p₂ c₂).program = _ ∧
      (_ ↔ ∀ x ∈ (Requirements.run p₂ c₂).program.instructionAddresses kind, _) ∧ _
    rw [Requirements.instructionAddresses_run]
    refine ⟨highWater, _, Requirements.stated?_run (keeps.entry entry) kind, needs,
      fun hlt => needs.2 ?_⟩
    obtain ⟨-, below⟩ := keeps.below hc (Program.forall_instructionAddresses_lt.1 hlt)
    exact fun x hx =>
      Requirements.needed_le (Program.forall_instructionAddresses_lt.2 below x hx)

/-- Fresh pools have handed out nothing, and they are bounded by what the target
has. -/
theorem Context.below_start {target : Target} {policies : Policies}
    (h : target.capacity kind = some n) :
    (Context.start (.forTarget (some target) .qubit policies.qubits)
      (.forTarget (some target) .result policies.results) .empty).Below kind n := by
  intro drawn
  refine ⟨?_, ?_, fun v r hv => nomatch hv⟩
  · cases drawn <;> exact (Pool.Reachable.fresh _ _).sound
  · rintro rfl
    cases drawn <;> exact h

namespace Configuration

/-- **The base profile gives no address that the target does not have.** What it
says a program needs is within the limits of the target if and only if each
address in the lowered program needs no more. That is so if those which stood in
the program before were below the limits; nothing checks that they are. -/
theorem base_needs (p : Program) (entry : p.entryPoint?.isSome) (debug : Bool) (target : Target)
    (policies : Policies) :
    ∃ profile, (baseFor debug (some target) policies).build.1 = .ok profile ∧
      ((profile.apply p).failure = none →
        let lowered := (profile.apply p).program
        ∀ kind limit, target.capacity kind = some limit →
          ((profile.apply p).profile.context.pool kind).highWater ≤ limit ∧
            ∃ needs : ℕ, Requirements.stated? kind lowered = some (toString needs) ∧
              (needs ≤ limit ↔
                ∀ x ∈ lowered.instructionAddresses kind, Requirements.needed x ≤ limit) ∧
              ((∀ x ∈ p.instructionAddresses kind, x < limit) → needs ≤ limit)) :=
  ⟨.base debug (some target) policies, congrArg Prod.fst build_baseFor,
    fun h _ _ hlimit => Schedule.needs_run (Schedule.allocation_passes debug) entry
      (Context.below_start hlimit) h⟩

/-- A gate on a qubit whose address stands in the program. -/
def addressedMain (address : Handle) : Function where
  name := "main"
  params := []
  signature := []
  returnType := .void
  blocks := [
    ⟨⟨0⟩, "entry", [
      ⟨some ⟨0⟩, .qubit, .call Intrinsics.acquireQubit []⟩,
      .call "__quantum__qis__cnot__body" [.value ⟨0⟩, .qubit address]],
      some (.ret none)⟩]
  attributes := SortedMap.empty.insert Function.entryPointAttribute ""

/-- The program of that function alone. -/
def addressed (address : Handle) : Program where
  name := "addressed"
  functions := [addressedMain address]
  flags := .empty
  nextValue := 1

/-- A target with two qubits. -/
def twoQubits : Target := ⟨"small", some 2, none⟩

theorem base_needs_addressed :
    (addressed 1).entryPoint?.isSome ∧ twoQubits.capacity .qubit = some 2 ∧ ∃ profile,
      (baseFor false (some twoQubits) ⟨.noReuse, .noReuse⟩).build.1 = .ok profile ∧
        (profile.apply (addressed 1)).failure = none ∧
        ∃ needs : ℕ, Requirements.stated? .qubit (profile.apply (addressed 1)).program =
          some (toString needs) ∧ needs ≤ 2 := by
  obtain ⟨profile, built, bounds⟩ :=
    base_needs (addressed 1) (by decide) false twoQubits ⟨.noReuse, .noReuse⟩
  have same : Profile.base false (some twoQubits) ⟨.noReuse, .noReuse⟩ = profile := by
    rw [build_baseFor] at built
    exact Except.ok.inj built
  subst same
  obtain ⟨-, needs, stated, -, below⟩ := bounds rfl .qubit 2 rfl
  exact ⟨by decide, rfl, _, built, rfl, needs, stated, below (by decide)⟩

/-- **A program may need more than the target has**, if the address of a qubit
stands in it. -/
theorem addressed_needs :
    (addressed 5).entryPoint?.isSome ∧ twoQubits.capacity .qubit = some 2 ∧ ∃ profile,
      (baseFor false (some twoQubits) ⟨.noReuse, .noReuse⟩).build.1 = .ok profile ∧
        (profile.apply (addressed 5)).failure = none ∧
        Requirements.stated? .qubit (profile.apply (addressed 5)).program = some "6" :=
  ⟨by decide, rfl, _, congrArg Prod.fst build_baseFor, rfl, by decide⟩

end Configuration

end QuantumLowering
