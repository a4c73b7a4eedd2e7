import QuantumLowering.Proofs.Custody.Reuse
/-!
# Arrays are lowered value by value

Lowering decides every value for itself. Of an array whose size is not
constant nothing is known, and so nothing is known of what comes from it:
it stays with all of its releases and elements. An array of constant size
has a block of addresses; it is released and its elements are addressed
wherever they can be told, whether or not it has to stay because something
that is left reads it (`QubitLowering.arrays_by_value`).
-/


namespace QuantumLowering

open Lowering

/-! ## What a value comes from -/

/-- The operands that the value of an instruction comes from: what is copied or
joined, or the array of an element. -/
def Instruction.sources (i : Instruction) : List Operand :=
  match i.operation with
  | .copy source => [source]
  | .phi incoming => incoming.map Prod.snd
  | .call callee args => if callee = Intrinsics.arrayElement then args.head?.toList else []

/-- **A value comes from another one** by copies, phis and elements. -/
def Function.ComesFrom (f : Function) : ValueId → ValueId → Prop :=
  Relation.ReflTransGen fun w u =>
    ∃ i ∈ f.instructions, i.result = some u ∧ .value w ∈ i.sources

namespace QubitLowering

variable {honored sole : Bool} {s s' : Stock} {i : Instruction} {d : Decision} {f g : Function}
variable {u v w : ValueId} {ds : List (Site × Decision)} {gone : List Site}

theorem elementOf?_eq_none {t : Tracker} (hw : t.resolveAs? .qubit (.value w) = none)
    {args : List Operand} (hargs : .value w ∈ args.head?.toList) :
    elementOf? t (element? args) = none := by
  match args with
  | [] => cases hargs
  | [_] => rfl
  | array :: index :: rest =>
    obtain rfl : Operand.value w = array := by simpa using hargs
    cases hc : constant? index with
    | none => simp [element?, hc, elementOf?]
    | some k => simp [element?, hc, elementOf?, hw]

/-- **What comes from an unknown value is unknown.** -/
theorem Judges.unknown_of_sources (h : Judges honored s i s' d) (hu : i.result = some u)
    (hi : .value w ∈ i.sources) (new : s.tracker.resolve? u = none)
    (hw : s.tracker.resolve? w = none) : s'.tracker.resolve? u = none := by
  have unknown : s.tracker.resolveAs? .qubit (.value w) = none := by
    rw [Tracker.resolveAs?, Tracker.resolveOperand?_value, hw]
    rfl
  have qubits : Intrinsics.acquireQubit ≠ Intrinsics.arrayElement := by decide
  have arrays : Intrinsics.acquireArray ≠ Intrinsics.arrayElement := by decide
  cases h with
  | acquire => simp [Instruction.sources, qubits] at hi
  | acquireArray | unsized => simp [Instruction.sources, arrays] at hi
  | project _ hset =>
    obtain rfl := Option.some.inj hu
    rw [hset.self]
    exact elementOf?_eq_none unknown (by simpa [Instruction.sources] using hi)
  | release | unresolved => cases hu
  | copy _ _ hset =>
    obtain rfl := Option.some.inj hu
    obtain rfl := List.mem_singleton.1 hi
    rw [hset.self, unknown]
  | phi _ _ hset =>
    obtain rfl := Option.some.inj hu
    rw [hset.self]
    refine Option.eq_none_iff_forall_ne_some.2 fun r hr => ?_
    have known := (Tracker.joinAs?_eq_some_iff.1 hr).2 (.value w) hi
    rw [unknown] at known
    cases known
  | other => exact new

/-- A release of an unknown value gives nothing back. -/
theorem Judges.stays_of_unknown (h : Judges honored s i s' d)
    (hi : i.releases? = some (.value u)) (hu : s.tracker.resolve? u = none) : d = .stays := by
  cases h with
  | release hc known =>
    rw [Instruction.releases?_call hc] at hi
    obtain rfl := Option.some.inj hi
    rw [Tracker.resolveAs?, Tracker.resolveOperand?_value, hu] at known
    cases known
  | unresolved | other => rfl
  | _ => simp at hi

/-- An array whose size is not constant is unknown. -/
theorem unsized_of_judge {ty : Ty} {args : List Operand}
    (h : judge honored s ⟨some v, ty, .call Intrinsics.acquireArray args⟩ = (s', .ok d))
    (hsize : args.head?.bind constant? = none) :
    d = .unsized v ∧ s'.tracker.resolve? v = none := by
  have hrole : role ⟨some v, ty, .call Intrinsics.acquireArray args⟩ = .acquireArray v none := by
    rw [← hsize]
    rfl
  rw [judge, hrole] at h
  obtain ⟨_, hd, rfl⟩ := Draw.map_eq_ok h
  exact ⟨rfl, (Stock.derive_eq_ok hd).2.1.self⟩

/-- A release goes if it is known what it releases. -/
theorem Judges.isDroppable_iff_of_releases (h : Judges honored s i s' d)
    (hi : i.releases?.isSome) : d.isDroppable ↔ ∃ r, d = .released r := by
  cases h with
  | release => simp [Decision.isDroppable]
  | unresolved | other => simp [Decision.isDroppable]
  | _ => simp at hi

/-- What is handed something may go. -/
theorem isDroppable_of_given {given : ValueId × Resource} (h : d.given? = some given) :
    d.isDroppable := by
  cases d with
  | acquired | acquiredArray => rfl
  | _ => cases h

/-! ## One function -/

/-- **A function is lowered value by value**: some instructions go, and in what is
left addresses stand in place of values. -/
structure ByValue (t : Tracker) (ds : List (Site × Decision)) (gone : List Site)
    (σ : Operand → Operand) (f g : Function) : Prop where
  /-- This is what becomes of the function. -/
  eq : g = f.rewrite (fun e => if e.1 ∈ gone then none else some (e.2.mapOperands σ)) σ
  /-- An address stands in place of every value for which there is one. -/
  uses : ∀ u ∈ f.definedValues, σ (.value u) = (address? t u).getD (.value u)
  /-- Other operands stay. -/
  constants : ∀ o, o.isConstant → σ o = o
  /-- A release goes if it is known what it releases. -/
  releases : ∀ e ∈ f.located, e.2.releases?.isSome →
    (e.1 ∈ gone ↔ ∃ r, (e.1, .released r) ∈ ds)

/-- **An array stays as it is**, with all that comes from it. -/
structure Untouched (t : Tracker) (ds : List (Site × Decision)) (gone : List Site)
    (σ : Operand → Operand) (f : Function) (x : Site) (v : ValueId) : Prop where
  /-- It is still acquired. -/
  stays : x ∉ gone
  /-- It is not known which addresses it and its elements have. -/
  unknown : ∀ u, f.ComesFrom v u → t.resolve? u = none
  /-- No address stands in their place. -/
  uses : ∀ u, f.ComesFrom v u → σ (.value u) = .value u
  /-- No release of them goes, and none gives a handle back. -/
  releases : ∀ u, f.ComesFrom v u → ∀ e ∈ f.located, e.2.releases? = some (.value u) →
    e.1 ∉ gone ∧ ∀ r, (e.1, .released r) ∉ ds

/-- What is unknown in the end was unknown at every visit, where nothing was known
at the start of what the function defines. -/
theorem unknown_at_visit {s₁ s₂ : Stock} {e : Site × Instruction}
    (visit : Decides.Visit (judge honored) s f ds s' e s₁ s₂ d)
    (new : ∀ v ∈ f.definedValues, s.tracker.resolve? v = none)
    (hu : s'.tracker.resolve? u = none) : s₁.tracker.resolve? u = none := by
  rcases visit.others u with ⟨hmem, h⟩ | h
  · rw [h, new u hmem]
  · rw [← h, hu]

section Function

variable (decides : Decides (judge honored) s f.visited ds s') (nodup : f.definedValues.Nodup)

include decides nodup

/-- **Functions are lowered value by value.** -/
theorem byValue_of_finished
    (finished : Finished (address? s'.tracker) Prod.snd
      ((ds.filter fun d => d.2.isDroppable).map Prod.fst) f g gone) :
    ByValue s'.tracker ds gone (Operand.substitute (address? s'.tracker)) f g where
  eq := finished.eq
  uses _ _ := rfl
  constants _ ho := Operand.substitute_constant ho
  releases e he hi := by
    obtain ⟨s₁, s₂, d, visit⟩ := decides.exists_visit frames_judge nodup he
    have droppable := (judges_of_judge visit.step).isDroppable_iff_of_releases hi
    simp only [visit.decision]
    constructor
    · intro hgone
      obtain ⟨r, hr⟩ := droppable.1 ((mem_picked visit.decision).1 (finished.chosen e.1 hgone))
      exact ⟨r, hr.symm⟩
    · rintro ⟨r, hr⟩
      refine finished.mem_gone visit he (droppable.2 ⟨r, hr.symm⟩) fun v hv => ?_
      rw [Instruction.result_of_releases hi] at hv
      cases hv

/-- **What is acquired goes unless something that is left reads it.** -/
theorem mem_gone_iff_of_acquires
    (finished : Finished (address? s'.tracker) Prod.snd
      ((ds.filter fun d => d.2.isDroppable).map Prod.fst) f g gone)
    {e : Site × Instruction} (he : e ∈ f.located) {held : Holding}
    (ha : e.2.acquires? = some (v, held)) : e.1 ∈ gone ↔ ¬ g.Reads v := by
  obtain ⟨s₁, s₂, d, visit⟩ := decides.exists_visit frames_judge nodup he
  have hv := Instruction.result_of_acquires ha
  constructor
  · exact fun hgone => finished.unread e he hgone v hv
  · intro unread
    by_contra hstays
    obtain ⟨base, hd, -⟩ := (judges_of_judge visit.step).of_acquires ha
    have candidate := (mem_picked visit.decision).2 (isDroppable_of_given hd)
    obtain ⟨u, hu, reads⟩ := finished.kept e he candidate hstays
    obtain rfl := Option.some.inj (hv.symm.trans hu)
    exact unread reads

variable (new : ∀ v ∈ f.definedValues, s.tracker.resolve? v = none)

include new

/-- **Whatever comes from an unknown value is unknown.** -/
theorem unknown_of_comesFrom (h : f.ComesFrom v u) (hv : s'.tracker.resolve? v = none) :
    s'.tracker.resolve? u = none := by
  induction h with
  | refl => exact hv
  | @tail w u _ hstep ih =>
    obtain ⟨i, hi, hu, hw⟩ := hstep
    obtain ⟨x, he⟩ := Function.mem_instructions.1 hi
    obtain ⟨s₁, s₂, d, visit⟩ := decides.exists_visit frames_judge nodup he
    rw [visit.result u hu]
    exact (judges_of_judge visit.step).unknown_of_sources hu hw
      ((visit.new u hu).trans (new u (Function.result_mem_definedValues he hu)))
      (unknown_at_visit visit new ih)

/-- **An array whose size is not constant stays as it is.** -/
theorem untouched_of_finished
    (finished : Finished (address? s'.tracker) Prod.snd
      ((ds.filter fun d => d.2.isDroppable).map Prod.fst) f g gone)
    {x : Site} {ty : Ty} {args : List Operand}
    (hx : (x, ⟨some v, ty, .call Intrinsics.acquireArray args⟩) ∈ f.located)
    (hsize : args.head?.bind constant? = none) :
    Untouched s'.tracker ds gone (Operand.substitute (address? s'.tracker)) f x v := by
  obtain ⟨s₁, s₂, d, visit⟩ := decides.exists_visit frames_judge nodup hx
  obtain ⟨rfl, hv⟩ := unsized_of_judge visit.step hsize
  have unknown : ∀ u, f.ComesFrom v u → s'.tracker.resolve? u = none := fun u hu =>
    unknown_of_comesFrom decides nodup new hu ((visit.result v rfl).trans hv)
  refine ⟨finished.not_mem_gone (P := Decision.isDroppable) visit rfl, unknown, fun u hu => ?_,
    fun u hu e he hi => ?_⟩
  · rw [Operand.substitute_value, address?, unknown u hu]
    rfl
  · obtain ⟨s₁, s₂, d, visit⟩ := decides.exists_visit frames_judge nodup he
    obtain rfl := (judges_of_judge visit.step).stays_of_unknown hi
      (unknown_at_visit visit new (unknown u hu))
    refine ⟨finished.not_mem_gone (P := Decision.isDroppable) visit rfl, fun r hr => ?_⟩
    cases (visit.decision _).1 hr

end Function

/-- What comes from a value that a function defines, the function defines. -/
theorem mem_definedValues_of_comesFrom (h : f.ComesFrom v u) (hv : v ∈ f.definedValues) :
    u ∈ f.definedValues := by
  cases h with
  | refl => exact hv
  | tail _ hstep =>
    obtain ⟨i, hi, hu, -⟩ := hstep
    exact List.mem_append_right _ (List.mem_filterMap.2 ⟨i, hi, hu⟩)

/-- Lowering by value depends on what is known of the values that the function
defines. -/
theorem ByValue.congr {t t' : Tracker} {σ : Operand → Operand} (h : ByValue t ds gone σ f g)
    (ht : ∀ u ∈ f.definedValues, t'.resolve? u = t.resolve? u) : ByValue t' ds gone σ f g where
  eq := h.eq
  uses u hu := by
    rw [h.uses u hu, address?, address?, ht u hu]
  constants := h.constants
  releases := h.releases

theorem Untouched.congr {t t' : Tracker} {σ : Operand → Operand} {x : Site}
    (h : Untouched t ds gone σ f x v) (hv : v ∈ f.definedValues)
    (ht : ∀ u ∈ f.definedValues, t'.resolve? u = t.resolve? u) :
    Untouched t' ds gone σ f x v where
  stays := h.stays
  unknown u hu := by
    rw [ht u (mem_definedValues_of_comesFrom hu hv), h.unknown u hu]
  uses := h.uses
  releases := h.releases

/-! ## Programs -/

/-- **Arrays are lowered value by value.** An array whose size is not constant is left
as it is. One of constant size has a block of addresses and goes unless something
that is left reads it; its releases and its elements are lowered wherever it is known
what they are, whether it goes or not. -/
theorem arrays_by_value (p : Program) (hp : p.verify = .ok ()) (c : Context)
    (hc : c.tracker = .empty) (h : (run p c).failure = none) :
    List.Forall₂ (fun f g => ∃ s gone σ,
      Sweeps.Turn (lower (managers p ≤ 1)) (c.stock .qubit) p.functions
          ((run p c).context.stock .qubit) f g s ∧
        ByValue (run p c).context.tracker (plan (managers p ≤ 1) s f).decisions gone σ f g ∧
        ∀ x v ty args, (x, ⟨some v, ty, .call Intrinsics.acquireArray args⟩) ∈ f.located →
          (args.head?.bind constant? = none →
            Untouched (run p c).context.tracker (plan (managers p ≤ 1) s f).decisions gone σ f x
              v) ∧
          ∀ n, args.head?.bind constant? = some n →
            (∃ base, (run p c).context.tracker.resolve? v = some (.block .qubit base n)) ∧
              (x ∈ gone ↔ ¬ g.Reads v))
      p.definitions (run p c).program.definitions := by
  have nodup := (Program.verify_eq_ok_iff.1 hp).values
  rw [run_failure] at h
  rw [run_program, run_context]
  obtain ⟨s', hctx, -, turns⟩ :=
    exists_turns frames_lower (fun _ _ => isDeclaration_lower) nodup h
  rw [hctx]
  refine forall₂_imp_of_mem turns fun f hf g ⟨s, turn⟩ => ?_
  have inside : f.definedValues.Nodup := (List.nodup_flatMap.1 nodup).1 f hf
  have new : ∀ u ∈ f.definedValues, s.tracker.resolve? u = none := fun u hu => by
    rw [turn.new u hu]
    exact congrArg (Tracker.resolve? · u) hc
  obtain ⟨ds, gone, decides, finished⟩ := exists_lowered turn.failure
  obtain rfl : (plan (managers p ≤ 1) s f).decisions = ds := decides.decisions_decideAll
  rw [← turn.function] at finished
  refine ⟨s, gone, _, turn, (byValue_of_finished decides inside finished).congr turn.result,
    fun x v ty args hx => ?_⟩
  have hv : v ∈ f.definedValues := Function.result_mem_definedValues hx rfl
  refine ⟨fun hsize => ?_, fun n hn => ?_⟩
  · exact (untouched_of_finished decides inside new finished hx hsize).congr hv turn.result
  · have ha : Instruction.acquires? ⟨some v, ty, .call Intrinsics.acquireArray args⟩ =
        some (v, .array v n) := by simp [hn]
    obtain ⟨base, -, hbase⟩ :=
      exists_given decides inside (Function.mem_instructions.2 ⟨x, hx⟩) ha
    refine ⟨⟨base, (turn.result v hv).trans ?_⟩,
      mem_gone_iff_of_acquires decides inside finished hx ha⟩
    rw [hbase, Holding.qubits, List.length_map, List.length_range]

/-! ## An array that is read at an unknown index -/

/-- An array is acquired, two of its elements are used, one of them at an index that
is not known, and the array is released. -/
def indexedMain (size : Operand) : Function where
  name := "main"
  params := [⟨⟨0⟩, .int⟩]
  signature := []
  returnType := .void
  blocks := [
    ⟨⟨0⟩, "entry", [
      ⟨some ⟨1⟩, .array, .call Intrinsics.acquireArray [size]⟩,
      ⟨some ⟨2⟩, .qubit, .call Intrinsics.arrayElement [.value ⟨1⟩, .int 0]⟩,
      ⟨some ⟨3⟩, .qubit, .call Intrinsics.arrayElement [.value ⟨1⟩, .value ⟨0⟩]⟩,
      .call "__quantum__qis__h__body" [.value ⟨2⟩],
      .call "__quantum__qis__h__body" [.value ⟨3⟩],
      .call Intrinsics.releaseArray [.value ⟨1⟩]],
      some (.ret none)⟩]
  attributes := .empty

/-- The program of that function alone. -/
def indexed (size : Operand) : Program where
  name := "indexed"
  functions := [indexedMain size]
  flags := .empty
  nextValue := 4

theorem arrays_by_value_indexed :
    (indexed (.value ⟨0⟩)).verify = .ok () ∧ reusing.tracker = .empty ∧
      (run (indexed (.value ⟨0⟩)) reusing).failure = none ∧
      ∃ g ∈ (run (indexed (.value ⟨0⟩)) reusing).program.definitions, ∃ ds gone σ,
        ByValue (run (indexed (.value ⟨0⟩)) reusing).context.tracker ds gone σ
            (indexedMain (.value ⟨0⟩)) g ∧
          Untouched (run (indexed (.value ⟨0⟩)) reusing).context.tracker ds gone σ
            (indexedMain (.value ⟨0⟩)) ⟨0, 0⟩ ⟨1⟩ := by
  have verified : (indexed (.value ⟨0⟩)).verify = .ok () := by decide
  have runs : (run (indexed (.value ⟨0⟩)) reusing).failure = none := by
    rw [(run_eq_plan (f := indexedMain (.value ⟨0⟩)) rfl rfl reusing).1]
    cbv
  have lowered := arrays_by_value (indexed (.value ⟨0⟩)) verified reusing rfl runs
  obtain ⟨g, hg, s, gone, σ, -, byValue, arrays⟩ :=
    exists_right_of_forall₂ lowered (List.mem_singleton_self (indexedMain (.value ⟨0⟩)))
  have acquired : ((⟨0, 0⟩, ⟨some ⟨1⟩, .array, .call Intrinsics.acquireArray [.value ⟨0⟩]⟩) :
      Site × Instruction) ∈ (indexedMain (.value ⟨0⟩)).located := by decide
  exact ⟨verified, rfl, runs, g, hg, _, gone, σ, byValue, (arrays _ _ _ _ acquired).1 rfl⟩

/-- With two elements, all is known but the element at the unknown index. -/
theorem plan_indexed :
    (plan true (reusing.stock .qubit) (indexedMain (.int 2))).decisions =
        [(⟨0, 0⟩, .acquiredArray ⟨1⟩ 0 2), (⟨0, 1⟩, .known), (⟨0, 2⟩, .stays), (⟨0, 3⟩, .stays),
          (⟨0, 4⟩, .stays), (⟨0, 5⟩, .released (.block .qubit 0 2))] ∧
      (plan true (reusing.stock .qubit) (indexedMain (.int 2))).stock.tracker =
        ⟨((SortedMap.empty.insert ⟨1⟩ (.known (.block .qubit 0 2))).insert ⟨2⟩
          (.known (.single .qubit 0))).insert ⟨3⟩ .unknown, [⟨.qubit, 0, 2, ⟨1⟩⟩]⟩ ∧
      (plan true (reusing.stock .qubit) (indexedMain (.int 2))).failure = none := by
  refine ⟨?_, ?_, ?_⟩ <;> cbv

/-- **An array can stay without its release**: one of its elements has an address, the
other one is still read from it, and all of its handles are given back. -/
theorem indexed_half_lowered :
    (indexed (.int 2)).verify = .ok () ∧ reusing.tracker = .empty ∧
      reusing.qubits = .fresh .reuse none ∧
      (run (indexed (.int 2)) reusing).failure = none ∧
      (run (indexed (.int 2)) reusing).program.functions.map Function.instructions = [[
        ⟨some ⟨1⟩, .array, .call Intrinsics.acquireArray [.int 2]⟩,
        ⟨some ⟨3⟩, .qubit, .call Intrinsics.arrayElement [.value ⟨1⟩, .value ⟨0⟩]⟩,
        .call "__quantum__qis__h__body" [.qubit 0],
        .call "__quantum__qis__h__body" [.value ⟨3⟩]]] ∧
      (run (indexed (.int 2)) reusing).context.qubits.highWater = 2 ∧
      (run (indexed (.int 2)) reusing).context.qubits.live = 0 := by
  obtain ⟨decisions, tracker, failure⟩ := plan_indexed
  have lone : (indexed (.int 2)).functions = [indexedMain (.int 2)] := rfl
  obtain ⟨runs, context⟩ := run_eq_plan lone rfl reusing
  have functions : (run (indexed (.int 2)) reusing).program.functions =
      [(lower true (reusing.stock .qubit) (indexedMain (.int 2))).function] :=
    functions_run_eq_lower lone rfl failure
  refine ⟨by decide, rfl, rfl, runs.trans failure, ?_, ?_, ?_⟩
  · rw [functions, List.map_singleton, lower_function failure, decisions, tracker]
    decide
  · rw [context]
    cbv
  · rw [context]
    cbv

end QubitLowering

end QuantumLowering
