import QuantumLowering.Intrinsics
import QuantumLowering.Proofs.Lowering.Removal
import QuantumLowering.Proofs.Program.Functions
/-!
# Lowering keeps programs well formed

What lowering may do to a function: operands become addresses,
measurements write into results, and instructions go whose values nothing
reads. `Program.LowersTo.wellFormed` says that a program all of whose
functions change in this way stays well formed, if measuring into a result
is called as it is declared.
-/


namespace QuantumLowering

/-! ## What may change -/

/-- **What an instruction may become.** -/
inductive Instruction.Follows (σ : Operand → Operand) (i : Instruction) : Instruction → Prop
  /-- It stays and its operands change. -/
  | same : Follows σ i (i.mapOperands σ)
  /-- A measurement writes into a result. -/
  | measured {qubit : Operand} {h : Handle} : i.operation = .call Intrinsics.measure [qubit] →
    Follows σ i (.call Intrinsics.measureInto [σ qubit, .result h])

/-- **What a change of a function may do.** -/
structure Function.Careful (f : Function) (fate : Site × Instruction → Option Instruction)
    (σ : Operand → Operand) : Prop where
  /-- An operand changes into a constant, if at all. -/
  operand : ∀ o v, σ o = .value v → o = .value v
  /-- An instruction becomes what it may become or goes. -/
  follows : ∀ e ∈ f.located, ∀ j, fate e = some j → e.2.Follows σ j
  /-- What measures into a result stays. -/
  stays : ∀ e ∈ f.located, e.2.isCallTo Intrinsics.measureInto → (fate e).isSome
  /-- Nothing reads a value that is no longer computed. -/
  unread : ∀ e ∈ f.located, ∀ v, e.2.result = some v →
    (∀ j, fate e = some j → j.result ≠ some v) → ¬ (f.rewrite fate σ).Reads v

/-- **A function lowers to another** if that is what a careful change makes
of it, whatever becomes of the attributes. -/
def Function.LowersTo (f g : Function) : Prop :=
  ∃ fate σ, f.Careful fate σ ∧
    ∃ attributes, g = { f.rewrite fate σ with attributes := attributes }

/-- **A program lowers to another** if its functions do, one by one. -/
def Program.LowersTo (p q : Program) : Prop :=
  List.Forall₂ Function.LowersTo p.functions q.functions

/-- **Measuring into a result is called with two arguments**, wherever it is
called and whether anything is declared of it or not. -/
def Program.PassesPairs (p : Program) : Prop :=
  ∀ f ∈ p.definitions, ∀ i ∈ f.instructions,
    i.isCallTo Intrinsics.measureInto → i.args.length = 2

instance (p : Program) : Decidable p.PassesPairs :=
  inferInstanceAs (Decidable (∀ f ∈ p.definitions, ∀ i ∈ f.instructions,
    i.isCallTo Intrinsics.measureInto → i.args.length = 2))

/-- It is declared how to measure into a result. -/
def Program.DeclaresResults (p : Program) : Prop :=
  (p.function? Intrinsics.measureInto).isSome

instance (p : Program) : Decidable p.DeclaresResults :=
  inferInstanceAs (Decidable ((p.function? Intrinsics.measureInto).isSome = true))

/-- **Measuring into a result takes two arguments** if it is declared. -/
def Program.TakesPairs (p : Program) : Prop :=
  ∀ g, p.function? Intrinsics.measureInto = some g → g.arity = 2

/-- **An instruction passes what measuring into a result takes**, if it does
that and it is declared. -/
def Program.PassesResults (p : Program) (i : Instruction) : Prop :=
  ∀ args, i.operation = .call Intrinsics.measureInto args →
    ∀ g, p.function? Intrinsics.measureInto = some g → g.arity = args.length

/-! ## Instructions -/

namespace Instruction

variable {σ : Operand → Operand} {i j : Instruction}

/-- What calls a function is a call of it. -/
theorem isCallTo_iff {name : String} : i.isCallTo name ↔ i.operation = .call name i.args := by
  obtain ⟨result, ty, operation⟩ := i
  cases operation with
  | call callee args => simp [isCallTo, callee?, Instruction.args]
  | _ => simp [isCallTo, callee?]

theorem args_eq {name : String} {args : List Operand} (h : i.operation = .call name args) :
    i.args = args := by
  simp [Instruction.args, h]

theorem isCallTo_of_eq {name : String} {args : List Operand}
    (h : i.operation = .call name args) : i.isCallTo name := by
  rw [isCallTo_iff, args_eq h, h]

theorem isPhi_mapOperands : (i.mapOperands σ).isPhi = i.isPhi := by
  obtain ⟨_, _, o⟩ := i
  cases o <;> rfl

/-- What a phi becomes is a phi, and nothing else becomes one. -/
theorem Follows.isPhi (h : i.Follows σ j) : j.isPhi = i.isPhi := by
  cases h with
  | same => exact isPhi_mapOperands
  | measured hi => simp [Instruction.isPhi, Instruction.call, hi]

/-- No value is computed anew. -/
theorem Follows.result (h : i.Follows σ j) {v : ValueId} (hv : j.result = some v) :
    i.result = some v := by
  cases h with
  | same => exact hv
  | measured => cases hv

theorem Follows.typed (h : i.Follows σ j) (hi : i.result.isSome ↔ i.type ≠ .void) :
    j.result.isSome ↔ j.type ≠ .void := by
  cases h with
  | same => exact hi
  | measured => simp [Instruction.call]

/-- No value is read anew. -/
theorem Follows.reads (hσ : ∀ o v, σ o = .value v → o = .value v) (h : i.Follows σ j)
    {v : ValueId} (hv : v ∈ readValues j.operands) : v ∈ readValues i.operands := by
  rw [mem_readValues] at hv ⊢
  cases h with
  | same =>
    rw [operands_mapOperands] at hv
    obtain ⟨o, ho, hov⟩ := List.mem_map.1 hv
    exact hσ o v hov ▸ ho
  | measured hi =>
    rename_i qubit h
    have hq : σ qubit = .value v := by
      simpa [operands, Operation.operands, Instruction.call, eq_comm] using hv
    simp [operands, Operation.operands, hi, hσ qubit v hq]

/-- A phi lists the same blocks. -/
theorem Follows.incoming (h : i.Follows σ j) {l : List (BlockId × Operand)}
    (hj : j.operation = .phi l) :
    ∃ k, i.operation = .phi k ∧ l.map Prod.fst = k.map Prod.fst := by
  cases h with
  | same =>
    obtain ⟨_, _, o⟩ := i
    cases o with
    | phi k =>
      simp only [mapOperands, Operation.mapOperands, Operation.phi.injEq] at hj
      exact ⟨k, rfl, by simp [← hj, Function.comp_def]⟩
    | _ => simp [mapOperands, Operation.mapOperands] at hj
  | measured => cases hj

/-- A call is the same call with as many arguments, or measures into a
result. -/
theorem Follows.call (h : i.Follows σ j) {callee : String} {args : List Operand}
    (hj : j.operation = .call callee args) :
    (∃ args', i.operation = .call callee args' ∧ args.length = args'.length) ∨
      (callee = Intrinsics.measureInto ∧ args.length = 2) := by
  cases h with
  | same =>
    obtain ⟨_, _, o⟩ := i
    cases o with
    | call callee' args' =>
      simp only [mapOperands, Operation.mapOperands, Operation.call.injEq] at hj
      obtain ⟨rfl, rfl⟩ := hj
      exact .inl ⟨args', rfl, by simp⟩
    | _ => simp [mapOperands, Operation.mapOperands] at hj
  | measured =>
    simp only [Instruction.call, Operation.call.injEq] at hj
    obtain ⟨rfl, rfl⟩ := hj
    exact .inr ⟨rfl, rfl⟩

/-- And a call that measures into a result stays one with as many arguments. -/
theorem Follows.exists_call (h : i.Follows σ j) {args : List Operand}
    (hi : i.operation = .call Intrinsics.measureInto args) :
    ∃ args', j.operation = .call Intrinsics.measureInto args' ∧ args'.length = args.length := by
  cases h with
  | same => exact ⟨args.map σ, by simp [mapOperands, Operation.mapOperands, hi], by simp⟩
  | measured hmeasure =>
    rw [hmeasure] at hi
    exact absurd (Operation.call.inj hi).1 (by decide)

end Instruction

/-! ## Functions -/

/-- What picks fewer items of a list picks a part of what another picks. -/
theorem filterMap_sublist {α β : Type} {g h : α → Option β} {l : List α}
    (hgh : ∀ a ∈ l, ∀ b, g a = some b → h a = some b) :
    (l.filterMap g).Sublist (l.filterMap h) := by
  induction l with
  | nil => exact .slnil
  | cons a l ih =>
    have ih := ih fun c hc => hgh c (List.mem_cons_of_mem a hc)
    cases hg : g a with
    | none =>
      rw [List.filterMap_cons_none hg]
      exact ih.trans ((List.sublist_cons_self a l).filterMap h)
    | some b =>
      rw [List.filterMap_cons_some hg,
        List.filterMap_cons_some (hgh a List.mem_cons_self b hg)]
      exact ih.cons_cons b

namespace Function

variable {f g : Function}

/-- The blocks that lead to a block depend on the shape alone. -/
theorem predecessors_congr (h : g.shape = f.shape) (b : BlockId) :
    Verify.predecessors g b = Verify.predecessors f b := by
  have key : ∀ f : Function,
      Verify.predecessors f b = (f.shape.filter fun e => b ∈ e.2).map Prod.fst := by
    intro f
    simp [Verify.predecessors, shape, List.filter_map, Function.comp_def]
  rw [key, key, h]

/-- Leaving a function as it is. -/
theorem careful_keep : f.Careful (fun e => some e.2) id where
  operand _ _ h := h
  follows e _ j hj := by
    obtain rfl := Option.some.inj hj
    simpa using Instruction.Follows.same (σ := id) (i := e.2)
  stays _ _ _ := rfl
  unread e _ v hv h := absurd hv (h e.2 rfl)

theorem LowersTo.refl (f : Function) : f.LowersTo f :=
  ⟨_, id, careful_keep, f.attributes, by rw [rewrite_id]⟩

/-- Attributes may change. -/
theorem lowersTo_setAttribute (f : Function) (attributes : SortedMap String String) :
    f.LowersTo { f with attributes := attributes } :=
  ⟨_, id, careful_keep, attributes, by rw [rewrite_id]⟩

namespace LowersTo

theorem name (h : f.LowersTo g) : g.name = f.name := by
  obtain ⟨fate, σ, -, a, rfl⟩ := h
  rfl

theorem isDeclaration (h : f.LowersTo g) : g.isDeclaration = f.isDeclaration := by
  obtain ⟨fate, σ, -, a, rfl⟩ := h
  exact isDeclaration_rewrite

theorem arity (h : f.LowersTo g) : g.arity = f.arity := by
  obtain ⟨fate, σ, -, a, rfl⟩ := h
  exact arity_rewrite

/-- No value is defined anew. -/
theorem definedValues_sublist (h : f.LowersTo g) :
    g.definedValues.Sublist f.definedValues := by
  obtain ⟨fate, σ, careful, a, rfl⟩ := h
  refine List.Sublist.append_left ?_ _
  change ((f.rewrite fate σ).instructions.filterMap Instruction.result).Sublist _
  rw [instructions_rewrite, ← map_snd_located, List.filterMap_map]
  rw [List.filterMap_filterMap]
  refine filterMap_sublist fun e he v hv => ?_
  obtain ⟨j, hj, hjv⟩ := Option.bind_eq_some_iff.1 hv
  exact (careful.follows e he j hj).result hjv

/-- What a lowered function still reads is still defined. -/
theorem mem_definedValues (h : f.LowersTo g) {v : ValueId} (hr : g.Reads v)
    (hv : v ∈ f.definedValues) : v ∈ g.definedValues := by
  obtain ⟨fate, σ, careful, a, rfl⟩ := h
  rcases List.mem_append.1 hv with hv | hv
  · exact List.mem_append_left _ hv
  · obtain ⟨i, hi, hv⟩ := List.mem_filterMap.1 hv
    obtain ⟨s, hs⟩ := mem_instructions.1 hi
    -- a value whose instruction went is not read any more
    by_contra hg
    refine careful.unread (s, i) hs v hv (fun j hj hjv => hg ?_) hr
    exact List.mem_append_right _ (List.mem_filterMap.2
      ⟨j, mem_instructions_rewrite.2 ⟨(s, i), hs, hj⟩, hjv⟩)

end LowersTo

/-- The blocks of a changed function are its blocks, each changed in its
place. -/
theorem exists_of_mem_blocks_rewrite {fate : Site × Instruction → Option Instruction}
    {σ : Operand → Operand} {b : Block} (h : b ∈ (f.rewrite fate σ).blocks) :
    ∃ (k : ℕ) (c : Block), f.blocks[k]? = some c ∧ b = c.rewrite fate σ k := by
  obtain ⟨k, hk⟩ := List.mem_iff_getElem?.1 h
  rw [getElem?_blocks_rewrite] at hk
  obtain ⟨c, hc, rfl⟩ := Option.map_eq_some_iff.1 hk
  exact ⟨k, c, hc, rfl⟩

end Function

/-- **The last step of lowering changes a function carefully** if what was
changed before it are measurements whose values have addresses, and what
measures into a result stays. -/
theorem Lowering.Finished.lowersTo {resolve : ValueId → Option Operand}
    {change : Site × Instruction → Instruction} {candidates gone : List Site} {f g : Function}
    (finished : Finished resolve change candidates f g gone)
    (hc : ∀ v o, resolve v = some o → o.isConstant)
    (hchange : ∀ e ∈ f.located, change e = e.2 ∨ ∃ v qubit handle,
      e.2 = ⟨some v, .result, .call Intrinsics.measure [qubit]⟩ ∧
        change e = .call Intrinsics.measureInto [qubit, .result handle] ∧ (resolve v).isSome)
    (hstays : ∀ e ∈ f.located, e.2.isCallTo Intrinsics.measureInto → e.1 ∉ gone) :
    f.LowersTo g := by
  suffices careful : f.Careful
      (fun e => if e.1 ∈ gone then none
        else some ((change e).mapOperands (Operand.substitute resolve)))
      (Operand.substitute resolve) by
    rw [finished.eq]
    exact ⟨_, _, careful, f.attributes, rfl⟩
  refine ⟨?operand, ?follows, ?stays, ?unread⟩
  case operand => exact fun o v hv => (Operand.substitute_eq_value hc hv).1
  case stays => exact fun e he hcall => by simp [hstays e he hcall]
  case follows =>
    intro e he j hj
    split at hj
    · cases hj
    · obtain rfl := Option.some.inj hj
      rcases hchange e he with hr | ⟨v, qubit, handle, hi, hr, -⟩
      · rw [hr]
        exact .same
      · rw [hr, hi]
        exact .measured rfl
  case unread =>
    -- a value goes with its instruction, or its measurement got an address for it
    intro e he v hv hfate
    rw [← finished.eq]
    rcases hchange e he with hr | ⟨u, qubit, handle, hi, -, hu⟩
    · by_cases hgone : e.1 ∈ gone
      · exact finished.unread e he hgone v (hr ▸ hv)
      · refine absurd ?_ (hfate _ (if_neg hgone))
        rw [Instruction.result_mapOperands, hr]
        exact hv
    · rw [hi] at hv
      obtain rfl := Option.some.inj hv
      exact finished.resolved u hu

/-! ## Programs -/

/-- **Every function of a lowered program takes as many arguments** as one
of its name did before. -/
def Program.KeepsArities (p q : Program) : Prop :=
  ∀ name g, q.function? name = some g → ∃ f, p.function? name = some f ∧ g.arity = f.arity

variable {p q : Program}

theorem Program.isSome_function?_iff {name : String} :
    (p.function? name).isSome ↔ name ∈ p.functions.map Function.name := by
  simp [Program.function?]

/-- In a well-formed program every call passes what measuring into a result takes. -/
theorem Program.WellFormed.passesResults (wf : p.WellFormed) :
    ∀ f ∈ p.definitions, ∀ i ∈ f.instructions, p.PassesResults i := by
  intro f hf i hi args hcall g hg
  obtain ⟨b, hb, hib⟩ := List.mem_flatMap.1 hi
  exact (((wf.definitions f hf).blocks b hb).instructions i hib).arity _ args hcall g hg

/-- So it passes two arguments where something is declared that takes them. -/
theorem Program.WellFormed.passesPairs (wf : p.WellFormed) (takes : p.TakesPairs)
    (declared : p.DeclaresResults) : p.PassesPairs := by
  intro f hf i hi hcall
  obtain ⟨g, hg⟩ := Option.isSome_iff_exists.1 declared
  rw [← wf.passesResults f hf i hi _ (Instruction.isCallTo_iff.1 hcall) g hg, takes g hg]

/-- And the other way round. -/
theorem Program.passesResults_of_fits (takes : p.TakesPairs)
    (fits : p.DeclaresResults → p.PassesPairs) :
    ∀ f ∈ p.definitions, ∀ i ∈ f.instructions, p.PassesResults i := by
  intro f hf i hi args hcall g hg
  have pairs := fits (Option.isSome_iff_exists.2 ⟨g, hg⟩)
  rw [takes g hg, ← Instruction.args_eq hcall]
  exact (pairs f hf i hi (Instruction.isCallTo_of_eq hcall)).symm

/-- A well-formed instruction stays well formed. -/
theorem Instruction.Follows.wellFormed {σ : Operand → Operand} {i j : Instruction}
    (h : i.Follows σ j) {f g : Function} {b c : Block} (hi : i.WellFormed p f b)
    (reads : ∀ v ∈ readValues j.operands, v ∈ g.definedValues)
    (predecessors : Verify.predecessors g c.id = Verify.predecessors f b.id)
    (arities : p.KeepsArities q) (passes : q.PassesResults j) : j.WellFormed q g c where
  typed := h.typed hi.typed
  reads := reads
  incoming l hl e he := by
    obtain ⟨k, hk, hlk⟩ := h.incoming hl
    have hmem : e.1 ∈ k.map Prod.fst := hlk ▸ List.mem_map_of_mem he
    obtain ⟨d, hd, hde⟩ := List.mem_map.1 hmem
    rw [predecessors, ← hde]
    exact hi.incoming k hk d hd
  arity callee args hcall g hg := by
    rcases h.call hcall with ⟨args', hargs, hlen⟩ | ⟨rfl, -⟩
    · obtain ⟨f, hf, har⟩ := arities callee g hg
      rw [har, hlen]
      exact hi.arity callee args' hargs f hf
    · exact passes args hcall g hg

/-- A well-formed block stays well formed. -/
theorem Function.Careful.block {f g : Function} {fate : Site × Instruction → Option Instruction}
    {σ : Operand → Operand} (careful : f.Careful fate σ) (shape : g.shape = f.shape) {k : ℕ}
    {b : Block} (hb : f.blocks[k]? = some b) (wf : b.WellFormed p f)
    (values : ∀ v ∈ f.definedValues, (f.rewrite fate σ).Reads v → v ∈ g.definedValues)
    (arities : p.KeepsArities q)
    (passes : ∀ j ∈ (b.rewrite fate σ k).instructions, q.PassesResults j) :
    (b.rewrite fate σ k).WellFormed q g := by
  have follows : ∀ e ∈ b.located k, ∀ j, fate e = some j → e.2.Follows σ j :=
    fun e he => careful.follows e (mem_located_of_block hb he)
  have member : ∀ e ∈ b.located k, e.2 ∈ b.instructions := by
    intro e he
    rw [← Block.map_snd_located (k := k)]
    exact List.mem_map_of_mem he
  have hmem : b.rewrite fate σ k ∈ (f.rewrite fate σ).blocks :=
    List.mem_of_getElem? (by rw [getElem?_blocks_rewrite, hb, Option.map_some])
  refine ⟨?_, ?_, ?_, ?_, ?_⟩
  · simpa [Block.rewrite] using wf.ends
  · intro s hs
    rw [← shape_ids, shape, shape_ids]
    exact wf.exits s (by simpa using hs)
  · intro j hj
    obtain ⟨e, he, hfate⟩ := List.mem_filterMap.1 hj
    have wi := wf.instructions e.2 (member e he)
    refine (follows e he j hfate).wellFormed wi ?_ (predecessors_congr shape _) arities
      (passes j hj)
    intro v hv
    refine values v (wi.reads v ((follows e he j hfate).reads careful.operand hv)) (.inl ?_)
    exact ⟨j, List.mem_flatMap.2 ⟨_, hmem, hj⟩, hv⟩
  · have first : (b.located k).Pairwise fun d e => e.2.isPhi → d.2.isPhi := by
      have := wf.phisFirst
      rwa [← Block.map_snd_located (k := k), List.pairwise_map] at this
    refine List.pairwise_filterMap.2 (first.imp_of_mem fun {d e} hd he hde i hi j hj => ?_)
    rw [(follows d hd i hi).isPhi, (follows e he j hj).isPhi]
    exact hde
  · intro v hv
    have hr : v ∈ readValues b.exitOperands := by
      rw [Block.exitOperands_rewrite, mem_readValues] at hv
      obtain ⟨o, ho, hov⟩ := List.mem_map.1 hv
      exact mem_readValues.2 (careful.operand o v hov ▸ ho)
    refine values v (wf.reads v hr) (.inr ?_)
    rw [mem_readValues] at hv ⊢
    exact List.mem_flatMap.2 ⟨_, hmem, hv⟩

/-- **A well-formed definition stays well formed.** -/
theorem Function.LowersTo.wellFormed {f g : Function} (h : f.LowersTo g) (wf : f.WellFormed p)
    (arities : p.KeepsArities q) (passes : ∀ j ∈ g.instructions, q.PassesResults j) :
    g.WellFormed q := by
  have values := fun v hv hr => h.mem_definedValues (v := v) hr hv
  obtain ⟨fate, σ, careful, a, rfl⟩ := h
  have shape : ({ f.rewrite fate σ with attributes := a } : Function).shape = f.shape :=
    shape_rewrite
  refine ⟨?_, fun b hb => ?_⟩
  · rw [← shape_ids, shape, shape_ids]
    exact wf.ids
  · obtain ⟨k, c, hc, rfl⟩ := exists_of_mem_blocks_rewrite hb
    exact careful.block shape hc (wf.blocks c (List.mem_of_getElem? hc)) values arities
      fun j hj => passes j (List.mem_flatMap.2 ⟨_, hb, hj⟩)

namespace Program.LowersTo

theorem refl (p : Program) : p.LowersTo p := List.forall₂_same.2 fun f _ => .refl f

/-- Each definition of a lowered program comes from a definition. -/
theorem definitions (h : p.LowersTo q) :
    List.Forall₂ Function.LowersTo p.definitions q.definitions :=
  forall₂_definitions (fun _ _ => Function.LowersTo.isDeclaration) h

theorem exists_of_mem_definitions (h : p.LowersTo q) {g : Function} (hg : g ∈ q.definitions) :
    ∃ f ∈ p.definitions, f.LowersTo g :=
  exists_left_of_forall₂ h.definitions hg

theorem names (h : p.LowersTo q) :
    q.functions.map Function.name = p.functions.map Function.name := by
  unfold Program.LowersTo at h
  generalize p.functions = fs, q.functions = gs at h ⊢
  induction h with
  | nil => rfl
  | cons hfg _ ih => simp [hfg.name, ih]

theorem exists_of_function? (h : p.LowersTo q) {name : String} {g : Function}
    (hg : q.function? name = some g) : ∃ f, p.function? name = some f ∧ f.LowersTo g := by
  unfold Program.LowersTo at h
  unfold Program.function? at hg ⊢
  generalize p.functions = fs, q.functions = gs at h hg ⊢
  induction h with
  | nil => cases hg
  | @cons f g' _ _ hfg _ ih =>
    rw [List.find?_cons] at hg ⊢
    rw [hfg.name] at hg
    by_cases hn : f.name = name
    · simp only [hn, decide_true, Option.some.injEq] at hg ⊢
      exact ⟨f, rfl, hg ▸ hfg⟩
    · simp only [hn, decide_false] at hg ⊢
      exact ih hg

theorem keepsArities (h : p.LowersTo q) : p.KeepsArities q := by
  intro name g hg
  obtain ⟨f, hf, hfg⟩ := h.exists_of_function? hg
  exact ⟨f, hf, hfg.arity⟩

/-- A function of a name is found afterwards if one was found before. -/
theorem isSome_function?_iff (h : p.LowersTo q) (name : String) :
    (q.function? name).isSome ↔ (p.function? name).isSome := by
  rw [Program.isSome_function?_iff, Program.isSome_function?_iff, h.names]

/-- And what is found takes as many arguments. -/
theorem exists_function? (h : p.LowersTo q) {name : String} {f : Function}
    (hf : p.function? name = some f) :
    ∃ g, q.function? name = some g ∧ g.arity = f.arity := by
  obtain ⟨g, hg⟩ := Option.isSome_iff_exists.1 ((h.isSome_function?_iff name).2 (hf ▸ rfl))
  obtain ⟨f', hf', harity⟩ := h.keepsArities name g hg
  obtain rfl := Option.some.inj (hf.symm.trans hf')
  exact ⟨g, hg, harity⟩

/-- No value is defined anew. -/
theorem definedValues_sublist (h : p.LowersTo q) :
    (q.definitions.flatMap Function.definedValues).Sublist
      (p.definitions.flatMap Function.definedValues) := by
  have := h.definitions
  generalize p.definitions = fs, q.definitions = gs at this ⊢
  induction this with
  | nil => exact .slnil
  | cons hfg _ ih => exact hfg.definedValues_sublist.append ih

/-- **A call that measures into a result stays**, with as many arguments. -/
theorem exists_call (h : p.LowersTo q) {f : Function} (hf : f ∈ p.definitions) {i : Instruction}
    (hi : i ∈ f.instructions) {args : List Operand}
    (hcall : i.operation = .call Intrinsics.measureInto args) :
    ∃ g ∈ q.definitions, ∃ j ∈ g.instructions, ∃ args',
      j.operation = .call Intrinsics.measureInto args' ∧ args'.length = args.length := by
  obtain ⟨g, hg, fate, σ, careful, a, rfl⟩ := exists_right_of_forall₂ h.definitions hf
  obtain ⟨x, hx⟩ := Function.mem_instructions.1 hi
  obtain ⟨j, hj⟩ := Option.isSome_iff_exists.1
    (careful.stays (x, i) hx (Instruction.isCallTo_of_eq hcall))
  exact ⟨_, hg, j, Function.mem_instructions_rewrite.2 ⟨(x, i), hx, hj⟩,
    (careful.follows (x, i) hx j hj).exists_call hcall⟩

/-- A call of a lowered program was there before with as many arguments, or measures into
a result and passes two. -/
theorem call_cases (h : p.LowersTo q) {g : Function} (hg : g ∈ q.definitions) {j : Instruction}
    (hj : j ∈ g.instructions) {callee : String} {args : List Operand}
    (hcall : j.operation = .call callee args) :
    (∃ f ∈ p.definitions, ∃ i ∈ f.instructions, ∃ args',
        i.operation = .call callee args' ∧ args.length = args'.length) ∨
      (callee = Intrinsics.measureInto ∧ args.length = 2) := by
  obtain ⟨f, hf, fate, σ, careful, a, rfl⟩ := h.exists_of_mem_definitions hg
  obtain ⟨e, he, hfate⟩ := Function.mem_instructions_rewrite.1 hj
  rcases (careful.follows e he j hfate).call hcall with ⟨args', hargs', hlen⟩ | two
  · exact .inl ⟨f, hf, e.2, Function.mem_instructions.2 ⟨e.1, he⟩, args', hargs', hlen⟩
  · exact .inr two

/-- **Lowering neither mends a call that measures into a result nor spoils one.** -/
theorem passesPairs_iff (h : p.LowersTo q) : q.PassesPairs ↔ p.PassesPairs := by
  constructor
  · intro pairs f hf i hi hcall
    obtain ⟨g, hg, j, hj, args, hcall', hlen⟩ :=
      h.exists_call hf hi (Instruction.isCallTo_iff.1 hcall)
    rw [← hlen, ← Instruction.args_eq hcall']
    exact pairs g hg j hj (Instruction.isCallTo_of_eq hcall')
  · intro pairs g hg j hj hcall
    rcases h.call_cases hg hj (Instruction.isCallTo_iff.1 hcall) with
      ⟨f, hf, i, hi, args, hcall', hlen⟩ | ⟨-, hlen⟩
    · rw [hlen, ← Instruction.args_eq hcall']
      exact pairs f hf i hi (Instruction.isCallTo_of_eq hcall')
    · exact hlen

theorem takesPairs (h : p.LowersTo q) (takes : p.TakesPairs) : q.TakesPairs := by
  intro g hg
  obtain ⟨f, hf, harity⟩ := h.keepsArities _ g hg
  exact harity.trans (takes f hf)

/-- **If a lowered program passes what measuring into a result takes**, so did the program
before. -/
theorem passesResults (h : p.LowersTo q)
    (passes : ∀ g ∈ q.definitions, ∀ j ∈ g.instructions, q.PassesResults j) :
    ∀ f ∈ p.definitions, ∀ i ∈ f.instructions, p.PassesResults i := by
  intro f hf i hi args hcall callee hcallee
  obtain ⟨callee', hcallee', harity⟩ := h.exists_function? hcallee
  obtain ⟨g, hg, j, hj, args', hcall', hlen⟩ := h.exists_call hf hi hcall
  rw [← harity, ← hlen]
  exact passes g hg j hj args' hcall' callee' hcallee'

/-- **A lowered program is well formed** if the program is, and whoever
measures into a result passes what that takes. -/
theorem wellFormed_of_passes (h : p.LowersTo q) (wf : p.WellFormed)
    (passes : ∀ g ∈ q.definitions, ∀ j ∈ g.instructions, q.PassesResults j) : q.WellFormed where
  names := h.names ▸ wf.names
  values := wf.values.sublist h.definedValues_sublist
  definitions g hg := by
    obtain ⟨f, hf, hfg⟩ := h.exists_of_mem_definitions hg
    exact hfg.wellFormed (wf.definitions f hf) h.keepsArities (passes g hg)

/-- So it is if whatever measures into a result takes two arguments, and gets them. -/
theorem wellFormed (h : p.LowersTo q) (wf : p.WellFormed) (takes : p.TakesPairs)
    (fits : q.DeclaresResults → q.PassesPairs) : q.WellFormed :=
  h.wellFormed_of_passes wf (Program.passesResults_of_fits (h.takesPairs takes) fits)

end Program.LowersTo

end QuantumLowering
