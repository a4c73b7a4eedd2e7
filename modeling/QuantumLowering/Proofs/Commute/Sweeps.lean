import QuantumLowering.Proofs.Commute.Functions
import QuantumLowering.Proofs.Compliance.Passes
import QuantumLowering.Proofs.Pass.Skipping
/-!
# Lowering definitions in either order

Two runs over the definitions of a program, one after the other. Each run
alone tells how the other one goes on after it, definition by definition
(`Lowering.Sweeps.both`), so the order does not matter as long as lowering
results does not change whether a definition calls itself
(`ResultLowering.callee?`).
-/


namespace QuantumLowering

open Lowering

/-! ## What lowering results keeps -/

/-- A function branches afterwards if it did before. -/
theorem QubitLowering.isStraight_rewrite {f : Function}
    {fate : Site × Instruction → Option Instruction} {σ : Operand → Operand} :
    isStraight (f.rewrite fate σ) = isStraight f := by
  have conditional : ∀ t : Terminator, (t.mapOperands σ).isConditional = t.isConditional := by
    intro t
    cases t <;> rfl
  have block : ∀ b k, (Block.rewrite fate σ k b).terminator.any Terminator.isConditional =
      b.terminator.any Terminator.isConditional := by
    intro b k
    cases hb : b.terminator <;> simp [Block.rewrite, hb, conditional]
  have blocks : (f.rewrite fate σ).blocks = f.blocks.zipIdx.map fun e => e.1.rewrite fate σ e.2 :=
    rfl
  unfold isStraight
  rw [blocks, List.any_map]
  congr 1
  conv_rhs => rw [← List.zipIdx_map_fst 0 f.blocks, List.any_map]
  exact congrArg (List.any _) (funext fun e => block e.1 e.2)

namespace ResultLowering

variable {s : Stock} {f : Function}

/-- What an instruction calls once results are lowered. -/
def callee? (i : Instruction) : Option String :=
  if isMeasurement i then some Intrinsics.measureInto else i.callee?

/-- An instruction that copies or joins is no measurement and calls nothing. -/
theorem callee?_of_moves {i : Instruction} (h : i.callee? = none) : callee? i = none := by
  rw [callee?, if_neg fun hm => ?_, h]
  obtain ⟨v, qubit, rfl⟩ := isMeasurement_iff.1 hm
  cases h

/-- **Lowering results keeps what a function calls**, but for its measurements. -/
theorem gather_callee_lower (nodup : f.definedValues.Nodup) (h : (lower s f).failure = none) :
    (lower s f).function.gather Instruction.callee? = f.gather callee? := by
  obtain ⟨ds, gone, decides, finished⟩ := exists_lowered h
  rw [finished.eq, Function.gather, Function.gather, Function.instructions_rewrite,
    ← Function.map_snd_located, List.filterMap_filterMap, List.filterMap_map]
  refine List.filterMap_congr fun e he => ?_
  obtain ⟨s₁, s₂, d, visit⟩ := decides.exists_visit frames_judge nodup he
  have hr := replaced_eq visit.decision
  have stays (hd : d ≠ .known) : e.1 ∉ gone :=
    finished.not_mem_gone (P := fun d => d = .known) visit (decide_eq_false hd)
  have moves (hi : e.2.callee? = none) (hr : d.replacement? = none) :
      (if e.1 ∈ gone then none
        else some ((replaced ds e).mapOperands (Operand.substitute
          (address? (lower s f).stock.tracker)))).bind Instruction.callee? = callee? e.2 := by
    rw [callee?_of_moves hi, replaced_eq visit.decision, hr]
    split
    · rfl
    · exact (Instruction.callee?_mapOperands _ _).trans hi
  have judged := judges_of_judge visit.step
  obtain ⟨x, i⟩ := e
  cases judged with
  | measure =>
    rw [if_neg (stays (by simp)), hr]
    rfl
  | copy => exact moves rfl (replacement?_derived _)
  | phi => exact moves rfl (replacement?_derived _)
  | other hrole =>
    rw [if_neg (stays (by simp)), hr]
    refine (Instruction.callee?_mapOperands _ _).trans ?_
    simp [callee?, isMeasurement, hrole, Decision.replacement?]

/-- So it keeps whether the function manages qubits. -/
theorem managesQubits_lower (nodup : f.definedValues.Nodup) (h : (lower s f).failure = none) :
    (lower s f).function.managesQubits = f.managesQubits := by
  have manages : ∀ f : Function, f.managesQubits =
      (f.gather Instruction.callee?).any Intrinsics.isQubitManagement := by
    intro f
    simp only [Function.managesQubits, Function.gather, List.any_filterMap]
    rfl
  rw [manages, gather_callee_lower nodup h, Function.gather, List.any_filterMap,
    Function.managesQubits]
  refine congrArg (List.any _) (funext fun i => ?_)
  by_cases hm : isMeasurement i
  · -- neither measurement is for the management of qubits
    have same : Intrinsics.isQubitManagement Intrinsics.measureInto =
        Intrinsics.isQubitManagement Intrinsics.measure := by decide
    obtain ⟨v, qubit, rfl⟩ := isMeasurement_iff.1 hm
    exact same
  · rw [callee?, if_neg hm]
    cases hi : i.callee? <;> simp [Instruction.managesQubits, hi]

/-- Whether releases count does not change if a function calls itself afterwards
just when it did before, wherever that matters. -/
theorem honors_lower (sole : Bool) (pool : Pool) (nodup : f.definedValues.Nodup)
    (h : (lower s f).failure = none)
    (recursion : sole = true → pool.policy = .reuse → QubitLowering.isStraight f →
      (f.name ∈ f.gather callee? ↔ f.name ∈ f.gather Instruction.callee?)) :
    QubitLowering.honors sole pool (lower s f).function = QubitLowering.honors sole pool f := by
  have calls : ∀ f : Function, QubitLowering.callsItself f =
      decide (f.name ∈ f.gather Instruction.callee?) := by
    intro f
    rw [Bool.eq_iff_iff]
    simp [QubitLowering.callsItself, Function.gather, Instruction.isCallTo]
  have straight : QubitLowering.isStraight (lower s f).function = QubitLowering.isStraight f := by
    obtain ⟨ds, gone, -, finished⟩ := exists_lowered h
    rw [finished.eq]
    exact QubitLowering.isStraight_rewrite
  unfold QubitLowering.honors
  rw [straight, calls, calls, gather_callee_lower nodup h, (lowersTo nodup h).name]
  by_cases matters : sole = true ∧ pool.policy = .reuse ∧ QubitLowering.isStraight f
  · obtain ⟨hsole, hp, hstraight⟩ := matters
    rw [decide_eq_decide.2 (recursion hsole hp hstraight)]
  · have never : (pool.reuses && sole && QubitLowering.isStraight f) = false := by
      simp only [Bool.eq_false_iff, ne_eq, Bool.and_eq_true, Pool.reuses, decide_eq_true_eq]
      rintro ⟨⟨hp, hsole⟩, hstraight⟩
      exact matters ⟨hsole, hp, hstraight⟩
    rw [never, Bool.false_and, Bool.false_and]

end ResultLowering

namespace Lowering

/-- Steps that do the same for the instructions of a run decide the same. -/
theorem decideAll_congr {α : Type} {step step' : Stock → Instruction → Draw α} {s : Stock}
    {l : List (Site × Instruction)} (h : ∀ e ∈ l, ∀ s, step s e.2 = step' s e.2) :
    decideAll step s l = decideAll step' s l := by
  induction l generalizing s with
  | nil => rfl
  | cons e l ih =>
    have rest := fun s => ih (s := s) fun d hd => h d (List.mem_cons_of_mem e hd)
    unfold decideAll
    rw [h e List.mem_cons_self s]
    simp only [rest]

end Lowering

namespace QubitLowering

variable {sole : Bool} {s s' u : Stock} {f : Function}

/-- Where nothing manages qubits no release counts. -/
theorem plan_of_unmanaged (h : f.managesQubits = false) :
    plan sole s f = decideAll (judge false) s f.visited := by
  refine decideAll_congr fun e he s => ?_
  have hi : e.2.managesQubits = false := by
    simpa using List.any_eq_false.1 h e.2
      (Function.mem_instructions.2 ⟨e.1, Function.mem_visited.1 he⟩)
  unfold judge
  obtain ⟨v, element, hr⟩ | ⟨v, source, hr⟩ | ⟨v, sources, hr⟩ | hr := role_of_unmanaged hi
  all_goals rw [hr]; rfl

/-- **Releases count alike** before and after lowering results, if the function calls
itself afterwards just when it did before, wherever that matters. -/
theorem honorsAlike_lower (sole : Bool) (same : s'.pool = s.pool) (nodup : f.definedValues.Nodup)
    (h : (ResultLowering.lower u f).failure = none)
    (recursion : sole = true → s.pool.policy = .reuse → f.managesQubits → isStraight f →
      (f.name ∈ f.gather ResultLowering.callee? ↔ f.name ∈ f.gather Instruction.callee?)) :
    HonorsAlike sole s s' f (ResultLowering.lower u f).function := by
  by_cases hm : f.managesQubits
  · refine ⟨honors sole s.pool f, rfl, ?_⟩
    rw [plan, same, ResultLowering.honors_lower sole s.pool nodup h fun hsole hp =>
      recursion hsole hp hm]
  · rw [Bool.not_eq_true] at hm
    exact ⟨false, plan_of_unmanaged hm,
      plan_of_unmanaged ((ResultLowering.managesQubits_lower nodup h).trans hm)⟩

end QubitLowering

/-! ## One definition -/

/-- **A definition that both kinds can be lowered in**, where they bind values of
their own. -/
structure Function.Fits (Bq Br : List ValueId) (f : Function) : Prop where
  /-- Its values are told apart. -/
  nodup : f.definedValues.Nodup
  /-- What names qubits is for the one kind. -/
  qubits : ∀ i ∈ f.instructions, ∀ v, QubitLowering.binds? i = some v → v ∈ Bq
  /-- What names results is for the other. -/
  results : ∀ i ∈ f.instructions, ∀ v, ResultLowering.binds? i = some v → v ∈ Br
  /-- Its instructions read its values. -/
  instructions : ∀ i ∈ f.instructions, ∀ v, .value v ∈ i.operands → v ∈ f.definedValues
  /-- So do its terminators. -/
  exits : ∀ v, .value v ∈ f.exitOperands → v ∈ f.definedValues

/-- Every definition of a well-formed program is one. -/
theorem Program.WellFormed.fits {p : Program} (wf : p.WellFormed) {f : Function}
    (hf : f ∈ p.definitions) :
    f.Fits (p.gather QubitLowering.binds?) (p.gather ResultLowering.binds?) where
  nodup := wf.nodup_definedValues hf
  qubits i hi _ hv := mem_gather.2 ⟨f, hf, i, hi, hv⟩
  results i hi _ hv := mem_gather.2 ⟨f, hf, i, hi, hv⟩
  instructions _ hi _ hv := wf.instruction_reads hf hi (mem_readValues.2 hv)
  exits v hv := by
    obtain ⟨b, hb, hv⟩ := List.mem_flatMap.1 hv
    exact ((wf.definitions f hf).blocks b hb).reads v (mem_readValues.2 hv)

section Definition

variable {Bq Br : List ValueId} {Tq Tr : Tracker} {sole : Bool} {s s' u u' : Stock} {f : Function}

variable (fits : f.Fits Bq Br) (disjoint : ∀ v ∈ Bq, v ∉ Br)
variable (holdsq : s.tracker.Holds (fun r => r.kind = .qubit) Bq)
variable (holdsr : u.tracker.Holds Resource.IsResult Br)

include fits

include holdsq in
theorem QubitLowering.holds_lower (hq : (lower sole s f).failure = none) :
    (lower sole s f).stock.tracker.Holds (fun r => r.kind = .qubit) Bq := by
  obtain ⟨_, _, decides, -⟩ := exists_lowered hq
  exact holds_decides decides holdsq fits.qubits

include holdsr in
theorem ResultLowering.holds_lower (hr : (lower u f).failure = none) :
    (lower u f).stock.tracker.Holds Resource.IsResult Br := by
  obtain ⟨_, _, decides, -⟩ := exists_lowered hr
  exact holds_decides decides holdsr fits.results

include disjoint

include holdsq in
/-- **After qubits, results are drawn as they are alone.** -/
theorem ResultLowering.beside_lower (apart : ∀ v, Tq.resolveAs? .result (.value v) = none)
    (beside : u.Beside Br Tq u') (hq : (QubitLowering.lower sole s f).failure = none) :
    (lower u' (QubitLowering.lower sole s f).function).failure = (lower u f).failure ∧
      (lower u f).stock.Beside Br Tq (lower u' (QubitLowering.lower sole s f).function).stock := by
  obtain ⟨ds, gone, decides, finished⟩ := QubitLowering.exists_lowered hq
  have follows := follows_plan decides finished fits.nodup
    (QubitLowering.holds_lower fits holdsq hq) disjoint fits.results apart beside
  rw [lower_failure, lower_failure, lower_stock, lower_stock]
  exact ⟨follows.failure, follows.stock⟩

include holdsr in
/-- **After results, qubits are drawn as they are alone**, if releases count as
before. -/
theorem QubitLowering.beside_lower (apart : ∀ v, Tr.resolveAs? .qubit (.value v) = none)
    (beside : s.Beside Bq Tr s') (hr : (ResultLowering.lower u f).failure = none)
    (honors : HonorsAlike sole s s' f (ResultLowering.lower u f).function) :
    (lower sole s' (ResultLowering.lower u f).function).failure = (lower sole s f).failure ∧
      (lower sole s f).stock.Beside Bq Tr
        (lower sole s' (ResultLowering.lower u f).function).stock := by
  obtain ⟨ds, gone, decides, finished⟩ := ResultLowering.exists_lowered hr
  have follows := follows_plan decides finished fits.nodup
    (ResultLowering.holds_lower fits holdsr hr) (fun v hr hq => disjoint v hq hr) fits.qubits apart
    beside honors
  rw [lower_failure, lower_failure, lower_stock, lower_stock]
  exact ⟨follows.failure, follows.stock⟩

include holdsq holdsr in
/-- **Both orders make the same of a definition.** -/
theorem Lowering.lower_comm (apartq : ∀ v, Tq.resolveAs? .result (.value v) = none)
    (apartr : ∀ v, Tr.resolveAs? .qubit (.value v) = none) (besideq : s.Beside Bq Tr s')
    (besider : u.Beside Br Tq u') (hq : (QubitLowering.lower sole s f).failure = none)
    (hr : (ResultLowering.lower u f).failure = none)
    (honors : QubitLowering.HonorsAlike sole s s' f (ResultLowering.lower u f).function)
    (known : ∀ v ∈ f.definedValues,
      Tr.resolve? v = (ResultLowering.lower u f).stock.tracker.resolve? v) :
    (QubitLowering.lower sole s' (ResultLowering.lower u f).function).function =
      (ResultLowering.lower u' (QubitLowering.lower sole s f).function).function := by
  obtain ⟨dr, goner, decidesr, finishedr⟩ := ResultLowering.exists_lowered hr
  have holdsq' := QubitLowering.holds_lower fits holdsq hq
  have holdsr' := ResultLowering.holds_lower fits holdsr hr
  have decidesq := QubitLowering.decides_plan (QubitLowering.lower_failure sole s f ▸ hq)
  rw [← QubitLowering.lower_stock] at decidesq
  rw [QubitLowering.lower_after_results decidesr finishedr fits.nodup holdsr'
      (fun v hr hq => disjoint v hq hr) fits.qubits apartr besideq honors known fits.instructions
      fits.exits holdsr fits.results hq,
    ResultLowering.lower_after_qubits decidesq (QubitLowering.finished_lower hq) fits.nodup holdsq'
      disjoint fits.results apartq besider hr decidesr finishedr holdsr']

end Definition

/-! ## Two runs over definitions -/

namespace Lowering

variable {lx ly : Stock → Function → Lowered} {s s' t u u' s₁ t₁ u₁ : Stock}
variable {fs gs hs ks : List Function}

/-- What a run does to the functions is what was recorded of it. -/
theorem Sweeps.sweep_eq (h : Sweeps lx s fs gs s₁) :
    (sweep lx s fs).failure = none ∧ (sweep lx s fs).functions = gs ∧
      (sweep lx s fs).stock = s₁ := by
  induction h with
  | nil => exact ⟨rfl, rfl, rfl⟩
  | declaration hd _ ih =>
    obtain ⟨failure, functions, stock⟩ := ih
    simp only [sweep, hd, if_true, failure, functions, stock, and_self]
  | definition hd hl _ ih =>
    obtain ⟨failure, functions, stock⟩ := ih
    simp only [sweep, hd, if_false, hl, failure, functions, stock, and_self, Bool.false_eq_true]

/-- **A run that ends well after another one ends well alone**, if every
definition does while `R` relates the three stocks. -/
theorem Sweeps.exists_alone {R : Stock → Stock → Stock → Prop} (h : Sweeps lx t fs gs t₁)
    (k : Sweeps ly s' gs hs s₁) (hR : R t s s')
    (declarations : ∀ t f, (lx t f).failure = none →
      (lx t f).function.isDeclaration = f.isDeclaration)
    (kept : ∀ f ∈ fs, ¬ f.isDeclaration → ∀ t s s', R t s s' → (lx t f).failure = none →
      (ly s' (lx t f).function).failure = none →
        (ly s f).failure = none ∧
          R (lx t f).stock (ly s f).stock (ly s' (lx t f).function).stock) :
    ∃ ks s₁, Sweeps ly s fs ks s₁ := by
  induction h generalizing s s' hs with
  | nil => exact ⟨[], s, .nil s⟩
  | @declaration t t₁ f fs gs hd h ih =>
    cases k with
    | definition hnd => exact absurd hd hnd
    | declaration _ k =>
      obtain ⟨ks, s₂, rest⟩ := ih k hR fun g hg => kept g (List.mem_cons_of_mem _ hg)
      exact ⟨_, s₂, .declaration hd rest⟩
  | @definition t t₁ f fs gs hd hl h ih =>
    cases k with
    | declaration hd' => exact absurd (declarations t f hl ▸ hd') hd
    | definition _ hl' k =>
      obtain ⟨hl₁, hR₁⟩ := kept f List.mem_cons_self hd t s s' hR hl hl'
      obtain ⟨ks, s₂, rest⟩ := ih k hR₁ fun g hg => kept g (List.mem_cons_of_mem _ hg)
      exact ⟨_, s₂, .definition hd hl₁ rest⟩

/-- **Two runs that end well alone do so one after the other**, in either order
and with the same functions, if both orders make the same of every definition
while `R` relates the four stocks. There the second run has found the values
of the definition for good. -/
theorem Sweeps.both {R : Stock → Stock → Stock → Stock → Prop} (h : Sweeps lx s fs gs s₁)
    (k : Sweeps ly u fs ks u₁) (hR : R s u s' u') (frames : Frames ly)
    (nodup : (definedBy fs).Nodup)
    (declarations : ∀ s f, (lx s f).failure = none →
      (lx s f).function.isDeclaration = f.isDeclaration)
    (declarations' : ∀ u f, (ly u f).failure = none →
      (ly u f).function.isDeclaration = f.isDeclaration)
    (kept : ∀ f ∈ fs, ¬ f.isDeclaration → ∀ s u s' u', R s u s' u' → (lx s f).failure = none →
      (ly u f).failure = none →
      (∀ v ∈ f.definedValues, u₁.tracker.resolve? v = (ly u f).stock.tracker.resolve? v) →
        (ly u' (lx s f).function).failure = none ∧ (lx s' (ly u f).function).failure = none ∧
          (lx s' (ly u f).function).function = (ly u' (lx s f).function).function ∧
          R (lx s f).stock (ly u f).stock (lx s' (ly u f).function).stock
            (ly u' (lx s f).function).stock) :
    ∃ hs s₁' u₁', Sweeps ly u' gs hs u₁' ∧ Sweeps lx s' ks hs s₁' ∧ R s₁ u₁ s₁' u₁' := by
  induction h generalizing u s' u' ks with
  | nil =>
    cases k
    exact ⟨[], s', u', .nil _, .nil _, hR⟩
  | @declaration s s₁ f fs gs hd h ih =>
    cases k with
    | definition hnd => exact absurd hd hnd
    | declaration _ k =>
      rw [definedBy_cons_declaration hd] at nodup
      obtain ⟨hs, s₁', u₁', hy, hx, hR₁⟩ :=
        ih k hR nodup fun g hg => kept g (List.mem_cons_of_mem _ hg)
      exact ⟨f :: hs, s₁', u₁', .declaration hd hy, .declaration hd hx, hR₁⟩
  | @definition s s₁ f fs gs hd hl h ih =>
    cases k with
    | declaration hd' => exact absurd hd' hd
    | definition _ hl' k =>
      rw [definedBy_cons hd] at nodup
      obtain ⟨-, nodup', apart⟩ := List.nodup_append.1 nodup
      obtain ⟨hy, hx, same, hR₁⟩ := kept f List.mem_cons_self hd s u s' u' hR hl hl'
        fun v hv => k.frame frames fun hmem => apart v hv v hmem rfl
      obtain ⟨hs, s₁', u₁', resty, restx, hR₂⟩ :=
        ih k hR₁ nodup' fun g hg => kept g (List.mem_cons_of_mem _ hg)
      refine ⟨_, s₁', u₁', .definition ?_ hy resty, same ▸ .definition ?_ hx restx, hR₂⟩
      · rwa [declarations s f hl]
      · rwa [declarations' u f hl']

end Lowering

end QuantumLowering
