import QuantumLowering.Lowering.Requirements
import QuantumLowering.Pass.Checks
import QuantumLowering.Proofs.Demand.Steps
import QuantumLowering.Proofs.Lowering.WellFormed
/-!
# Sound passes

A pass is sound if it keeps programs well formed where it ends well, and
never fails for the structure of a program. There is one exception: it may
declare how to measure into a result, and then other calls of that name may
be wrong. Every pass of this library is sound (`Pass.sound_of_mem_builtin`).
For the two that lower, this comes down to `Function.LowersTo`: what they make
of a function is a careful change.
-/


namespace QuantumLowering

/-! ## What a sound pass does -/

/-- A failure that blames the structure of a program. -/
def Failure.Structural : Failure → Prop
  | .program _ | .verification _ _ => True
  | _ => False

/-- **What is known of a program** while passes run, be it well formed or not. -/
structure Program.Tidy (p : Program) : Prop where
  /-- No value is defined twice. -/
  values : (p.definitions.flatMap Function.definedValues).Nodup
  /-- Measuring into a result takes two arguments. -/
  takes : p.TakesPairs

/-- **A sound pass.** -/
structure Pass.Sound (pass : Pass) : Prop where
  /-- It keeps programs tidy where it ends well, and the calls that measure into results. -/
  keeps : ∀ p c, p.Tidy → (pass.run p c).failure = none →
    (pass.run p c).program.Tidy ∧ ((pass.run p c).program.PassesPairs ↔ p.PassesPairs)
  /-- It keeps them well formed, unless what it declares makes such a call wrong. -/
  wellFormed : ∀ p c, p.TakesPairs → p.WellFormed → (pass.run p c).failure = none →
    ((pass.run p c).program.DeclaresResults → (pass.run p c).program.PassesPairs) →
      (pass.run p c).program.WellFormed
  /-- It does not fail for the structure of a well-formed program. -/
  fails : ∀ p c, p.WellFormed → ∀ e, (pass.run p c).failure = some e → ¬ e.Structural
  /-- What is declared stays declared. -/
  declares : ∀ p c, p.DeclaresResults → (pass.run p c).program.DeclaresResults
  /-- Where it fails, it declares nothing. -/
  undeclared : ∀ p c e, (pass.run p c).failure = some e →
    (pass.run p c).program.DeclaresResults → p.DeclaresResults

theorem Program.Tidy.lowersTo {p q : Program} (h : p.Tidy) (hq : p.LowersTo q) : q.Tidy :=
  ⟨h.values.sublist hq.definedValues_sublist, hq.takesPairs h.takes⟩

theorem Program.declaresResults_congr {p q : Program}
    (h : q.functions.map Function.name = p.functions.map Function.name) :
    q.DeclaresResults ↔ p.DeclaresResults := by
  rw [DeclaresResults, DeclaresResults, isSome_function?_iff, isSome_function?_iff, h]

/-- **A pass is sound if it lowers programs** wherever it ends well, keeps the names of
functions and never fails for the structure of a well-formed program. -/
theorem Pass.Sound.of_lowersTo {pass : Pass}
    (lowers : ∀ p c, (pass.run p c).failure = none → p.LowersTo (pass.run p c).program)
    (names : ∀ p c, (pass.run p c).program.functions.map Function.name =
      p.functions.map Function.name)
    (fails : ∀ p c, p.WellFormed → ∀ e, (pass.run p c).failure = some e → ¬ e.Structural) :
    pass.Sound where
  keeps p c tidy h := ⟨tidy.lowersTo (lowers p c h), (lowers p c h).passesPairs_iff⟩
  wellFormed p c takes wf h fits := (lowers p c h).wellFormed wf takes fits
  fails := fails
  declares p c := (Program.declaresResults_congr (names p c)).2
  undeclared p c _ _ := (Program.declaresResults_congr (names p c)).1

/-! ## Failures of lowering -/

/-- A draw that does not fail for the structure of a program. -/
def Draw.Harmless {α : Type} (d : Draw α) : Prop := ∀ e, d.2 = .error e → ¬ e.Structural

namespace Draw.Harmless

variable {α β : Type}

theorem map {d : Draw α} (h : d.Harmless) (g : α → β) : (d.map g).Harmless := by
  intro e he
  obtain ⟨s, x⟩ := d
  cases x with
  | error e' =>
    obtain rfl : e' = e := by simpa [Draw.map, Except.map] using he
    exact h e' rfl
  | ok a => simp [Draw.map, Except.map] at he

theorem ok {s : Stock} {a : α} : Draw.Harmless (s, .ok a) := by
  intro e he
  cases he

theorem keep {s : Stock} {kind : ResourceKind} {record : Handle → Tracker.Reply Unit}
    {drawn : Pool.Reply Handle} : Draw.Harmless (s.keep kind record drawn) := by
  intro e he
  unfold Stock.keep at he
  split at he
  · cases he
    exact id
  · split at he
    · cases he
    · cases he
      exact id

theorem derive {s : Stock} {v : ValueId} {r : Option Resource} :
    Draw.Harmless (s.derive v r) := by
  intro e he
  unfold Stock.derive at he
  split at he
  · cases he
  · cases he
    exact id

theorem release {s : Stock} {r : Resource} : Draw.Harmless (s.release r) := by
  intro e he
  unfold Stock.release at he
  split at he
  · cases he
  · cases he
    exact id

/-- No step fails for the structure of a program. -/
theorem of_effect {s : Stock} {kind : ResourceKind} {gives : Resource → Prop}
    {asks : Option (ValueId × ℕ)} {binds : Option ValueId} {d : Draw α}
    (h : s.Effect kind gives asks binds d) : d.Harmless := by
  cases h with
  | acquire g | acquireBlock g => exact keep.map g
  | derive g => exact derive.map g
  | release g => exact release.map g
  | still => exact ok

end Draw.Harmless

theorem QubitLowering.harmless_judge (honored : Bool) (s : Stock) (i : Instruction) :
    (judge honored s i).Harmless :=
  .of_effect (effect_judge honored s i)

theorem ResultLowering.harmless_judge (s : Stock) (i : Instruction) : (judge s i).Harmless :=
  .of_effect (effect_judge s i)

namespace Lowering

theorem decideAll_not_structural {α : Type} {step : Stock → Instruction → Draw α}
    (hstep : ∀ s i, (step s i).Harmless) {s : Stock} {l : List (Site × Instruction)}
    {e : Failure} (h : (decideAll step s l).failure = some e) : ¬ e.Structural := by
  induction l generalizing s with
  | nil => cases h
  | cons d l ih =>
    unfold decideAll at h
    split at h
    · exact ih h
    · rename_i hs
      cases h
      exact hstep s d.2 _ (congrArg Prod.snd hs)

theorem sweep_not_structural {lower : Stock → Function → Lowered}
    (hlower : ∀ s f e, (lower s f).failure = some e → ¬ e.Structural) {s : Stock}
    {fs : List Function} {e : Failure} (h : (sweep lower s fs).failure = some e) :
    ¬ e.Structural := by
  induction fs generalizing s with
  | nil => cases h
  | cons f fs ih =>
    unfold sweep at h
    split at h
    · exact ih h
    · simp only at h
      split at h
      · rename_i hl
        cases h
        exact hlower s f e hl
      · exact ih h

end Lowering

theorem QubitLowering.lower_not_structural {sole : Bool} {s : Stock} {f : Function} {e : Failure}
    (h : (lower sole s f).failure = some e) : ¬ e.Structural := by
  unfold lower at h
  simp only at h
  split at h
  · rename_i hp
    cases h
    exact Lowering.decideAll_not_structural (harmless_judge _) hp
  · cases h

theorem ResultLowering.lower_not_structural {s : Stock} {f : Function} {e : Failure}
    (h : (lower s f).failure = some e) : ¬ e.Structural := by
  unfold lower at h
  simp only at h
  split at h
  · rename_i hp
    cases h
    exact Lowering.decideAll_not_structural harmless_judge hp
  · cases h

/-! ## What lowering makes of a function -/

namespace QubitLowering

/-- **The last step of lowering qubits changes a function carefully.** -/
theorem lowersTo_of_finished {honored : Bool} {s s' : Stock} {t : Tracker} {f g : Function}
    {ds : List (Site × Decision)} {gone : List Site}
    (decides : Lowering.Decides (judge honored) s f.visited ds s')
    (finished : Lowering.Finished (address? t) Prod.snd
      ((ds.filter fun d => d.2.isDroppable).map Prod.fst) f g gone) : f.LowersTo g := by
  refine finished.lowersTo (fun _ _ => address?_isConstant) (fun _ _ => .inl rfl) fun e he hcall =>
    finished.not_mem_gone_of_forall (P := Decision.isDroppable) decides he fun s₁ s₂ d hd => ?_
  -- what measures into a result means nothing for qubits
  rw [judge, role_of_isCallTo (by decide) (by decide) hcall] at hd
  cases hd
  rfl

/-- **Lowering qubits changes a function carefully.** -/
theorem lowersTo {sole : Bool} {s : Stock} {f : Function} (h : (lower sole s f).failure = none) :
    f.LowersTo (lower sole s f).function := by
  obtain ⟨ds, gone, decides, finished⟩ := exists_lowered h
  exact lowersTo_of_finished decides finished

end QubitLowering

/-- **Lowering results changes a function carefully.** A measurement that
is replaced got an address for its value, so nothing reads the value any
more. -/
theorem ResultLowering.lowersTo {s : Stock} {f : Function} (nodup : f.definedValues.Nodup)
    (h : (lower s f).failure = none) : f.LowersTo (lower s f).function := by
  obtain ⟨ds, gone, decides, finished⟩ := exists_lowered h
  refine finished.lowersTo (fun _ _ => address?_isConstant) (fun e he => ?_) fun e he hcall => ?_
  · obtain ⟨s₁, s₂, d, visit⟩ := decides.exists_visit frames_judge nodup he
    have htable := visit.result
    have hr := replaced_eq visit.decision
    have hj := judges_of_judge visit.step
    generalize e.2 = i at hj htable hr ⊢
    cases hj with
    | @measure v qubit handle _ _ ht =>
      refine .inr ⟨v, qubit, handle, rfl, hr, ?_⟩
      rw [address?_of_single ((htable v rfl).trans ht.self)]
      rfl
    | copy => exact .inl (by rw [hr, replacement?_derived]; rfl)
    | phi => exact .inl (by rw [hr, replacement?_derived]; rfl)
    | other => exact .inl hr
  · refine finished.not_mem_gone_of_forall (P := fun d => d = .known) decides he
      fun s₁ s₂ d hd => ?_
    -- only copies and phis are dropped, and a call is neither
    have hj := judges_of_judge hd
    generalize e.2 = i at hj hcall
    cases hj with
    | copy | phi => cases hcall
    | measure | other => rfl

/-! ## The passes -/

section

variable {kind : ResourceKind} {lower : Stock → Function → Lowered} {p : Program} {c : Context}

/-- A run over a program that ends well lowers the program, if lowering a
definition is a careful change of it. -/
theorem Lowering.run_lowersTo
    (hlower : ∀ s, ∀ f ∈ p.definitions, (lower s f).failure = none →
      f.LowersTo (lower s f).function)
    (h : (run kind lower p c).failure = none) :
    p.LowersTo (run kind lower p c).program := by
  refine (sweeps_sweep h).forall₂ (fun f _ _ => .refl f) fun s f hf hd => hlower s f ?_
  exact Program.mem_definitions.2 ⟨hf, hd⟩

/-- Lowering the qubits of a program changes it carefully. -/
theorem QubitLowering.run_lowersTo (h : (run p c).failure = none) :
    p.LowersTo (run p c).program := by
  rw [run_failure] at h
  rw [run_program]
  exact Lowering.run_lowersTo (fun s f _ => lowersTo) h

/-- So does lowering its results, before anything is declared. -/
theorem ResultLowering.run_lowersTo
    (values : (p.definitions.flatMap Function.definedValues).Nodup)
    (h : (run p c).failure = none) :
    p.LowersTo (Lowering.run .result ResultLowering.lower p c).program :=
  Lowering.run_lowersTo (fun _ f hf => lowersTo ((List.nodup_flatMap.1 values).1 f hf))
    ((run_failure p c).symm.trans h)

end

theorem Pass.sound_qubitLowering : Pass.qubitLowering.Sound := by
  refine .of_lowersTo (fun p c => QubitLowering.run_lowersTo) (fun p c => ?_) fun p c _ e h => ?_
  · change (QubitLowering.run p c).program.functions.map Function.name = _
    rw [QubitLowering.run_program]
    exact Lowering.names_run fun _ _ => QubitLowering.name_lower
  · change (QubitLowering.run p c).failure = some e at h
    rw [QubitLowering.run_failure] at h
    exact Lowering.sweep_not_structural (fun _ _ _ => QubitLowering.lower_not_structural) h

/-- A definition stays well formed in a program where its calls pass what
their callees take. -/
theorem Function.WellFormed.of_arity {p q : Program} {f : Function} (h : f.WellFormed p)
    (arity : ∀ i ∈ f.instructions, ∀ callee args, i.operation = .call callee args →
      ∀ g, q.function? callee = some g → g.arity = args.length) : f.WellFormed q where
  ids := h.ids
  blocks b hb := by
    have wf := h.blocks b hb
    refine ⟨wf.ends, wf.exits, fun i hi => ?_, wf.phisFirst, wf.reads⟩
    have wi := wf.instructions i hi
    exact ⟨wi.typed, wi.reads, wi.incoming, arity i (List.mem_flatMap.2 ⟨b, hb, hi⟩)⟩

/-- Declaring how to measure into a result keeps a program well formed, if every
call passes what that takes afterwards. -/
theorem Program.WellFormed.declare {p : Program} (h : p.WellFormed)
    (passes : ∀ f ∈ p.definitions, ∀ i ∈ f.instructions,
      (p.declare Intrinsics.measureInto [.qubit, .result] .void).PassesResults i) :
    (p.declare Intrinsics.measureInto [.qubit, .result] .void).WellFormed := by
  refine ⟨nodup_names_declare _ _ _ h.names, ?_, fun f hf => ?_⟩
  · rw [definitions_declare]
    exact h.values
  · rw [definitions_declare] at hf
    refine (h.definitions f hf).of_arity fun i hi callee args hcall g hg => ?_
    rcases function?_declare _ _ _ hg with hg' | ⟨rfl, -⟩
    · obtain ⟨b, hb, hib⟩ := List.mem_flatMap.1 hi
      exact (((h.definitions f hf).blocks b hb).instructions i hib).arity callee args hcall g hg'
    · exact passes f hf i hi args hcall g hg

section Declare

variable {p : Program}

/-- What is declared takes two arguments. -/
theorem Program.TakesPairs.declare (h : p.TakesPairs) :
    (p.declare Intrinsics.measureInto [.qubit, .result] .void).TakesPairs := by
  intro g hg
  rcases Program.function?_declare _ _ _ hg with hg | ⟨-, rfl⟩
  · exact h g hg
  · rfl

theorem Program.passesPairs_declare :
    (p.declare Intrinsics.measureInto [.qubit, .result] .void).PassesPairs ↔ p.PassesPairs := by
  rw [PassesPairs, PassesPairs, definitions_declare]

theorem Program.Tidy.declare (h : p.Tidy) :
    (p.declare Intrinsics.measureInto [.qubit, .result] .void).Tidy :=
  ⟨by rw [Program.definitions_declare]; exact h.values, h.takes.declare⟩

theorem Program.declaresResults_declare :
    (p.declare Intrinsics.measureInto [.qubit, .result] .void).DeclaresResults := by
  unfold DeclaresResults Program.declare
  cases h : p.function? Intrinsics.measureInto with
  | some f => rw [h]; rfl
  | none => simp [function?, Function.declaration]

end Declare

/-- Before anything is declared by it, lowering results keeps what is declared. -/
theorem ResultLowering.declaresResults_run {p : Program} {c : Context} :
    (Lowering.run .result lower p c).program.DeclaresResults ↔ p.DeclaresResults :=
  Program.declaresResults_congr (Lowering.names_run fun _ _ => name_lower)

/-- **Lowering results is sound.** Where it declares how to measure into a result, the
program is well formed if every call passes two arguments. -/
theorem Pass.sound_resultLowering : Pass.resultLowering.Sound where
  keeps p c tidy h := by
    change (ResultLowering.run p c).failure = none at h
    change (ResultLowering.run p c).program.Tidy ∧
      ((ResultLowering.run p c).program.PassesPairs ↔ p.PassesPairs)
    have lowers := ResultLowering.run_lowersTo tidy.values h
    rcases ResultLowering.run_program p c with hr | hr
    · rw [hr]
      exact ⟨tidy.lowersTo lowers, lowers.passesPairs_iff⟩
    · rw [hr, Program.passesPairs_declare]
      exact ⟨(tidy.lowersTo lowers).declare, lowers.passesPairs_iff⟩
  wellFormed p c takes wf h fits := by
    change (ResultLowering.run p c).failure = none at h
    change (ResultLowering.run p c).program.WellFormed
    change (ResultLowering.run p c).program.DeclaresResults →
      (ResultLowering.run p c).program.PassesPairs at fits
    have lowers := ResultLowering.run_lowersTo wf.values h
    rcases ResultLowering.run_program p c with hr | hr
    · rw [hr] at fits ⊢
      exact lowers.wellFormed wf takes fits
    · rw [hr] at fits ⊢
      have pairs := Program.passesPairs_declare.1 (fits Program.declaresResults_declare)
      have wf' := lowers.wellFormed wf takes fun _ => pairs
      refine wf'.declare ?_
      rw [← Program.definitions_declare Intrinsics.measureInto [.qubit, .result] .void]
      exact Program.passesResults_of_fits (lowers.takesPairs takes).declare fits
  fails p c _ e h := by
    change (ResultLowering.run p c).failure = some e at h
    rw [ResultLowering.run_failure] at h
    exact Lowering.sweep_not_structural (fun _ _ _ => ResultLowering.lower_not_structural) h
  declares p c declared := by
    change (ResultLowering.run p c).program.DeclaresResults
    rcases ResultLowering.run_program p c with hr | hr
    · rw [hr]
      exact ResultLowering.declaresResults_run.2 declared
    · rw [hr]
      exact Program.declaresResults_declare
  undeclared p c e h := by
    change (ResultLowering.run p c).program.DeclaresResults → _
    rw [ResultLowering.run_eq_of_failure h]
    exact ResultLowering.declaresResults_run.1

/-- Stating what is needed changes attributes and flags alone. -/
theorem Requirements.run_lowersTo (p : Program) (c : Context) :
    p.LowersTo (Pass.requirements.run p c).program :=
  p.forall₂_updateEntryPoint .refl fun f => f.lowersTo_setAttribute _

theorem Pass.sound_requirements : Pass.requirements.Sound :=
  .of_lowersTo (fun p c _ => Requirements.run_lowersTo p c)
    (fun p c => (Requirements.run_lowersTo p c).names) fun p c _ e h => by cases h

theorem Pass.verify_run {p : Program} (h : p.WellFormed) (c : Context) :
    (Pass.verify.run p c).program = p ∧ (Pass.verify.run p c).failure = none := by
  simp [Pass.verify, Program.verify_eq_ok_iff.2 h]

theorem Pass.program_verify (p : Program) (c : Context) : (Pass.verify.run p c).program = p := by
  simp only [Pass.verify]
  split <;> rfl

theorem Pass.sound_verify : Pass.verify.Sound := by
  refine .of_lowersTo (fun p c _ => ?_) (fun p c => ?_) fun p c wf e h => ?_
  · rw [program_verify]
    exact .refl p
  · rw [program_verify]
  · rw [(verify_run wf c).2] at h
    cases h

theorem Pass.sound_print : Pass.print.Sound :=
  .of_lowersTo (fun p _ _ => .refl p) (fun _ _ => rfl) fun _ _ _ _ h => by cases h

/-- The passes of this library. -/
def Pass.builtin : List Pass := [.qubitLowering, .resultLowering, .requirements, .verify, .print]

/-- **Every pass of this library is sound.** -/
theorem Pass.sound_of_mem_builtin {pass : Pass} (h : pass ∈ Pass.builtin) : pass.Sound := by
  simp only [builtin, List.mem_cons, List.not_mem_nil, or_false] at h
  rcases h with rfl | rfl | rfl | rfl | rfl
  · exact sound_qubitLowering
  · exact sound_resultLowering
  · exact sound_requirements
  · exact sound_verify
  · exact sound_print

end QuantumLowering
