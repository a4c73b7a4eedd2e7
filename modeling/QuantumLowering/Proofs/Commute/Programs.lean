import QuantumLowering.Proofs.Commute.Sweeps
import QuantumLowering.Proofs.Pass.Twice
/-!
# Lowering programs in either order

Lowering the qubits of a program and lowering its results draw on stocks of
their own. Where both end well on a program, each ends well on what the other
one leaves, with the same program in the end (`Lowering.run_comm`); and where
one ends well on what the other leaves, it ends well alone
(`ResultLowering.ends_alone`, `QubitLowering.ends_alone`).
-/


namespace QuantumLowering

open Lowering

/-- **Two contexts are alike**: their pools are the same and values stand for the
same, however that came about. -/
structure Context.Alike (c c' : Context) : Prop where
  /-- The pools of qubits are the same. -/
  qubits : c'.qubits = c.qubits
  /-- So are the pools of results. -/
  results : c'.results = c.results
  /-- Values stand for the same. -/
  table : ∀ v, c'.tracker.resolve? v = c.tracker.resolve? v

theorem Context.Alike.refl (c : Context) : c.Alike c := ⟨rfl, rfl, fun _ => rfl⟩

/-! ## Both kinds alone -/

/-- Before a run the stocks of one kind are the same beside a table of the other. -/
theorem Stock.Beside.start {P : Resource → Prop} {B B' : List ValueId} {t T : Tracker} {pool : Pool}
    (new : ∀ v, t.resolve? v = none) (holds : T.Holds P B') (apart : ∀ v ∈ B, v ∉ B') :
    Stock.Beside B T ⟨pool, t⟩ ⟨pool, T⟩ where
  pool := rfl
  inside v hv := (holds.unknown (apart v hv)).trans (new v).symm
  outside _ _ := rfl
  alone v _ := new v

/-- A table that knows nothing holds anything. -/
theorem Tracker.holds_of_unknown {P : Resource → Prop} {B : List ValueId} {t : Tracker}
    (new : ∀ v, t.resolve? v = none) : t.Holds P B := by
  intro v r hr
  cases (new v).symm.trans hr

/-- **Lowering results changes no recursion** of a program if the definitions that
manage qubits and do not branch call themselves afterwards just when they did
before. -/
def Program.KeepsRecursion (p : Program) : Prop :=
  ∀ f ∈ p.definitions, f.managesQubits → QubitLowering.isStraight f →
    (f.name ∈ f.gather ResultLowering.callee? ↔ f.name ∈ f.gather Instruction.callee?)

instance (p : Program) : Decidable p.KeepsRecursion :=
  inferInstanceAs (Decidable (∀ f ∈ p.definitions, f.managesQubits → QubitLowering.isStraight f →
    (f.name ∈ f.gather ResultLowering.callee? ↔ f.name ∈ f.gather Instruction.callee?)))

/-- **Four stocks abreast**, at the same definition of a program: of lowering qubits
and of lowering results, each alone and then each after the other one. -/
structure Lowering.Abreast (p : Program) (policy : ReusePolicy) (Tq Tr : Tracker)
    (s u s' u' : Stock) : Prop where
  /-- Lowering qubits alone found qubits. -/
  holdsQubits : s.tracker.Holds (fun r => r.kind = .qubit) (p.gather QubitLowering.binds?)
  /-- Lowering results alone found results. -/
  holdsResults : u.tracker.Holds Resource.IsResult (p.gather ResultLowering.binds?)
  /-- After results, qubits are drawn beside the results. -/
  qubits : s.Beside (p.gather QubitLowering.binds?) Tr s'
  /-- After qubits, results are drawn beside the qubits. -/
  results : u.Beside (p.gather ResultLowering.binds?) Tq u'
  /-- The policy stays. -/
  policy : s.pool.policy = policy

section Sweeps

variable {p : Program} {c : Context} {sole : Bool} {gs hs ks : List Function}
variable {sq sq' ur ur' : Stock}

variable (wf : p.WellFormed) (new : ∀ v, c.tracker.resolve? v = none)

include wf new

/-- Lowering qubits alone makes values stand for qubits. -/
theorem QubitLowering.holds_sweeps
    (hq : Sweeps (lower sole) (c.stock .qubit) p.functions gs sq) :
    sq.tracker.Holds (fun r => r.kind = .qubit) (p.gather binds?) :=
  hq.invariant (P := fun s => s.tracker.Holds _ _) (Tracker.holds_of_unknown new)
    fun _ hf hd _ hs hl => holds_lower (wf.fits (Program.mem_definitions.2 ⟨hf, hd⟩)) hs hl

/-- Lowering results alone makes values stand for results. -/
theorem ResultLowering.holds_sweeps
    (hr : Sweeps lower (c.stock .result) p.functions ks ur) :
    ur.tracker.Holds Resource.IsResult (p.gather binds?) :=
  hr.invariant (P := fun s => s.tracker.Holds _ _) (Tracker.holds_of_unknown new)
    fun _ hf hd _ hs hl => holds_lower (wf.fits (Program.mem_definitions.2 ⟨hf, hd⟩)) hs hl

/-- **Results lowered after qubits can be lowered alone.** -/
theorem ResultLowering.exists_alone
    (hq : Sweeps (QubitLowering.lower sole) (c.stock .qubit) p.functions gs sq)
    (hr : Sweeps lower ⟨c.results, sq.tracker⟩ gs hs ur') :
    ∃ ks ur, Sweeps lower (c.stock .result) p.functions ks ur := by
  have holds := QubitLowering.holds_sweeps wf new hq
  have apart : ∀ v, sq.tracker.resolveAs? .result (.value v) = none :=
    holds.all.resolveAs?_eq_none (by decide)
  have disjoint := fun v => Program.binds_apart wf.values (v := v)
  refine hq.exists_alone (R := fun s u u' =>
      s.tracker.Holds (fun r => r.kind = .qubit) (p.gather QubitLowering.binds?) ∧
        u.Beside (p.gather binds?) sq.tracker u') hr
    ⟨Tracker.holds_of_unknown new, .start new holds fun v hv hq => disjoint v hq hv⟩
    (fun _ _ => QubitLowering.isDeclaration_lower) fun f hf hd s u u' ⟨hs, beside⟩ hl hl' => ?_
  have fits := wf.fits (Program.mem_definitions.2 ⟨hf, hd⟩)
  obtain ⟨failure, stock⟩ := beside_lower fits disjoint hs apart beside hl
  exact ⟨failure.symm.trans hl', QubitLowering.holds_lower fits hs hl, stock⟩

variable (recursion : sole = true → c.qubits.policy = .reuse → p.KeepsRecursion)

include recursion

/-- **Qubits lowered after results can be lowered alone.** -/
theorem QubitLowering.exists_alone
    (hr : Sweeps ResultLowering.lower (c.stock .result) p.functions ks ur)
    (hq : Sweeps (lower sole) ⟨c.qubits, ur.tracker⟩ ks hs sq') :
    ∃ gs sq, Sweeps (lower sole) (c.stock .qubit) p.functions gs sq := by
  have holds := ResultLowering.holds_sweeps wf new hr
  have apart : ∀ v, ur.tracker.resolveAs? .qubit (.value v) = none :=
    (holds.all.imp fun r hr => hr.1).resolveAs?_eq_none (by decide)
  have disjoint := fun v => Program.binds_apart wf.values (v := v)
  refine hr.exists_alone (R := fun u s s' =>
      u.tracker.Holds Resource.IsResult (p.gather ResultLowering.binds?) ∧
        s.Beside (p.gather binds?) ur.tracker s' ∧ s.pool.policy = c.qubits.policy) hq
    ⟨Tracker.holds_of_unknown new, .start new holds disjoint, rfl⟩
    (fun _ _ => ResultLowering.isDeclaration_lower)
    fun f hf hd u s s' ⟨hu, beside, policy⟩ hl hl' => ?_
  have hf := Program.mem_definitions.2 ⟨hf, hd⟩
  have fits := wf.fits hf
  have honors := honorsAlike_lower sole beside.pool fits.nodup hl fun hsole hp =>
    recursion hsole (policy ▸ hp) f hf
  obtain ⟨failure, stock⟩ := beside_lower fits disjoint hu apart beside hl honors
  have alone := failure.symm.trans hl'
  obtain ⟨_, drawn⟩ := exists_drawn_lower alone
  exact ⟨alone, ResultLowering.holds_lower fits hu hl, stock, drawn.policy.trans policy⟩

omit new in
/-- **Definition by definition**, four stocks stay abreast, and both orders make
the same of it. -/
theorem Lowering.Abreast.lower {Tq Tr : Tracker} {s u s' u' : Stock}
    (h : Abreast p c.qubits.policy Tq Tr s u s' u')
    (apartq : ∀ v, Tq.resolveAs? .result (.value v) = none)
    (apartr : ∀ v, Tr.resolveAs? .qubit (.value v) = none) {f : Function} (hf : f ∈ p.definitions)
    (hq : (QubitLowering.lower sole s f).failure = none)
    (hr : (ResultLowering.lower u f).failure = none)
    (known : ∀ v ∈ f.definedValues,
      Tr.resolve? v = (ResultLowering.lower u f).stock.tracker.resolve? v) :
    (ResultLowering.lower u' (QubitLowering.lower sole s f).function).failure = none ∧
      (QubitLowering.lower sole s' (ResultLowering.lower u f).function).failure = none ∧
      (QubitLowering.lower sole s' (ResultLowering.lower u f).function).function =
        (ResultLowering.lower u' (QubitLowering.lower sole s f).function).function ∧
      Abreast p c.qubits.policy Tq Tr (QubitLowering.lower sole s f).stock
        (ResultLowering.lower u f).stock
        (QubitLowering.lower sole s' (ResultLowering.lower u f).function).stock
        (ResultLowering.lower u' (QubitLowering.lower sole s f).function).stock := by
  have fits := wf.fits hf
  have disjoint := fun v => Program.binds_apart wf.values (v := v)
  have honors := QubitLowering.honorsAlike_lower sole h.qubits.pool fits.nodup hr fun hsole hp =>
    recursion hsole (h.policy ▸ hp) f hf
  obtain ⟨failurer, results⟩ :=
    ResultLowering.beside_lower fits disjoint h.holdsQubits apartq h.results hq
  obtain ⟨failureq, qubits⟩ :=
    QubitLowering.beside_lower fits disjoint h.holdsResults apartr h.qubits hr honors
  obtain ⟨_, drawn⟩ := QubitLowering.exists_drawn_lower hq
  exact ⟨failurer.trans hr, failureq.trans hq,
    lower_comm fits disjoint h.holdsQubits h.holdsResults apartq apartr h.qubits h.results hq hr
      honors known,
    QubitLowering.holds_lower fits h.holdsQubits hq,
    ResultLowering.holds_lower fits h.holdsResults hr, qubits, results,
    drawn.policy.trans h.policy⟩

/-- **Two runs over the definitions in either order** end well where both end well
alone, with the same definitions, the pools that each leaves alone, and tables
that say the same. -/
theorem Lowering.sweeps_comm
    (hq : Sweeps (QubitLowering.lower sole) (c.stock .qubit) p.functions gs sq)
    (hr : Sweeps ResultLowering.lower (c.stock .result) p.functions ks ur) :
    ∃ hs sq' ur', Sweeps ResultLowering.lower ⟨c.results, sq.tracker⟩ gs hs ur' ∧
      Sweeps (QubitLowering.lower sole) ⟨c.qubits, ur.tracker⟩ ks hs sq' ∧
      sq'.pool = sq.pool ∧ ur'.pool = ur.pool ∧
      ∀ v, sq'.tracker.resolve? v = ur'.tracker.resolve? v := by
  have holdsq := QubitLowering.holds_sweeps wf new hq
  have holdsr := ResultLowering.holds_sweeps wf new hr
  have apartq : ∀ v, sq.tracker.resolveAs? .result (.value v) = none :=
    holdsq.all.resolveAs?_eq_none (by decide)
  have apartr : ∀ v, ur.tracker.resolveAs? .qubit (.value v) = none :=
    (holdsr.all.imp fun r hr => hr.1).resolveAs?_eq_none (by decide)
  have disjoint := fun v => Program.binds_apart wf.values (v := v)
  have start : Abreast p c.qubits.policy sq.tracker ur.tracker (c.stock .qubit) (c.stock .result)
      ⟨c.qubits, ur.tracker⟩ ⟨c.results, sq.tracker⟩ :=
    ⟨Tracker.holds_of_unknown new, Tracker.holds_of_unknown new, .start new holdsr disjoint,
      .start new holdsq fun v hv hq => disjoint v hq hv, rfl⟩
  obtain ⟨hs, sq', ur', runr, runq, done⟩ := hq.both hr start ResultLowering.frames_lower wf.values
    (fun _ _ => QubitLowering.isDeclaration_lower) (fun _ _ => ResultLowering.isDeclaration_lower)
    fun f hf hd _ _ _ _ h => h.lower wf recursion apartq apartr
      (Program.mem_definitions.2 ⟨hf, hd⟩)
  refine ⟨hs, sq', ur', runr, runq, done.qubits.pool, done.results.pool, fun v => ?_⟩
  by_cases hq : v ∈ p.gather QubitLowering.binds?
  · rw [done.qubits.inside v hq, done.results.outside v (disjoint v hq)]
  · rw [done.qubits.outside v hq]
    by_cases hr : v ∈ p.gather ResultLowering.binds?
    · rw [done.results.inside v hr]
    · rw [done.results.outside v hr, done.results.alone v hr, done.qubits.alone v hq]

end Sweeps

/-! ## Runs -/

namespace Lowering

variable {lower : Stock → Function → Lowered} {kind : ResourceKind} {p : Program} {c : Context}
variable {s s' : Stock} {fs₁ fs₂ gs : List Function}

/-- A run over definitions is the run over a program. -/
theorem Sweeps.run_eq (h : Sweeps lower (c.stock kind) p.functions gs s') :
    (run kind lower p c).failure = none ∧
      (run kind lower p c).program = { p with functions := gs } ∧
      (run kind lower p c).context = c.withStock kind s' := by
  obtain ⟨failure, rfl, rfl⟩ := h.sweep_eq
  exact ⟨failure, rfl, rfl⟩

/-- Declarations alone stay. -/
theorem Sweeps.declarations {fs : List Function} (h : ∀ f ∈ fs, f.isDeclaration) :
    Sweeps lower s fs fs s := by
  induction fs with
  | nil => exact .nil s
  | cons f fs ih =>
    exact .declaration (h f List.mem_cons_self) (ih fun g hg => h g (List.mem_cons_of_mem f hg))

/-- Functions can be left out at the end of a run. -/
theorem Sweeps.exists_prefix (h : Sweeps lower s (fs₁ ++ fs₂) gs s') :
    ∃ gs₁ s₁, Sweeps lower s fs₁ gs₁ s₁ := by
  induction fs₁ generalizing s gs with
  | nil => exact ⟨[], s, .nil s⟩
  | cons f fs ih =>
    cases h with
    | declaration hd h =>
      obtain ⟨gs₁, s₁, rest⟩ := ih h
      exact ⟨_, s₁, .declaration hd rest⟩
    | definition hd hl h =>
      obtain ⟨gs₁, s₁, rest⟩ := ih h
      exact ⟨_, s₁, .definition hd hl rest⟩

end Lowering

/-- A declaration comes last, unless there is a function of the name. -/
theorem Program.declare_eq (p : Program) (name : String) (signature : List Ty) (returnType : Ty) :
    p.declare name signature returnType = { p with
      functions := p.functions ++
        if name ∈ p.functions.map Function.name then []
        else [.declaration name signature returnType] } := by
  unfold declare
  cases h : p.function? name with
  | some f =>
    have hname := List.find?_some h
    rw [if_pos (List.mem_map.2 ⟨f, List.mem_of_find?_eq_some h, of_decide_eq_true hname⟩),
      List.append_nil]
  | none =>
    rw [if_neg fun hmem => ?_]
    obtain ⟨f, hf, hname⟩ := List.mem_map.1 hmem
    simpa [hname] using List.find?_eq_none.1 h f hf

theorem countP_eq_of_forall₂ {α : Type} {k : α → Bool} {l m : List α}
    (h : List.Forall₂ (fun a b => k b = k a) l m) : m.countP k = l.countP k := by
  induction h with
  | nil => rfl
  | cons hab _ ih => rw [List.countP_cons, List.countP_cons, ih, hab]

section Runs

variable {p : Program} {c : Context} {gs ks : List Function} {sq ur : Stock}

namespace QubitLowering

theorem run_of_sweeps (h : Sweeps (lower (managers p ≤ 1)) (c.stock .qubit) p.functions gs sq) :
    (run p c).failure = none ∧ (run p c).program = { p with functions := gs } ∧
      (run p c).context = c.withStock .qubit sq := by
  rw [run_failure, run_program, run_context]
  exact h.run_eq

theorem exists_sweeps (h : (run p c).failure = none) :
    ∃ gs sq, Sweeps (lower (managers p ≤ 1)) (c.stock .qubit) p.functions gs sq :=
  ⟨_, _, sweeps_sweep ((run_failure p c).symm.trans h)⟩

/-- Lowering a program of one definition, by what is decided for it. -/
theorem run_of_plan {f : Function} {ds : List (Site × Decision)} (hf : p.functions = [f])
    (hd : f.isDeclaration = false)
    (decided : plan (managers p ≤ 1) (c.stock .qubit) f = ⟨ds, sq, none⟩) :
    (run p c).failure = none ∧
      (run p c).program = { p with
        functions := [(f.substitute (address? sq.tracker)).removeUnused (candidates ds)] } ∧
      (run p c).context = c.withStock .qubit sq := by
  have ends : (plan (managers p ≤ 1) (c.stock .qubit) f).failure = none := by rw [decided]
  have hd' : ¬ f.isDeclaration := by simp [hd]
  have sweeps := Sweeps.definition hd' ((lower_failure _ _ _).trans ends) (.nil _)
  have whole := run_of_sweeps (hf ▸ sweeps)
  rw [lower_function ends, lower_stock, decided] at whole
  exact whole

/-- There is something to lower if a definition manages qubits. -/
theorem managesQubits_eq (p : Program) : p.managesQubits = decide (0 < managers p) := by
  rw [Bool.eq_iff_iff]
  simp only [Program.managesQubits, Program.instructions, managers, List.countP_pos_iff,
    Function.managesQubits, decide_eq_true_eq, List.any_eq_true, List.mem_flatMap, List.mem_map]
  constructor
  · rintro ⟨_, ⟨f, hf, i, hi, rfl⟩, h⟩
    exact ⟨f, hf, i, hi, h⟩
  · rintro ⟨f, hf, i, hi, h⟩
    exact ⟨(f, i), ⟨f, hf, i, hi, rfl⟩, h⟩

end QubitLowering

namespace ResultLowering

/-- What lowering results declares. -/
def added (p : Program) : List Function :=
  if measures p ∧ Intrinsics.measureInto ∉ p.functions.map Function.name then
    [.declaration Intrinsics.measureInto [.qubit, .result] .void]
  else []

theorem isDeclaration_of_added {f : Function} (h : f ∈ added p) : f.isDeclaration := by
  unfold added at h
  split at h
  · rw [List.mem_singleton.1 h]
    rfl
  · cases h

variable (wf : p.WellFormed)

include wf in
theorem run_of_sweeps (h : Sweeps lower (c.stock .result) p.functions ks ur) :
    (run p c).failure = none ∧ (run p c).program = { p with functions := ks ++ added p } ∧
      (run p c).context = c.withStock .result ur := by
  obtain ⟨failure, program, context⟩ := h.run_eq
  have names : ks.map Function.name = p.functions.map Function.name := by
    have lowers := run_lowersTo wf.values ((run_failure p c).trans failure)
    rw [program] at lowers
    exact lowers.names
  rw [run_failure, run_context]
  refine ⟨failure, ?_, context⟩
  simp only [run, failure, program, Option.isNone_none, and_true]
  by_cases hm : measures p
  · rw [if_pos hm, Program.declare_eq, names]
    by_cases hn : Intrinsics.measureInto ∈ p.functions.map Function.name
    · rw [if_pos hn, added, if_neg fun h => h.2 hn]
    · rw [if_neg hn, added, if_pos ⟨hm, hn⟩]
  · rw [if_neg hm, added, if_neg fun h => hm h.1, List.append_nil]
    exact program

theorem exists_sweeps (h : (run p c).failure = none) :
    ∃ ks ur, Sweeps lower (c.stock .result) p.functions ks ur :=
  ⟨_, _, sweeps_sweep ((run_failure p c).symm.trans h)⟩

include wf in
/-- **Lowering results keeps the number of definitions that manage qubits.** -/
theorem managers_run (h : (run p c).failure = none) :
    QubitLowering.managers (run p c).program = QubitLowering.managers p := by
  unfold QubitLowering.managers
  rw [definitions_run]
  rw [run_failure] at h
  have kept : List.Forall₂ (fun f g => f ∈ p.definitions →
      g.managesQubits = f.managesQubits) p.definitions
      (Lowering.run .result lower p c).program.definitions := by
    obtain ⟨_, sweeps, -⟩ := sweeps_run h
    have both := sweeps.forall₂ (R := fun f g => g.isDeclaration = f.isDeclaration ∧
        (f ∈ p.definitions → g.managesQubits = f.managesQubits)) (fun _ _ _ => ⟨rfl, fun _ => rfl⟩)
      fun s f _ _ hl => ⟨isDeclaration_lower hl, fun hf =>
        managesQubits_lower (wf.nodup_definedValues hf) hl⟩
    exact (Program.forall₂_definitions (fun _ _ => And.left) both).imp fun _ _ => And.right
  exact countP_eq_of_forall₂ (forall₂_imp_of_mem kept fun f hf _ h => h hf)

end ResultLowering

variable (wf : p.WellFormed)

include wf

/-- Lowering qubits changes nothing in what lowering results declares. -/
theorem QubitLowering.added_run (h : (run p c).failure = none) :
    ResultLowering.added (run p c).program = ResultLowering.added p := by
  unfold ResultLowering.added
  rw [measures_run wf.values h, (run_lowersTo h).names]

variable (new : ∀ v, c.tracker.resolve? v = none)

include new

/-- **Lowering results ends well alone** if it does after qubits. -/
theorem ResultLowering.ends_alone (hq : (QubitLowering.run p c).failure = none)
    (h : (run (QubitLowering.run p c).program (QubitLowering.run p c).context).failure = none) :
    (run p c).failure = none := by
  obtain ⟨gs, sq, runq⟩ := QubitLowering.exists_sweeps hq
  obtain ⟨-, program, context⟩ := QubitLowering.run_of_sweeps runq
  rw [program, context] at h
  obtain ⟨hs, ur, runr⟩ := exists_sweeps h
  obtain ⟨ks, ur, alone⟩ := exists_alone wf new runq runr
  exact (run_of_sweeps wf alone).1

variable (recursion : c.qubits.policy = .reuse → QubitLowering.managers p ≤ 1 → p.KeepsRecursion)

include recursion

/-- **Lowering qubits ends well alone** if it does after results. -/
theorem QubitLowering.ends_alone (hr : (ResultLowering.run p c).failure = none)
    (h : (run (ResultLowering.run p c).program (ResultLowering.run p c).context).failure = none) :
    (run p c).failure = none := by
  obtain ⟨ks, ur, runr⟩ := ResultLowering.exists_sweeps hr
  obtain ⟨-, program, context⟩ := ResultLowering.run_of_sweeps wf runr
  obtain ⟨hs, sq, runq⟩ := exists_sweeps h
  rw [ResultLowering.managers_run wf hr] at runq
  rw [program, context] at runq
  obtain ⟨hs, sq, runq⟩ := runq.exists_prefix
  obtain ⟨gs, sq, alone⟩ := exists_alone wf new
    (fun sole reuses => recursion reuses (of_decide_eq_true sole)) runr runq
  exact (run_of_sweeps alone).1

/-- **Both kinds in either order.** Where each of them ends well alone, each ends
well after the other, and both orders leave the same. -/
theorem Lowering.run_comm (hq : (QubitLowering.run p c).failure = none)
    (hr : (ResultLowering.run p c).failure = none) :
    let q := QubitLowering.run p c
    let r := ResultLowering.run p c
    let q' := ResultLowering.run q.program q.context
    let r' := QubitLowering.run r.program r.context
    q'.failure = none ∧ r'.failure = none ∧ r'.program = q'.program ∧
      q'.context.Alike r'.context := by
  obtain ⟨gs, sq, runq⟩ := QubitLowering.exists_sweeps hq
  obtain ⟨ks, ur, runr⟩ := ResultLowering.exists_sweeps hr
  obtain ⟨-, programq, contextq⟩ := QubitLowering.run_of_sweeps runq
  obtain ⟨-, programr, contextr⟩ := ResultLowering.run_of_sweeps wf runr
  obtain ⟨hs, sq', ur', after, after', pool, pool', table⟩ :=
    sweeps_comm wf new (fun sole reuses => recursion reuses (of_decide_eq_true sole)) runq runr
  have declared := QubitLowering.added_run wf hq
  have managers := ResultLowering.managers_run wf hr
  have wf' := QubitLowering.wellFormed_run wf hq
  intro q r q' r'
  have runq' :
      Sweeps ResultLowering.lower (q.context.stock .result) q.program.functions hs ur' := by
    rw [contextq, programq]
    exact after
  have runr' : Sweeps (QubitLowering.lower (QubitLowering.managers r.program ≤ 1))
      (r.context.stock .qubit) r.program.functions (hs ++ ResultLowering.added p) sq' := by
    rw [managers, contextr, programr]
    exact after'.append (.declarations fun f => ResultLowering.isDeclaration_of_added)
  obtain ⟨failureq, programq', contextq'⟩ := ResultLowering.run_of_sweeps wf' runq'
  obtain ⟨failurer, programr', contextr'⟩ := QubitLowering.run_of_sweeps runr'
  refine ⟨failureq, failurer, ?_, ?_⟩
  · rw [programq', programr', declared, programr, programq]
  · rw [contextq', contextr', contextq, contextr]
    exact ⟨pool, pool'.symm, table⟩

end Runs

end QuantumLowering
