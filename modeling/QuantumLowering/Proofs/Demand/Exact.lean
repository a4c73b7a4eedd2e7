import QuantumLowering.Profile.Basic
import QuantumLowering.Proofs.Demand.Steps
import QuantumLowering.Proofs.Execution.Allocation
/-!
# Without reuse a program gets exactly what it asks for

Lowering qubits leaves what a program asks for in results as it is, and
lowering results leaves the addresses of qubits. So with pools that reuse
nothing, applying a profile succeeds if and only if each pool holds what
is asked for, and then exactly that is handed out (`Profile.apply_usesExactly`).
-/


namespace QuantumLowering

open Lowering

variable {β : Type} {g : Instruction → Option β} {p p₁ : Program} {c c₁ : Context}

/-! ## Instructions that lowering leaves alone -/

/-- What lowering keeps of every function it keeps of all of them. -/
theorem Lowering.gatherFrom_sweeps {lower : Stock → Function → Lowered} {s s' : Stock}
    {fs gs : List Function} (h : Sweeps lower s fs gs s')
    (declarations : ∀ s f, (lower s f).failure = none →
      (lower s f).function.isDeclaration = f.isDeclaration)
    (keeps : ∀ f ∈ fs, ¬ f.isDeclaration → ∀ s, (lower s f).failure = none →
      (lower s f).function.gather g = f.gather g) : gatherFrom g gs = gatherFrom g fs := by
  induction h with
  | nil => rfl
  | declaration hd _ ih =>
    rw [gatherFrom_cons_declaration hd, gatherFrom_cons_declaration hd]
    exact ih fun f hf => keeps f (List.mem_cons_of_mem _ hf)
  | @definition s s' f fs gs hd hl _ ih =>
    have hd' : ¬ (lower s f).function.isDeclaration := by rwa [declarations s f hl]
    rw [gatherFrom_cons hd, gatherFrom_cons hd', keeps f List.mem_cons_self hd s hl,
      ih fun f hf => keeps f (List.mem_cons_of_mem _ hf)]

namespace QubitLowering

/-- **Lowering the qubits of a function keeps the instructions that mean
nothing for qubits.** -/
theorem gather_lower (idle : ∀ i, (g i).isSome → role i = .other)
    (operands : ∀ σ i, g (i.mapOperands σ) = g i) {sole : Bool} {s : Stock} {f : Function}
    (h : (lower sole s f).failure = none) (nodup : f.definedValues.Nodup) :
    (lower sole s f).function.gather g = f.gather g := by
  obtain ⟨ds, gone, decides, finished⟩ := exists_lowered h
  rw [finished.eq, Function.gather, Function.gather, Function.instructions_rewrite,
    ← Function.map_snd_located, List.filterMap_filterMap, List.filterMap_map]
  refine List.filterMap_congr fun e he => ?_
  split
  · rename_i hgone
    -- what goes was decided to go, and such an instruction is not
    refine (Option.eq_none_iff_forall_ne_some.2 fun b hb => ?_).symm
    obtain ⟨s₁, s₂, d, visit⟩ := decides.exists_visit frames_judge nodup he
    have stays : d = .stays := by
      have step := visit.step
      rw [judge, idle e.2 (by rw [show g e.2 = some b from hb]; rfl)] at step
      cases step
      rfl
    subst stays
    exact finished.not_mem_gone (P := Decision.isDroppable) visit rfl hgone
  · exact operands _ e.2

theorem gather_run (idle : ∀ i, (g i).isSome → role i = .other)
    (operands : ∀ σ i, g (i.mapOperands σ) = g i)
    (nodup : (p.definitions.flatMap Function.definedValues).Nodup)
    (h : (run p c).failure = none) : (run p c).program.gather g = p.gather g := by
  rw [run_failure] at h
  rw [run_program]
  obtain ⟨s', sweeps, -⟩ := sweeps_run h
  refine gatherFrom_sweeps sweeps (fun _ _ => isDeclaration_lower) fun f hf hd s hl => ?_
  exact gather_lower idle operands hl
    ((List.nodup_flatMap.1 nodup).1 f (Program.mem_definitions.2 ⟨hf, hd⟩))

/-- **Lowering qubits keeps whether there is an instruction of a sort** that means
nothing for qubits. -/
theorem any_run (condition : Instruction → Bool) (idle : ∀ i, condition i → role i = .other)
    (operands : ∀ σ i, condition (i.mapOperands σ) = condition i)
    (nodup : (p.definitions.flatMap Function.definedValues).Nodup)
    (h : (run p c).failure = none) :
    ((run p c).program.instructions.any fun e => condition e.2) =
      p.instructions.any fun e => condition e.2 := by
  let g : Instruction → Option Unit := fun i => if condition i then some () else none
  have gathered : (run p c).program.gather g = p.gather g := by
    refine gather_run (fun i hi => idle i ?_) (fun σ i => ?_) nodup h
    · by_contra hno
      simp [g, hno] at hi
    · simp only [g, operands]
  have any : ∀ p : Program, (p.instructions.any fun e => condition e.2) = true ↔
      () ∈ p.gather g := by
    intro p
    rw [← not_iff_not, Bool.not_eq_true, Program.any_instructions_eq_false, Program.mem_gather]
    simp [g]
  rw [Bool.eq_iff_iff, any, any, gathered]

/-- So it keeps whether there is a measurement to be replaced. -/
theorem measures_run (nodup : (p.definitions.flatMap Function.definedValues).Nodup)
    (h : (run p c).failure = none) :
    ResultLowering.measures (run p c).program = ResultLowering.measures p := by
  refine any_run ResultLowering.isMeasurement (fun i hi => ?_)
    (fun σ i => ResultLowering.isMeasurement_mapOperands) nodup h
  obtain ⟨v, qubit, rfl⟩ := ResultLowering.isMeasurement_iff.1 hi
  rfl

/-! ## Lowering qubits -/

/-- What asks for qubits manages qubits. -/
theorem managesQubits_of_demand {i : Instruction} {d : ValueId × ℕ}
    (h : i.demand? .qubit = some d) : i.managesQubits = true := by
  obtain ⟨result, ty, operation⟩ := i
  cases operation with
  | call callee args =>
    cases result with
    | none => cases h
    | some v =>
      simp only [Instruction.demand?] at h
      rw [Instruction.managesQubits_call]
      split at h
      · rename_i hc
        rw [hc]
        decide
      split at h
      · rename_i hc
        rw [hc]
        decide
      · cases h
  | _ => cases result <;> cases h

theorem demands_eq_nil (h : p.managesQubits = false) : p.demands .qubit = [] := by
  refine List.eq_nil_iff_forall_not_mem.2 fun d hd => ?_
  obtain ⟨f, hf, i, hi, hdi⟩ := Program.mem_gather.1 hd
  have none := (Program.any_instructions_eq_false Instruction.managesQubits).1 h f hf i hi
  rw [managesQubits_of_demand hdi] at none
  cases none

section Ends

variable (ends : Pass.qubitLowering.Ends p c p₁ c₁)
variable (nodup : (p.definitions.flatMap Function.definedValues).Nodup)
variable (new : ∀ v, c.tracker.resolve? v = none)

include ends

/-- Lowering qubits does not touch the pool of results. -/
theorem results_of_ends : c₁.results = c.results := by
  cases ends with
  | skipped => rfl
  | ran =>
    change (run p c).context.results = c.results
    rw [run_context]
    rfl

include nodup in
/-- Lowering qubits keeps the instructions that mean nothing for qubits. -/
theorem gather_of_ends (idle : ∀ i, (g i).isSome → role i = .other)
    (operands : ∀ σ i, g (i.mapOperands σ) = g i) : p₁.gather g = p.gather g := by
  cases ends with
  | skipped => rfl
  | ran _ h => exact gather_run idle operands nodup h

include new

/-- It binds no values that do not name qubits. -/
theorem unbound_of_ends {u : ValueId} (hu : u ∉ p.gather binds?) :
    c₁.tracker.resolve? u = none := by
  cases ends with
  | skipped => exact new u
  | ran _ h =>
    change (run p c).context.tracker.resolve? u = none
    change (run p c).failure = none at h
    rw [run_failure] at h
    rw [run_context, (serves_lower _).frame_run h hu]
    exact new u

include nodup

/-- It draws what the program asks for. -/
theorem drawn_of_ends : c.qubits.Drawn (total (p.demands .qubit)) c₁.qubits := by
  cases ends with
  | skipped h =>
    rw [demands_eq_nil h]
    exact .refl _
  | ran _ h =>
    have spends := spends_run nodup new
    rw [show (run p c).failure = none from h] at spends
    exact spends.drawn_of_none

/-- Without reuse it gives the first handles to what the program asks for. -/
theorem partitions_of_ends (hp : c.qubits.policy = .noReuse) (fresh : c.qubits.highWater = 0) :
    c₁.tracker.Partitions .qubit (total (p.demands .qubit)) (p.demands .qubit) := by
  cases ends with
  | skipped h =>
    rw [demands_eq_nil h]
    exact Tracker.partitions_nil
  | ran _ h => exact partitions_run hp fresh nodup new h

end Ends

end QubitLowering

/-! ## Lowering results -/

namespace ResultLowering

theorem isCallTo_of_demand {i : Instruction} {d : ValueId × ℕ}
    (h : i.demand? .result = some d) : i.isCallTo Intrinsics.measure := by
  obtain ⟨operation, rfl, ⟨qubit, rfl⟩ | ⟨source, rfl⟩ | ⟨incoming, rfl⟩⟩ :=
    exists_of_binds (binds_of_demand h)
  · exact beq_self_eq_true _
  · cases h
  · cases h

theorem demands_eq_nil (h : (p.instructions.any fun e => e.2.isCallTo Intrinsics.measure) = false) :
    p.demands .result = [] := by
  refine List.eq_nil_iff_forall_not_mem.2 fun d hd => ?_
  obtain ⟨f, hf, i, hi, hdi⟩ := Program.mem_gather.1 hd
  have none :=
    (Program.any_instructions_eq_false (·.isCallTo Intrinsics.measure)).1 h f hf i hi
  rw [isCallTo_of_demand hdi] at none
  cases none

section Ends

variable (ends : Pass.resultLowering.Ends p c p₁ c₁)
variable (nodup : (p.definitions.flatMap Function.definedValues).Nodup)
variable (new : ∀ v ∈ p.gather binds?, c.tracker.resolve? v = none)

include ends

/-- Lowering results does not touch the pool of qubits. -/
theorem qubits_of_ends : c₁.qubits = c.qubits := by
  cases ends with
  | skipped => rfl
  | ran =>
    change (run p c).context.qubits = c.qubits
    rw [run_context]
    rfl

/-- What it does not bind stays as it is. -/
theorem frame_of_ends {u : ValueId} (hu : u ∉ p.gather binds?) :
    c₁.tracker.resolve? u = c.tracker.resolve? u := by
  cases ends with
  | skipped => rfl
  | ran _ h => exact frame_run h hu

include nodup new

/-- It draws what the program asks for. -/
theorem drawn_of_ends : c.results.Drawn (total (p.demands .result)) c₁.results := by
  cases ends with
  | skipped h =>
    rw [demands_eq_nil h]
    exact .refl _
  | ran _ h =>
    have spends := spends_run nodup new
    rw [show (run p c).failure = none from h] at spends
    exact spends.drawn_of_none

/-- Without reuse it gives the first handles to what the program asks for. -/
theorem partitions_of_ends (hp : c.results.policy = .noReuse)
    (fresh : c.results.highWater = 0) :
    c₁.tracker.Partitions .result (total (p.demands .result)) (p.demands .result) := by
  cases ends with
  | skipped h =>
    rw [demands_eq_nil h]
    exact Tracker.partitions_nil
  | ran _ h => exact partitions_run hp fresh nodup new h

end Ends

end ResultLowering

/-! ## Both -/

/-- No value is bound both as qubits and as a result. -/
theorem Program.binds_apart (nodup : (p.definitions.flatMap Function.definedValues).Nodup)
    {v : ValueId} (hq : v ∈ p.gather QubitLowering.binds?) :
    v ∉ p.gather ResultLowering.binds? := by
  intro hr
  obtain ⟨f, hf, i, hi, hiv⟩ := Program.mem_gather.1 hq
  obtain ⟨f', hf', j, hj, hjv⟩ := Program.mem_gather.1 hr
  obtain rfl := Program.instruction_unique nodup hf hf' hi hj
    (QubitLowering.result_of_binds hiv) (ResultLowering.result_of_binds hjv)
  rw [QubitLowering.binds?, ResultLowering.role_of_binds hjv] at hiv
  cases hiv

/-- **What lowering qubits leaves for lowering results**: the same demands, and
values of which nothing is known. -/
theorem QubitLowering.leaves_results (ends : Pass.qubitLowering.Ends p c p₁ c₁)
    (nodup : (p.definitions.flatMap Function.definedValues).Nodup)
    (new : ∀ v, c.tracker.resolve? v = none) :
    p₁.demands .result = p.demands .result ∧
      p₁.gather ResultLowering.binds? = p.gather ResultLowering.binds? ∧
      ∀ v ∈ p₁.gather ResultLowering.binds?, c₁.tracker.resolve? v = none := by
  have binds := gather_of_ends ends nodup (g := ResultLowering.binds?)
    (fun i hi => by
      obtain ⟨v, hv⟩ := Option.isSome_iff_exists.1 hi
      exact ResultLowering.role_of_binds hv)
    ResultLowering.binds?_mapOperands
  refine ⟨?_, binds, fun v hv => ?_⟩
  · refine gather_of_ends ends nodup (fun i hi => ?_) ResultLowering.demand?_mapOperands
    obtain ⟨d, hd⟩ := Option.isSome_iff_exists.1 hi
    exact ResultLowering.role_of_binds (ResultLowering.binds_of_demand hd)
  · rw [binds] at hv
    exact unbound_of_ends ends new fun hq => Program.binds_apart nodup hq hv

/-! ## Applying a profile -/

/-- Stating what is needed draws nothing and binds nothing. -/
theorem Requirements.context_of_ends (ends : Pass.requirements.Ends p c p₁ c₁) : c₁ = c := by
  cases ends with
  | skipped => rfl
  | ran => rfl

namespace Schedule

variable {s : Schedule}

/-- **A run that ends well hands out exactly what the program asks for.** -/
theorem served_of_run
    (hs : s.pipeline.map Prod.snd = [.qubitLowering, .resultLowering, .requirements])
    (nodup : (p.definitions.flatMap Function.definedValues).Nodup)
    (new : ∀ v, c.tracker.resolve? v = none) (qubits : c.qubits.policy = .noReuse)
    (results : c.results.policy = .noReuse) (freshQubits : c.qubits.highWater = 0)
    (freshResults : c.results.highWater = 0) (h : (s.run p c).failure = none) :
    ((s.run p c).context.qubits.highWater = total (p.demands .qubit) ∧
        total (p.demands .qubit) ≤ c.qubits.limit) ∧
      ((s.run p c).context.results.highWater = total (p.demands .result) ∧
        total (p.demands .result) ≤ c.results.limit) ∧
      (s.run p c).context.tracker.Partitions .qubit (total (p.demands .qubit))
        (p.demands .qubit) ∧
      (s.run p c).context.tracker.Partitions .result (total (p.demands .result))
        (p.demands .result) := by
  obtain ⟨p₁, c₁, p₂, c₂, first, second, third⟩ := exists_ends_of_run hs h
  have nodup₁ := nodup.sublist (QubitLowering.lowersTo_of_ends first).definedValues_sublist
  obtain ⟨demands, binds, new₁⟩ := QubitLowering.leaves_results first nodup new
  have same := QubitLowering.results_of_ends first
  rw [Requirements.context_of_ends third, ← demands, ResultLowering.qubits_of_ends second, ← same]
  refine ⟨(QubitLowering.drawn_of_ends first nodup new).of_fresh qubits freshQubits,
    (ResultLowering.drawn_of_ends second nodup₁ new₁).of_fresh (same ▸ results)
      (same ▸ freshResults), ?_,
    ResultLowering.partitions_of_ends second nodup₁ new₁ (same ▸ results) (same ▸ freshResults)⟩
  -- a value that names qubits is not bound a second time
  have given := QubitLowering.partitions_of_ends first nodup new qubits freshQubits
  refine given.congr fun d hd => ResultLowering.frame_of_ends second ?_
  rw [binds]
  obtain ⟨f, hf, i, hi, hdi⟩ := Program.mem_gather.1 hd
  refine Program.binds_apart nodup (Program.mem_gather.2 ⟨f, hf, i, hi, ?_⟩)
  exact QubitLowering.binds_of_demand hdi

/-- **A run that fails finds one of the pools too small**, that of results only
if the one of qubits is not. -/
theorem exhausted_of_run (hverify : s.verifyEach = false)
    (hs : s.pipeline.map Prod.snd = [.qubitLowering, .resultLowering, .requirements])
    (nodup : (p.definitions.flatMap Function.definedValues).Nodup)
    (new : ∀ v, c.tracker.resolve? v = none) (qubits : c.qubits.policy = .noReuse)
    (results : c.results.policy = .noReuse) (freshQubits : c.qubits.highWater = 0)
    (freshResults : c.results.highWater = 0) {e : Failure} (h : (s.run p c).failure = some e) :
    (c.qubits.limit < total (p.demands .qubit) ∧
        e = .allocation .qubit (.exhausted c.qubits.limit)) ∨
      (total (p.demands .qubit) ≤ c.qubits.limit ∧
        c.results.limit < total (p.demands .result) ∧
        e = .allocation .result (.exhausted c.results.limit)) := by
  have fails := fails_of_run hverify h
  rw [hs] at fails
  cases fails with
  | here hfail =>
    have spends := QubitLowering.spends_run nodup new
    rw [show (QubitLowering.run p c).failure = some e from hfail] at spends
    obtain ⟨hlt, rfl⟩ := spends.exhausted_of_some qubits
    exact .inl ⟨by omega, rfl⟩
  | @later _ _ _ p₁ _ c₁ _ first fails =>
    obtain ⟨-, enough⟩ := (QubitLowering.drawn_of_ends first nodup new).of_fresh qubits freshQubits
    obtain ⟨demands, -, new₁⟩ := QubitLowering.leaves_results first nodup new
    have nodup₁ := nodup.sublist (QubitLowering.lowersTo_of_ends first).definedValues_sublist
    have same := QubitLowering.results_of_ends first
    cases fails with
    | here hfail =>
      have spends := ResultLowering.spends_run nodup₁ new₁
      rw [show (ResultLowering.run p₁ c₁).failure = some e from hfail, same, demands] at spends
      obtain ⟨hlt, rfl⟩ := spends.exhausted_of_some results
      exact .inr ⟨enough, by omega, rfl⟩
    | later _ fails =>
      -- stating what is needed never fails
      cases fails with
      | here hfail => cases hfail
      | later _ fails => cases fails

end Schedule

namespace Profile

/-- **Exactly what a program asks for is used** in applying a profile to it, of
so many qubits and results as there are. -/
structure Application.UsesExactly (a : Application) (p : Program) (qubits results : ℕ) : Prop where
  /-- It succeeds if and only if there are enough of both. -/
  succeeds : a.failure = none ↔
    total (p.demands .qubit) ≤ qubits ∧ total (p.demands .result) ≤ results
  /-- If there are too few qubits, it fails for them. -/
  withoutQubits : qubits < total (p.demands .qubit) →
    a.failure = some (.allocation .qubit (.exhausted qubits))
  /-- Else, if there are too few results, it fails for these. -/
  withoutResults : total (p.demands .qubit) ≤ qubits → results < total (p.demands .result) →
    a.failure = some (.allocation .result (.exhausted results))
  /-- If it succeeds, so many qubits were handed out. -/
  qubitsUsed : a.failure = none →
    a.profile.context.qubits.highWater = total (p.demands .qubit)
  /-- And so many results. -/
  resultsUsed : a.failure = none →
    a.profile.context.results.highWater = total (p.demands .result)
  /-- Acquisitions share the qubits out among them. -/
  qubitsShared : a.failure = none →
    a.profile.context.tracker.Partitions .qubit (total (p.demands .qubit)) (p.demands .qubit)
  /-- Measurements share the results out among them. -/
  resultsShared : a.failure = none →
    a.profile.context.tracker.Partitions .result (total (p.demands .result)) (p.demands .result)

/-- An application uses exactly what is asked for if it hands that out when it
succeeds, and fails only for want of it. -/
theorem Application.usesExactly {a : Application} {qubits results : ℕ}
    (served : a.failure = none →
      (a.profile.context.qubits.highWater = total (p.demands .qubit) ∧
        total (p.demands .qubit) ≤ qubits) ∧
      (a.profile.context.results.highWater = total (p.demands .result) ∧
        total (p.demands .result) ≤ results) ∧
      a.profile.context.tracker.Partitions .qubit (total (p.demands .qubit)) (p.demands .qubit) ∧
      a.profile.context.tracker.Partitions .result (total (p.demands .result))
        (p.demands .result))
    (failed : ∀ e, a.failure = some e →
      (qubits < total (p.demands .qubit) ∧ e = .allocation .qubit (.exhausted qubits)) ∨
        (total (p.demands .qubit) ≤ qubits ∧ results < total (p.demands .result) ∧
          e = .allocation .result (.exhausted results))) : a.UsesExactly p qubits results := by
  cases h : a.failure with
  | none =>
    obtain ⟨⟨hq, hqle⟩, ⟨hr, hrle⟩, hqs, hrs⟩ := served h
    exact ⟨iff_of_true h ⟨hqle, hrle⟩, fun hlt => by omega, fun _ hlt => by omega, fun _ => hq,
      fun _ => hr, fun _ => hqs, fun _ => hrs⟩
  | some e =>
    have not : a.failure ≠ none := by simp [h]
    rcases failed e h with ⟨hlt, rfl⟩ | ⟨hle, hlt, rfl⟩
    · exact ⟨iff_of_false not (by omega), fun _ => h, fun hle => by omega, fun hn => absurd hn not,
        fun hn => absurd hn not, fun hn => absurd hn not, fun hn => absurd hn not⟩
    · exact ⟨iff_of_false not (by omega), fun hlt => by omega, fun _ _ => h,
        fun hn => absurd hn not, fun hn => absurd hn not, fun hn => absurd hn not,
        fun hn => absurd hn not⟩

/-- **Applying a profile without reuse uses exactly what a program asks for**,
whether its instructions can be reached or not. There are as many as the
capacities say; they are words, and where there is none, the largest word
stands in. -/
theorem apply_usesExactly (p : Program) (hp : p.verify = .ok ()) (target : Option Target)
    (qubits results : Option ℕ) :
    ((new false target (.fresh .noReuse qubits) (.fresh .noReuse results) .empty).apply
      p).UsesExactly p (min (qubits.getD (addressLimit - 1)) (addressLimit - 1))
        (min (results.getD (addressLimit - 1)) (addressLimit - 1)) := by
  have nodup := (Program.verify_eq_ok_iff.1 hp).values
  have passes := Schedule.allocation_passes false
  have new : ∀ v, (Tracker.empty).resolve? v = none := fun _ => rfl
  refine Application.usesExactly (fun h => ?_) fun e h => ?_
  · exact Schedule.served_of_run
      (c := .start (.fresh .noReuse qubits) (.fresh .noReuse results) .empty)
      passes nodup new rfl rfl rfl rfl h
  · exact Schedule.exhausted_of_run
      (c := .start (.fresh .noReuse qubits) (.fresh .noReuse results) .empty)
      rfl passes nodup new rfl rfl rfl rfl h

/-! ## A program with a block that cannot be reached -/

/-- A qubit and an array of three are acquired and the qubit is measured; a block
that cannot be reached and another definition acquire one qubit each. -/
def sixQubits : Program where
  name := "six qubits"
  functions := [
    { name := "main"
      params := []
      signature := []
      returnType := .void
      blocks := [
        ⟨⟨0⟩, "entry", [
          ⟨some ⟨0⟩, .qubit, .call Intrinsics.acquireQubit []⟩,
          ⟨some ⟨1⟩, .array, .call Intrinsics.acquireArray [.int 3]⟩,
          ⟨some ⟨2⟩, .result, .call Intrinsics.measure [.value ⟨0⟩]⟩],
          some (.ret none)⟩,
        ⟨⟨1⟩, "unreachable", [⟨some ⟨3⟩, .qubit, .call Intrinsics.acquireQubit []⟩],
          some (.branch ⟨1⟩)⟩]
      attributes := SortedMap.empty.insert Function.entryPointAttribute "" },
    { name := "other"
      params := []
      signature := []
      returnType := .void
      blocks := [
        ⟨⟨0⟩, "entry", [⟨some ⟨4⟩, .qubit, .call Intrinsics.acquireQubit []⟩],
          some (.ret none)⟩]
      attributes := .empty }]
  flags := .empty
  nextValue := 5

theorem apply_usesExactly_sixQubits :
    sixQubits.verify = .ok () ∧
      sixQubits.demands .qubit = [(⟨0⟩, 1), (⟨1⟩, 3), (⟨3⟩, 1), (⟨4⟩, 1)] ∧
      sixQubits.demands .result = [(⟨2⟩, 1)] ∧
      ((new false none (.fresh .noReuse (some 6)) (.fresh .noReuse none) .empty).apply
        sixQubits).failure = none ∧
      ((new false none (.fresh .noReuse (some 6)) (.fresh .noReuse none) .empty).apply
        sixQubits).UsesExactly sixQubits 6 (addressLimit - 1) ∧
      ((new false none (.fresh .noReuse (some 5)) (.fresh .noReuse (some 0)) .empty).apply
        sixQubits).failure = some (.allocation .qubit (.exhausted 5)) := by
  have verified : sixQubits.verify = .ok () := by decide
  have exact := apply_usesExactly sixQubits verified none (some 6) none
  have short := apply_usesExactly sixQubits verified none (some 5) (some 0)
  exact ⟨verified, by decide, by decide, exact.succeeds.2 ⟨by decide, by decide⟩, exact,
    short.withoutQubits (by decide)⟩

end Profile

end QuantumLowering
