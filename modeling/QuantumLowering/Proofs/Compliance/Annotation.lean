import QuantumLowering.Proofs.Compliance.Limits
/-!
# Stating the needs and asking the rules

The last pass looks through a program to state what it needs and what it
still manages at run time, and the rules look through it again. Both tell
instructions apart in the same way (`Requirements.rules_agree`): the needs
that are stated can be read back, the flags comply just if nothing is managed
any more, stating the needs again changes nothing, and no other rule is
answered differently.
-/


namespace QuantumLowering

variable {p : Program} {c : Context}

/-! ## What does not depend on attributes -/

namespace Program

/-- A condition on instructions does not look at their functions. -/
theorem any_instructions (condition : Instruction → Bool) :
    (p.instructions.any fun e => condition e.2) =
      (p.definitions.flatMap Function.instructions).any condition := by
  simp only [instructions, List.any_flatMap, List.any_map]
  rfl

/-- The instructions with the names of their functions. -/
def named (p : Program) : List (String × Instruction) :=
  p.definitions.flatMap fun f => f.instructions.map fun i => (f.name, i)

/-- The first instruction that meets a condition, with the name of its function. -/
theorem find?_named (condition : Instruction → Bool) :
    (p.named.find? fun e => condition e.2) =
      (p.instructions.find? fun e => condition e.2).map fun e => (e.1.name, e.2) := by
  have hnamed : p.named = p.instructions.map fun e => (e.1.name, e.2) := by
    simp only [named, instructions, List.map_flatMap, List.map_map]
    rfl
  rw [hnamed, List.find?_map]
  rfl

end Program

namespace Requirements

/-- An instruction of a kind is there just if one was there before. -/
theorem any_run (condition : Instruction → Bool) :
    ((run p c).program.instructions.any fun e => condition e.2) =
      p.instructions.any fun e => condition e.2 := by
  rw [Program.any_instructions, Program.any_instructions, flatMap_definitions_run fun _ _ => rfl]

theorem managesQubits_run : (run p c).program.managesQubits = p.managesQubits :=
  any_run Instruction.managesQubits

theorem acquiresResults_run : acquiresResults (run p c).program = acquiresResults p :=
  any_run acquiresResult

theorem named_run : (run p c).program.named = p.named := flatMap_definitions_run fun _ _ => rfl

/-- As much is needed as before. -/
theorem extent_run (kind : ResourceKind) : extent (run p c).program c kind = extent p c kind := by
  change ((run p c).program.instructionAddresses kind).foldl _ _ =
    (p.instructionAddresses kind).foldl _ _
  rw [instructionAddresses_run]

end Requirements

/-! ## What the rules look for -/

namespace Rules

/-- The rule finds a call that manages qubits if there is one. -/
theorem passed_noDynamicQubits : (noDynamicQubits p).passed ↔ p.managesQubits = false := by
  unfold noDynamicQubits Program.managesQubits
  rw [← List.isSome_find?]
  cases p.instructions.find? fun e => e.2.managesQubits <;> simp [Verdict.pass, Verdict.fail]

/-- The rule finds an instruction that acquires a result if there is one. -/
theorem passed_noDynamicResults :
    (noDynamicResults p).passed ↔ Requirements.acquiresResults p = false := by
  unfold noDynamicResults Requirements.acquiresResults
  rw [← List.isSome_find?]
  change _ ↔ (p.instructions.find? fun e => e.2.result.isSome && e.2.type = .result).isSome = false
  cases p.instructions.find? fun e => e.2.result.isSome && e.2.type = .result <;>
    simp [Verdict.pass, Verdict.fail]

end Rules

namespace Requirements

/-- A rule that names the first instruction of a kind is answered as before. -/
theorem finding_run {rule : Program → Verdict} (condition : Instruction → Bool)
    (say : String × Instruction → String)
    (found : ∀ q : Program, rule q =
      ((q.instructions.find? fun e => condition e.2).map fun e => (e.1.name, e.2)).elim .pass
        fun e => .fail (say e)) :
    rule (run p c).program = rule p := by
  rw [found, found, ← Program.find?_named, ← Program.find?_named, named_run]

theorem noDynamicQubits_run :
    Rules.noDynamicQubits (run p c).program = Rules.noDynamicQubits p := by
  refine finding_run Instruction.managesQubits
    (fun e => "`" ++ e.1 ++ "` calls `" ++ e.2.name ++ "`") fun q => ?_
  unfold Rules.noDynamicQubits
  cases q.instructions.find? fun e => e.2.managesQubits <;> rfl

theorem noDynamicResults_run :
    Rules.noDynamicResults (run p c).program = Rules.noDynamicResults p := by
  refine finding_run acquiresResult
    (fun e => "`" ++ e.1 ++ "` produces a dynamic result with `" ++ e.2.name ++ "`") fun q => ?_
  unfold Rules.noDynamicResults acquiresResult
  cases q.instructions.find? fun e => e.2.result.isSome && e.2.type = .result <;> rfl

theorem staticOperands_run : Rules.staticOperands (run p c).program = Rules.staticOperands p := by
  simp only [Rules.staticOperands, Program.instructions, List.flatMap_assoc, List.flatMap_map]
  rw [flatMap_definitions_run fun _ _ => rfl]

theorem allowedIntrinsics_run :
    Rules.allowedIntrinsics (run p c).program = Rules.allowedIntrinsics p := by
  simp only [Rules.allowedIntrinsics, Program.instructions, List.filterMap_flatMap,
    List.filterMap_map]
  rw [flatMap_definitions_run fun _ _ => rfl]

/-- **Rules that do not ask for what is stated** are answered as before. -/
theorem judge_run (entries : (p.definitions.filter Function.isEntryPoint).length = 1) :
    ∀ r ∈ Rules.base, r.name ≠ "required-resource-attributes" → r.name ≠ "module-flags" →
      r.judge (run p c).program = r.judge p := by
  intro r hr needs flags
  simp only [Rules.base, List.mem_cons, List.not_mem_nil, or_false] at hr
  rcases hr with rfl | rfl | rfl | rfl | rfl | rfl | rfl
  · exact noDynamicQubits_run
  · exact noDynamicResults_run
  · exact staticOperands_run
  · have entries' : ((run p c).program.definitions.filter Function.isEntryPoint).length = 1 :=
      (length_entries (forall₂_run.imp fun f g h => h.1)).trans entries
    exact (Rules.singleEntry_eq_pass entries').trans (Rules.singleEntry_eq_pass entries).symm
  · exact absurd rfl needs
  · exact allowedIntrinsics_run
  · exact absurd rfl flags

end Requirements

/-! ## Stating the needs again -/

theorem Function.setAttribute_of_attribute? {f : Function} {key value : String}
    (h : f.attribute? key = some value) : f.setAttribute key value = f := by
  rw [setAttribute, SortedMap.insert_of_find? h]

namespace Program

variable {key : String} {value stated : FlagValue}

theorem setFlag_of_flag? (h : p.flag? key = some value) : p.setFlag key value = p := by
  rw [setFlag, SortedMap.insert_of_find? h]

theorem setFlagIfNew_of_flag? (h : p.flag? key = some stated) : p.setFlagIfNew key value = p := by
  rw [setFlagIfNew, SortedMap.insertIfNew_of_find? h]

/-- Changing the entry point changes nothing if it stays as it is. -/
theorem updateEntryPoint_of_eq {change : Function → Function}
    (h : ∀ f, p.entryPoint? = some f → change f = f) : p.updateEntryPoint change = p := by
  have same : ∀ fs : List Function, (∀ f, fs.find? isEntry = some f → change f = f) →
      updateFirst isEntry change fs = fs := by
    intro fs
    induction fs with
    | nil => exact fun _ => rfl
    | cons f fs ih =>
      intro h
      unfold updateFirst
      cases hf : isEntry f with
      | true => rw [if_pos rfl, h f (List.find?_cons_of_pos hf)]
      | false =>
        rw [List.find?_cons_of_neg (by simp [hf])] at h
        rw [if_neg Bool.false_ne_true, ih h]
  rw [updateEntryPoint, same p.functions h]

end Program

namespace Requirements

/-- A function that states the needs already is not changed. -/
theorem withNeeds_withNeeds (needs : ResourceKind → ℕ) (f : Function) :
    withNeeds (needs .qubit) (needs .result) (withNeeds (needs .qubit) (needs .result) f) =
      withNeeds (needs .qubit) (needs .result) f := by
  have qubits := attribute?_withNeeds needs .qubit f
  have results := attribute?_withNeeds needs .result f
  generalize withNeeds (needs .qubit) (needs .result) f = g at qubits results
  change (g.setAttribute (needsAttribute .qubit) (toString (needs .qubit))).setAttribute
    (needsAttribute .result) (toString (needs .result)) = g
  rw [Function.setAttribute_of_attribute? qubits, Function.setAttribute_of_attribute? results]

/-- The needs that are stated are those stated before. -/
theorem stateNeeds_run : stateNeeds (run p c).program (extent p c .qubit) (extent p c .result) =
    (run p c).program := by
  rw [stateNeeds_eq]
  -- the entry point that is changed again is the one that states the needs already
  refine Program.updateEntryPoint_of_eq fun g hg => ?_
  change (stateNeeds p (extent p c .qubit) (extent p c .result)).entryPoint? = some g at hg
  rw [stateNeeds_eq, entryPoint?_updateEntryPoint (isEntry_withNeeds _ _)] at hg
  obtain ⟨f, -, rfl⟩ := Option.map_eq_some_iff.1 hg
  exact withNeeds_withNeeds (extent p c) f

/-- So are the flags. -/
theorem stateFlags_run :
    stateFlags (run p c).program p.managesQubits (acquiresResults p) = (run p c).program := by
  -- an earlier minor version stays, so it is not known which one is stated
  have minor : ∃ value, (run p c).program.flag? Intrinsics.minorVersion = some value :=
    ⟨_, by simp only [Program.flag?, flags_run, SortedMap.find?_insertIfNew]; rfl⟩
  obtain ⟨value, hvalue⟩ := minor
  rw [stateFlags, Program.setFlag_of_flag? flag?_dynamicQubits_run,
    Program.setFlag_of_flag? flag?_dynamicResults_run,
    Program.setFlagIfNew_of_flag? flag?_majorVersion_run, Program.setFlagIfNew_of_flag? hvalue]

/-- **Stating the needs twice** is stating them once. -/
theorem program_run_run : (run (run p c).program c).program = (run p c).program := by
  change stateFlags (stateNeeds (run p c).program (extent (run p c).program c .qubit)
    (extent (run p c).program c .result)) (run p c).program.managesQubits
      (acquiresResults (run p c).program) = _
  rw [extent_run, extent_run, managesQubits_run, acquiresResults_run, stateNeeds_run,
    stateFlags_run]

/-! ## The pass and the rules -/

/-- **The pass and the rules agree.** In a program with one entry point the needs that
are stated pass their rule, counts being below `addressLimit`; the flags pass theirs if
and only if the rules find nothing that is managed at run time and no other version was
stated before. Stating the needs again changes nothing, and all other rules are answered
as before. -/
theorem rules_agree (p : Program)
    (entries : (p.definitions.filter Function.isEntryPoint).length = 1) (c : Context)
    (counted : ∀ kind, (c.pool kind).highWater < addressLimit) :
    let outcome := run p c
    outcome.failure = none ∧ outcome.context = c ∧
      (Rules.statedNeeds outcome.program).passed ∧
      ((Rules.declaredFlags outcome.program).passed ↔
        (Rules.noDynamicQubits outcome.program).passed ∧
          (Rules.noDynamicResults outcome.program).passed ∧
            ∀ flag, p.flag? Intrinsics.majorVersion = some flag → flag = .int 1) ∧
      (run outcome.program outcome.context).program = outcome.program ∧
      ∀ r ∈ Rules.base, r.name ≠ "required-resource-attributes" → r.name ≠ "module-flags" →
        r.judge outcome.program = r.judge p := by
  refine ⟨rfl, rfl, ?_, ?_, program_run_run, judge_run entries⟩
  · rw [statedNeeds_run counted (Program.isSome_entryPoint? entries)]
    rfl
  · rw [Rules.declaredFlags, Verdict.passed_passIfNone, ← Rules.declaredFlags,
      declaredFlags_run_iff, Rules.passed_noDynamicQubits, Rules.passed_noDynamicResults,
      managesQubits_run, acquiresResults_run]

/-- A gate on the greatest address, and a measurement that is not lowered. -/
def greatestMain : Function where
  name := "main"
  params := []
  signature := []
  returnType := .void
  blocks := [
    ⟨⟨0⟩, "entry", [
      .call "__quantum__qis__h__body" [.qubit (addressLimit - 1)],
      ⟨some ⟨0⟩, .result, .call Intrinsics.measure [.qubit 0]⟩],
      some (.ret none)⟩]
  attributes := SortedMap.empty.insert Function.entryPointAttribute ""

/-- The program of that function alone. -/
def greatest : Program where
  name := "greatest"
  functions := [greatestMain]
  flags := .empty
  nextValue := 1

theorem rules_agree_greatest :
    (greatest.definitions.filter Function.isEntryPoint).length = 1 ∧
      (∀ kind, (Context.default.pool kind).highWater < addressLimit) ∧
      (Rules.statedNeeds (run greatest .default).program).passed ∧
      ¬ (Rules.declaredFlags (run greatest .default).program).passed ∧
      (run (run greatest .default).program .default).program = (run greatest .default).program ∧
      Rules.noDynamicResults (run greatest .default).program =
        .fail "`main` produces a dynamic result with `__quantum__qis__m__body`" := by
  have entries : (greatest.definitions.filter Function.isEntryPoint).length = 1 := by decide
  have counted : ∀ kind, (Context.default.pool kind).highWater < addressLimit := by
    intro kind
    cases kind <;> decide
  obtain ⟨-, -, needs, flags, again, others⟩ := rules_agree greatest entries .default counted
  have results : Rules.noDynamicResults (run greatest .default).program =
      .fail "`main` produces a dynamic result with `__quantum__qis__m__body`" :=
    (others ⟨"no-dynamic-result-management", Rules.noDynamicResults⟩ (by simp [Rules.base])
      (by decide) (by decide)).trans (by decide)
  refine ⟨entries, counted, needs, fun h => ?_, again, results⟩
  have passed := (flags.1 h).2.1
  rw [results] at passed
  cases passed

end Requirements

end QuantumLowering
