import QuantumLowering.Compliance.Rules
import QuantumLowering.Lowering.Requirements
import QuantumLowering.Proofs.Program.Functions
import QuantumLowering.Proofs.Resource.Live
import QuantumLowering.Proofs.Resource.Table
/-!
# What is stated can be read back

A program states its needs as decimal numbers, and the rules of the base
profile read them back. They must be numbers that addresses can count:
no pool hands out more handles than that, and the need of an address is
cut off there.
-/


namespace QuantumLowering

/-! ## Numbers -/

namespace Text

/-- The value of a decimal digit. -/
theorem digitValue?_of_isDigit {c : Char} (h : c.isDigit) :
    digitValue? 10 c = some (c.toNat - '0'.toNat) := by
  have hc : '0' ≤ c ∧ c ≤ '9' := by
    simpa [Char.isDigit, Char.le_def] using h
  have h9 : c.toNat ≤ '9'.toNat := hc.2
  have hlt : c.toNat - '0'.toNat < 10 := by
    have : '9'.toNat = 57 := rfl
    have : '0'.toNat = 48 := rfl
    omega
  simp only [digitValue?, if_pos hc, if_pos hlt]

/-- The number that decimal digits spell. -/
theorem number?_of_isDigit {cs : List Char} (hne : cs ≠ []) (h : ∀ c ∈ cs, c.isDigit) :
    number? 10 cs = some (Nat.ofDigitChars 10 cs 0) := by
  have digits : ∀ l : List Char, (∀ c ∈ l, c.isDigit) →
      l.mapM (digitValue? 10) = some (l.map fun c => c.toNat - '0'.toNat) := by
    intro l
    induction l with
    | nil => exact fun _ => rfl
    | cons c l ih =>
      intro hl
      rw [List.mapM_cons, digitValue?_of_isDigit (hl c List.mem_cons_self),
        ih fun d hd => hl d (List.mem_cons_of_mem c hd)]
      rfl
  cases cs with
  | nil => exact absurd rfl hne
  | cons c cs =>
    simp only [number?, digits _ h, Option.map_some, Nat.ofDigitChars_eq_foldl, List.foldl_map,
      Nat.mul_comm]

/-- **A count is read back as it was spelled.** -/
theorem count?_toString {limit n : ℕ} (h : n < limit) :
    count? limit (toString n).toList = some n := by
  -- a number starts with a digit, so it is not taken for one with a sign
  have hdigit : ∀ c ∈ Nat.toDigits 10 n, c.isDigit := fun c hc =>
    Nat.isDigit_of_mem_toDigits (by decide) (by decide) hc
  have hnumber : number? 10 (Nat.toDigits 10 n) = some n := by
    rw [number?_of_isDigit Nat.toDigits_ne_nil hdigit, Nat.ofDigitChars_ten_toDigits]
  rw [Nat.toString_eq_repr, Nat.toList_repr]
  unfold count?
  split
  · rename_i rest hplus
    exact absurd (hdigit '+' (by simp [hplus])) (by decide)
  · simp [hnumber, h]

end Text

/-! ## The number of resources needed -/

namespace Requirements

variable {p : Program} {c : Context}

theorem needed_lt (h : Handle) : needed h < addressLimit :=
  lt_of_le_of_lt (Nat.min_le_right _ _) (by decide)

/-- **What is needed can be counted** if what the pool has handed out can. -/
theorem extent_lt (p : Program) (kind : ResourceKind)
    (h : (c.pool kind).highWater < addressLimit) : extent p c kind < addressLimit := by
  have key : ∀ (l : List Handle) (n : ℕ), n < addressLimit →
      l.foldl (fun n h => max n (needed h)) n < addressLimit := by
    intro l
    induction l with
    | nil => exact fun _ hn => hn
    | cons h l ih => exact fun n hn => ih _ (Nat.max_lt.2 ⟨hn, needed_lt h⟩)
  exact key _ _ h

/-! ## Attributes -/

/-- Changing the entry point changes the one that is found. -/
theorem entryPoint?_updateEntryPoint {change : Function → Function}
    (h : ∀ f, Program.isEntry (change f) = Program.isEntry f) :
    (p.updateEntryPoint change).entryPoint? = p.entryPoint?.map change := by
  unfold Program.updateEntryPoint Program.entryPoint?
  generalize p.functions = fs
  induction fs with
  | nil => rfl
  | cons f fs ih =>
    unfold Program.updateFirst
    cases hf : Program.isEntry f with
    | true => simp [h, hf]
    | false => simpa [hf] using ih

/-- Setting an attribute does not change whether a function is an entry
point, unless it is the attribute that says so. -/
theorem isEntryPoint_setAttribute {f : Function} {key value : String}
    (h : key ≠ Function.entryPointAttribute) :
    (f.setAttribute key value).isEntryPoint = f.isEntryPoint := by
  unfold Function.isEntryPoint Function.setAttribute SortedMap.contains
  rw [SortedMap.find?_insert, beq_false_of_ne (Ne.symm h)]
  rfl

/-- A function that states what it needs. -/
def withNeeds (qubits results : ℕ) (f : Function) : Function :=
  (f.setAttribute Intrinsics.requiredQubits (toString qubits)).setAttribute
    Intrinsics.requiredResults (toString results)

theorem stateNeeds_eq (p : Program) (qubits results : ℕ) :
    stateNeeds p qubits results = p.updateEntryPoint (withNeeds qubits results) := rfl

theorem isEntryPoint_withNeeds (qubits results : ℕ) (f : Function) :
    (withNeeds qubits results f).isEntryPoint = f.isEntryPoint := by
  unfold withNeeds
  rw [isEntryPoint_setAttribute (by decide), isEntryPoint_setAttribute (by decide)]

theorem isEntry_withNeeds (qubits results : ℕ) (f : Function) :
    Program.isEntry (withNeeds qubits results f) = Program.isEntry f := by
  unfold Program.isEntry
  rw [isEntryPoint_withNeeds]
  rfl

/-- The attribute that states how much of a kind is needed. -/
def needsAttribute : ResourceKind → String
  | .qubit => Intrinsics.requiredQubits
  | .result => Intrinsics.requiredResults

/-- Each need is stated in its attribute. -/
theorem attribute?_withNeeds (needs : ResourceKind → ℕ) (kind : ResourceKind) (f : Function) :
    (withNeeds (needs .qubit) (needs .result) f).attribute? (needsAttribute kind) =
      some (toString (needs kind)) := by
  unfold withNeeds Function.attribute? Function.setAttribute
  cases kind with
  | qubit =>
    rw [SortedMap.find?_insert, if_neg (by decide), SortedMap.find?_insert, if_pos (by decide)]
  | result => rw [SortedMap.find?_insert, if_pos (by decide)]

/-- Both needs can be read back. -/
theorem statesCount_withNeeds {needs : ResourceKind → ℕ} (h : ∀ kind, needs kind < addressLimit)
    (f : Function) :
    ∀ key ∈ [Intrinsics.requiredQubits, Intrinsics.requiredResults],
      Rules.statesCount (withNeeds (needs .qubit) (needs .result) f) key := by
  have states : ∀ kind, Rules.statesCount (withNeeds (needs .qubit) (needs .result) f)
      (needsAttribute kind) := by
    intro kind
    unfold Rules.statesCount
    rw [attribute?_withNeeds, Option.bind_some, Text.count?_toString (h kind)]
    rfl
  intro key hkey
  rcases List.mem_pair.1 hkey with rfl | rfl
  · exact states .qubit
  · exact states .result

/-- The entry point states what is needed. -/
theorem entryPoint?_run {f : Function} (hf : p.entryPoint? = some f) :
    (run p c).program.entryPoint? =
      some (withNeeds (extent p c .qubit) (extent p c .result) f) := by
  change (stateNeeds p (extent p c .qubit) (extent p c .result)).entryPoint? = _
  rw [stateNeeds_eq, entryPoint?_updateEntryPoint (isEntry_withNeeds _ _), hf]
  rfl

/-- **What a program needs is stated and can be read back.** -/
theorem statedNeeds_run (counted : ∀ kind, (c.pool kind).highWater < addressLimit)
    (entry : p.entryPoint?.isSome) : Rules.statedNeeds (run p c).program = .pass := by
  obtain ⟨f, hf⟩ := Option.isSome_iff_exists.1 entry
  have stated := statesCount_withNeeds (fun kind => extent_lt p kind (counted kind)) f
  simp only [Rules.statedNeeds, entryPoint?_run hf]
  rw [List.filter_eq_nil_iff.2 fun key hkey => by simp [stated key hkey]]
  rfl

/-! ## Flags -/

/-- What the flags say afterwards. -/
theorem flags_run : (run p c).program.flags =
    (((p.flags.insert Intrinsics.dynamicQubits (.bool p.managesQubits)).insert
      Intrinsics.dynamicResults (.bool (acquiresResults p))).insertIfNew
        Intrinsics.majorVersion (.int 1)).insertIfNew Intrinsics.minorVersion (.int 0) := rfl

theorem flag?_dynamicQubits_run : (run p c).program.flag? Intrinsics.dynamicQubits =
    some (.bool p.managesQubits) := by
  simp only [Program.flag?, flags_run, SortedMap.find?_insertIfNew, SortedMap.find?_insert]
  rfl

theorem flag?_dynamicResults_run : (run p c).program.flag? Intrinsics.dynamicResults =
    some (.bool (acquiresResults p)) := by
  simp only [Program.flag?, flags_run, SortedMap.find?_insertIfNew, SortedMap.find?_insert]
  rfl

/-- The version is stated only where the program states none. -/
theorem flag?_majorVersion_run : (run p c).program.flag? Intrinsics.majorVersion =
    some ((p.flag? Intrinsics.majorVersion).getD (.int 1)) := by
  have minor : (Intrinsics.majorVersion == Intrinsics.minorVersion) = false := by decide
  have results : (Intrinsics.majorVersion == Intrinsics.dynamicResults) = false := by decide
  have qubits : (Intrinsics.majorVersion == Intrinsics.dynamicQubits) = false := by decide
  simp [Program.flag?, flags_run, SortedMap.find?_insertIfNew, SortedMap.find?_insert, minor,
    results, qubits]

end Requirements

namespace Verdict

variable {α : Type} {complaint : List α → String} {l : List α}

theorem passIfNone_eq_pass : passIfNone complaint l = .pass ↔ l = [] := by
  cases l <;> simp [passIfNone, pass, fail]

/-- A program complies if and only if there is nothing to complain of. -/
theorem passed_passIfNone : (passIfNone complaint l).passed ↔ passIfNone complaint l = .pass := by
  cases l <;> simp [passIfNone, pass, fail]

end Verdict

namespace Rules

variable {p : Program}

theorem flagComplaint?_eq_none {key : String} {expected : FlagValue} :
    flagComplaint? p key expected = none ↔ p.flag? key = some expected := by
  unfold flagComplaint?
  cases p.flag? key with
  | none => simp
  | some actual => by_cases h : actual = expected <;> simp [h]

/-- The flags have to be the expected ones. -/
theorem declaredFlags_eq_pass_iff :
    declaredFlags p = .pass ↔ p.flag? Intrinsics.majorVersion = some (.int 1) ∧
      p.flag? Intrinsics.dynamicQubits = some (.bool false) ∧
        p.flag? Intrinsics.dynamicResults = some (.bool false) := by
  unfold declaredFlags
  rw [Verdict.passIfNone_eq_pass, List.filterMap_eq_nil_iff]
  simp only [flagComplaint?_eq_none, expectedFlags, List.forall_mem_cons, List.not_mem_nil,
    false_implies, implies_true, and_true]

end Rules

/-- **The flags say that a program complies** if and only if it manages nothing at run
time and states no other version. -/
theorem Requirements.declaredFlags_run_iff {p : Program} {c : Context} :
    Rules.declaredFlags (run p c).program = .pass ↔ p.managesQubits = false ∧
      acquiresResults p = false ∧
        ∀ flag, p.flag? Intrinsics.majorVersion = some flag → flag = .int 1 := by
  have version : (p.flag? Intrinsics.majorVersion).getD (.int 1) = .int 1 ↔
      ∀ flag, p.flag? Intrinsics.majorVersion = some flag → flag = .int 1 := by
    cases p.flag? Intrinsics.majorVersion <;> simp
  rw [Rules.declaredFlags_eq_pass_iff, flag?_majorVersion_run, flag?_dynamicQubits_run,
    flag?_dynamicResults_run, ← version]
  simp only [Option.some.injEq, FlagValue.bool.injEq]
  exact and_rotate

end QuantumLowering
