import QuantumLowering.Lowering.Qubits
import QuantumLowering.Proofs.Execution.Basic
import QuantumLowering.Proofs.Lowering.Visit
/-!
# Which qubits are held

Along a walk a function acquires qubits and releases them. A qubit is
named by the value that acquired it, and by its index if it was acquired
in an array. Copies, phis and elements of arrays stand for qubits that
were acquired before, so a release may name a qubit in many ways. What
cannot be told from constants counts as no qubit: an array of unknown size
and an element at an unknown index.
-/


namespace QuantumLowering

/-- A qubit that was acquired. -/
structure Qubit where
  /-- The value that acquired it. -/
  value : ValueId
  /-- Its index among those acquired together. -/
  index : ℕ
deriving DecidableEq

/-- What a value stands for. -/
inductive Holding where
  /-- No qubit that could be told. -/
  | nothing
  /-- A qubit. -/
  | qubit (q : Qubit)
  /-- The qubits that a value acquired together. -/
  | array (value : ValueId) (size : ℕ)
deriving DecidableEq

namespace Holding

/-- The qubits that a value stands for. -/
def qubits : Holding → List Qubit
  | nothing => []
  | qubit q => [q]
  | array v size => (List.range size).map fun k => ⟨v, k⟩

/-- The element of an array at an index, if it has one. -/
def element (index : ℕ) : Holding → Holding
  | array v size => if index < size then qubit ⟨v, index⟩ else nothing
  | _ => nothing

theorem qubits_element_subset {h : Holding} {index : ℕ} :
    (h.element index).qubits ⊆ h.qubits := by
  cases h with
  | array v size =>
    simp only [element]
    split
    · rename_i hlt
      intro q hq
      obtain rfl := List.mem_singleton.1 hq
      exact List.mem_map.2 ⟨index, List.mem_range.2 hlt, rfl⟩
    · exact List.nil_subset _
  | _ => exact List.nil_subset _

end Holding

/-- What an instruction acquires: a value and the qubits it names. An array
of unknown size acquires nothing that could be told. -/
def Instruction.acquires? (i : Instruction) : Option (ValueId × Holding) :=
  match i.operation, i.result with
  | .call callee args, some v =>
    if callee = Intrinsics.acquireQubit then some (v, .qubit ⟨v, 0⟩)
    else if callee = Intrinsics.acquireArray then
      (args.head?.bind QubitLowering.constant?).map fun size => (v, .array v size)
    else none
  | _, _ => none

/-- Acquisitions of a qubit and of an array of known size. -/
theorem Instruction.acquires?_eq_some {i : Instruction} {v : ValueId} {held : Holding}
    (h : i.acquires? = some (v, held)) :
    (∃ ty args, i = ⟨some v, ty, .call Intrinsics.acquireQubit args⟩ ∧ held = .qubit ⟨v, 0⟩) ∨
      ∃ ty args size, i = ⟨some v, ty, .call Intrinsics.acquireArray args⟩ ∧
        args.head?.bind QubitLowering.constant? = some size ∧ held = .array v size := by
  obtain ⟨result, ty, operation⟩ := i
  unfold acquires? at h
  split at h
  · rename_i callee args u hop hresult
    obtain rfl : operation = .call callee args := hop
    obtain rfl : result = some u := hresult
    split at h
    · rename_i hc
      cases h
      exact .inl ⟨ty, args, by rw [hc], rfl⟩
    split at h
    · rename_i hc
      obtain ⟨size, hsize, h⟩ := Option.map_eq_some_iff.1 h
      cases h
      exact .inr ⟨ty, args, size, by rw [hc], hsize, rfl⟩
    · cases h
  · cases h

theorem Instruction.result_of_acquires {i : Instruction} {v : ValueId} {held : Holding}
    (h : i.acquires? = some (v, held)) : i.result = some v := by
  rcases acquires?_eq_some h with ⟨_, _, rfl, -⟩ | ⟨_, _, _, rfl, -⟩
  · rfl
  · rfl

/-- What an instruction releases, if anything. -/
def Instruction.releases? (i : Instruction) : Option Operand :=
  match i.operation, i.result with
  | .call callee (target :: _), none =>
    if callee = Intrinsics.releaseQubit ∨ callee = Intrinsics.releaseArray then some target
    else none
  | _, _ => none

namespace Instruction

variable {v : ValueId} {ty : Ty} {callee : String} {args : List Operand} {operation : Operation}

@[simp] theorem acquires?_acquireQubit :
    acquires? ⟨some v, ty, .call Intrinsics.acquireQubit args⟩ = some (v, .qubit ⟨v, 0⟩) := by
  simp [acquires?]

@[simp] theorem acquires?_acquireArray :
    acquires? ⟨some v, ty, .call Intrinsics.acquireArray args⟩ =
      (args.head?.bind QubitLowering.constant?).map fun size => (v, .array v size) := by
  have other : Intrinsics.acquireArray ≠ Intrinsics.acquireQubit := by decide
  simp [acquires?, other]

@[simp] theorem acquires?_arrayElement :
    acquires? ⟨some v, ty, .call Intrinsics.arrayElement args⟩ = none := by
  have other : Intrinsics.arrayElement ≠ Intrinsics.acquireQubit ∧
      Intrinsics.arrayElement ≠ Intrinsics.acquireArray := by decide
  simp [acquires?, other]

@[simp] theorem acquires?_of_result_none : acquires? ⟨none, ty, operation⟩ = none := by
  cases operation <;> rfl

@[simp] theorem releases?_of_result_some : releases? ⟨some v, ty, operation⟩ = none := by
  cases operation with
  | call callee args => cases args <;> rfl
  | _ => rfl

/-- A release computes no value. -/
theorem result_of_releases {i : Instruction} (h : i.releases?.isSome) : i.result = none := by
  obtain ⟨result, ty, operation⟩ := i
  cases result with
  | none => rfl
  | some v => simp at h

theorem releases?_call {target : Operand}
    (h : callee = Intrinsics.releaseQubit ∨ callee = Intrinsics.releaseArray) :
    releases? ⟨none, ty, .call callee (target :: args)⟩ = some target := by
  simp [releases?, h]

end Instruction

namespace QubitLowering

theorem releases?_of_role {i : Instruction} {target : Operand} (h : role i = .release target) :
    i.releases? = some target := by
  obtain ⟨result, ty, operation⟩ := i
  cases result with
  | some v =>
    cases operation with
    | call callee args =>
      simp only [role, valueCallRole] at h
      split at h
      · cases h
      split at h
      · cases h
      split at h <;> cases h
    | _ =>
      simp only [role] at h
      split at h <;> cases h
  | none =>
    cases operation with
    | call callee args =>
      simp only [role, plainCallRole] at h
      split at h
      · rename_i hc
        cases args with
        | nil => cases h
        | cons a args =>
          cases h
          exact Instruction.releases?_call hc
      · cases h
    | _ => cases h

end QubitLowering

/-- Who holds which qubits at a point of a walk. -/
structure Custody where
  /-- What values stand for. -/
  holdings : ValueId → Holding
  /-- The qubits acquired so far. -/
  acquired : List Qubit
  /-- The qubits released so far. -/
  released : List Qubit

namespace Custody

/-- Nothing was acquired yet. -/
def start : Custody := ⟨fun _ => .nothing, [], []⟩

/-- The qubits acquired and not released. -/
def held (c : Custody) : List Qubit := c.acquired.filter fun q => q ∉ c.released

/-- What an operand stands for. -/
def holding (c : Custody) : Operand → Holding
  | .value v => c.holdings v
  | _ => .nothing

/-- Lets a value stand for something. -/
def set (c : Custody) (v : ValueId) (h : Holding) : Custody :=
  { c with holdings := fun u => if u = v then h else c.holdings u }

/-- Lets a value acquire qubits. -/
def acquire (c : Custody) (v : ValueId) (h : Holding) : Custody :=
  { c.set v h with acquired := c.acquired ++ h.qubits }

/-- Releases what an operand stands for. -/
def release (c : Custody) (target : Operand) : Custody :=
  { c with released := c.released ++ (c.holding target).qubits }

/-- What an instruction lets its value stand for, if it acquires nothing. -/
def derived (c : Custody) (source : Option BlockId) : Operation → Holding
  | .call callee args =>
    if callee = Intrinsics.arrayElement then
      match QubitLowering.element? args with
      | some (array, index) => (c.holding array).element index
      | none => .nothing
    else .nothing
  | .copy o => c.holding o
  | .phi incoming =>
    match source.bind fun b => incoming.lookup b with
    | some o => c.holding o
    | none => .nothing

/-- Executes an instruction in a block that was entered from another. -/
def step (c : Custody) (source : Option BlockId) (i : Instruction) : Custody :=
  match i.acquires?, i.releases?, i.result with
  | some (v, h), _, _ => c.acquire v h
  | none, some target, _ => c.release target
  | none, none, some v => c.set v (c.derived source i.operation)
  | none, none, none => c

/-- Executes instructions one by one, each with the block that its own was
entered from. -/
def run (c : Custody) (l : List (Option BlockId × (Site × Instruction))) : Custody :=
  l.foldl (fun c e => c.step e.1 e.2.2) c

end Custody

/-- **The instructions along a walk**, in order, each with the block that its
own was entered from. A point of the walk is a prefix of them. -/
def Function.trace (f : Function) : List ℕ → List (Option BlockId × (Site × Instruction))
  | [] => []
  | k :: w => f.trace w ++ (f.locatedAt k).map fun e => (w.head?.bind f.idAt?, e)

theorem Function.map_snd_trace (f : Function) (w : List ℕ) :
    (f.trace w).map Prod.snd = w.reverse.flatMap f.locatedAt := by
  induction w with
  | nil => rfl
  | cons k w ih => simp [trace, ih, Function.comp_def]

namespace Custody

variable {c : Custody}

/-! ## Steps -/

@[simp] theorem set_self {v : ValueId} {h : Holding} : (c.set v h).holdings v = h := by
  simp [set]

theorem set_other {u v : ValueId} {h : Holding} (hu : u ≠ v) :
    (c.set v h).holdings u = c.holdings u := by
  simp [set, hu]

section Step

variable {source : Option BlockId} {i : Instruction}

theorem step_of_acquires {v : ValueId} {held : Holding} (h : i.acquires? = some (v, held)) :
    c.step source i = c.acquire v held := by
  rw [step, h]

theorem step_of_releases {target : Operand} (ha : i.acquires? = none)
    (h : i.releases? = some target) : c.step source i = c.release target := by
  rw [step, ha, h]

theorem step_of_result {v : ValueId} (ha : i.acquires? = none) (hr : i.releases? = none)
    (h : i.result = some v) : c.step source i = c.set v (c.derived source i.operation) := by
  rw [step, ha, hr, h]

theorem step_of_result_none (ha : i.acquires? = none) (hr : i.releases? = none)
    (h : i.result = none) : c.step source i = c := by
  rw [step, ha, hr, h]

end Step

/-! ## What values stand for -/

/-- Values stand for qubits that were acquired. -/
def Covered (c : Custody) : Prop := ∀ v, ∀ q ∈ (c.holdings v).qubits, q ∈ c.acquired

namespace Covered

theorem start : Custody.start.Covered := fun _ _ hq => by cases hq

theorem holding (h : c.Covered) (op : Operand) : ∀ q ∈ (c.holding op).qubits, q ∈ c.acquired := by
  cases op with
  | value v => exact h v
  | _ => exact fun q hq => by cases hq

/-- So do values that are derived from others. -/
theorem derived (h : c.Covered) (source : Option BlockId) (o : Operation) :
    ∀ q ∈ (c.derived source o).qubits, q ∈ c.acquired := by
  have nothing : ∀ q ∈ Holding.nothing.qubits, q ∈ c.acquired := fun q hq => by cases hq
  cases o with
  | call callee args =>
    simp only [Custody.derived]
    split
    · split
      · rename_i array index _
        intro q hq
        refine h.holding array q ?_
        exact Holding.qubits_element_subset hq
      · exact nothing
    · exact nothing
  | copy o => exact h.holding o
  | phi incoming =>
    simp only [Custody.derived]
    split
    · exact h.holding _
    · exact nothing

theorem set (h : c.Covered) {v : ValueId} {held : Holding}
    (hheld : ∀ q ∈ held.qubits, q ∈ c.acquired) : (c.set v held).Covered := by
  intro u q hq
  by_cases huv : u = v
  · subst huv
    rw [set_self] at hq
    exact hheld q hq
  · rw [set_other huv] at hq
    exact h u q hq

theorem acquire (h : c.Covered) (v : ValueId) (held : Holding) : (c.acquire v held).Covered := by
  intro u q hq
  by_cases huv : u = v
  · subst huv
    exact List.mem_append_right _ (by simpa [Custody.acquire] using hq)
  · refine List.mem_append_left _ (h u q ?_)
    simpa [Custody.acquire, set_other huv] using hq

theorem step (h : c.Covered) (source : Option BlockId) (i : Instruction) :
    (c.step source i).Covered := by
  unfold Custody.step
  split
  · exact h.acquire _ _
  · exact h
  · exact h.set (h.derived source _)
  · exact h

theorem run (h : c.Covered) (l : List (Option BlockId × (Site × Instruction))) :
    (c.run l).Covered := by
  induction l generalizing c with
  | nil => exact h
  | cons e l ih => exact ih (h.step e.1 e.2.2)

end Covered

/-! ## What is released -/

/-- What was released stays released. -/
theorem released_prefix_step (c : Custody) (source : Option BlockId) (i : Instruction) :
    c.released <+: (c.step source i).released := by
  unfold step
  split
  · exact List.prefix_rfl
  · exact List.prefix_append _ _
  · exact List.prefix_rfl
  · exact List.prefix_rfl

theorem released_prefix_run (c : Custody) (l : List (Option BlockId × (Site × Instruction))) :
    c.released <+: (c.run l).released := by
  induction l generalizing c with
  | nil => exact List.prefix_rfl
  | cons e l ih => exact (c.released_prefix_step e.1 e.2.2).trans (ih _)

end Custody

end QuantumLowering
