import QuantumLowering.Proofs.Custody.Arrays
import QuantumLowering.Proofs.Lowering.Joins
/-!
# Elements of arrays at constant indices

An array of constant size has a block of addresses. Its elements at
constant indices get theirs from it, whether they are named through the
array or a copy of it, and no address stands for the array. But a block of
one address cannot be told from a qubit: in place of an array of one qubit
the address of that qubit is put, and its only element is not resolved
(`QubitLowering.elements_addressed`).
-/


namespace QuantumLowering

open Lowering

/-- **A value is a copy of an array**, or of a copy of it, or the array itself. -/
def Function.CopyOf (f : Function) : ValueId → ValueId → Prop :=
  Relation.ReflTransGen fun w u => ⟨some u, .array, .copy (.value w)⟩ ∈ f.instructions

namespace QubitLowering

/-- **The elements of an array are addressed**: those at constant indices go, their
addresses stand in their place, and no address stands in place of the array. -/
structure ElementsAddressed (gone : List Site) (σ : Operand → Operand) (f : Function)
    (v : ValueId) (base : Handle) (size : ℕ) : Prop where
  /-- No address is put in place of the array or of a copy. -/
  array : ∀ w, f.CopyOf v w → σ (.value w) = .value w
  /-- Their elements go, and the addresses of the elements are put in their place. -/
  elements : ∀ w, f.CopyOf v w → ∀ x u ty rest, ∀ k < size,
    (x, ⟨some u, ty, .call Intrinsics.arrayElement (.value w :: .int k :: rest)⟩) ∈ f.located →
      x ∈ gone ∧ σ (.value u) = .qubit (base + k)

/-- **An array is taken for a qubit**: an address stands in its place, and its
elements stay. -/
structure TakenForQubit (gone : List Site) (σ : Operand → Operand) (f : Function)
    (v : ValueId) (base : Handle) : Prop where
  /-- An address is put in place of the array and of its copies. -/
  array : ∀ w, f.CopyOf v w → σ (.value w) = .qubit base
  /-- Their elements stay. -/
  elements : ∀ w, f.CopyOf v w → ∀ x u ty rest,
    (x, ⟨some u, ty, .call Intrinsics.arrayElement (.value w :: rest)⟩) ∈ f.located →
      x ∉ gone ∧ σ (.value u) = .value u

variable {honored : Bool} {s s' : Stock} {d : Decision} {f g : Function}
variable {u v w : ValueId} {ds : List (Site × Decision)} {gone : List Site} {x : Site}
variable {ty : Ty} {args : List Operand} {base : Handle} {n k : ℕ}

@[simp] theorem constant?_int : constant? (.int n) = some n := by
  simp [constant?, Operand.int?]

/-! ## Steps -/

/-- An array of constant size gets a block, which fits. -/
theorem acquiredArray_of_judge
    (h : judge honored s ⟨some v, ty, .call Intrinsics.acquireArray (.int n :: args)⟩ =
      (s', .ok d)) :
    ∃ base, d = .acquiredArray v base n ∧
      s'.tracker.resolve? v = some (.block .qubit base n) ∧
        (Resource.block .qubit base n).Fits := by
  have hrole : role ⟨some v, ty, .call Intrinsics.acquireArray (.int n :: args)⟩ =
      .acquireArray v (some n) := congrArg (Role.acquireArray v) constant?_int
  rw [judge, hrole] at h
  obtain ⟨base, hd, rfl⟩ := Draw.map_eq_ok h
  obtain ⟨hpool, hset⟩ := Stock.acquireBlock_eq_ok hd
  exact ⟨base, rfl, hset.self, Pool.fits_of_allocateBlock .qubit hpool⟩

/-- An element is what it is of a block that is known. -/
theorem project_of_judge
    (h : judge honored s ⟨some u, ty, .call Intrinsics.arrayElement args⟩ = (s', .ok d)) :
    s'.tracker.resolve? u = elementOf? s.tracker (element? args) ∧
      d = derived (elementOf? s.tracker (element? args)) .stays := by
  obtain ⟨-, hset, hd⟩ := judges_of_derive h
  exact ⟨hset.self, hd⟩

/-- An element at a constant index of a block has its own address. -/
theorem elementOf?_block {t : Tracker}
    (hw : t.resolveAs? .qubit (.value w) = some (.block .qubit base n))
    (fits : (Resource.block .qubit base n).Fits) (hn : n ≠ 1) (hk : k < n) :
    elementOf? t (element? (.value w :: .int k :: args)) = some (.single .qubit (base + k)) := by
  have isBlock : (Resource.block .qubit base n).isBlock = true := bne_iff_ne.2 hn
  have element : (Resource.block .qubit base n).element? k = some (.single .qubit (base + k)) :=
    fits.element? hk
  simp [element?, elementOf?, hw, Option.filter, isBlock, element]

/-- What stands for one qubit has no elements. -/
theorem elementOf?_single {t : Tracker}
    (hw : t.resolveAs? .qubit (.value w) = some (.single .qubit base)) :
    elementOf? t (element? (.value w :: args)) = none := by
  have isBlock : (Resource.single .qubit base).isBlock = false := rfl
  cases args with
  | nil => rfl
  | cons index rest =>
    cases hc : constant? index <;> simp [element?, elementOf?, hc, hw, Option.filter, isBlock]

/-! ## One function -/

section Function

variable (decides : Decides (judge honored) s f.visited ds s') (nodup : f.definedValues.Nodup)
variable (reachable : ∀ k < f.blocks.length, f.Reachable k) (dominated : f.UsesDominated)

include decides nodup reachable dominated

/-- **A copy stands for what the array stands for.** -/
theorem resolve?_of_copyOf (h : f.CopyOf v w) {r : Resource} (hr : r.kind = .qubit)
    (hv : s'.tracker.resolve? v = some r) : s'.tracker.resolve? w = some r := by
  induction h with
  | refl => exact hv
  | @tail w u _ copy ih =>
    obtain ⟨x, hx⟩ := Function.mem_instructions.1 copy
    obtain ⟨s₁, s₂, d, visit⟩ := decides.exists_visit frames_judge nodup hx
    cases judges_of_judge visit.step with
    | copy _ _ hset =>
      rw [visit.result u rfl, hset.self, Function.resolveAs?_eq_of_operand reachable dominated
        .qubit visit hx rfl (List.mem_singleton_self _)]
      exact Tracker.resolveAs?_eq_some_iff.2 ⟨ih, hr⟩
    | other hrole => cases hrole

variable (finished : Finished (address? s'.tracker) Prod.snd
  ((ds.filter fun d => d.2.isDroppable).map Prod.fst) f g gone)

include finished

/-- **The elements of a block are addressed**, unless it is a block of one. -/
theorem elementsAddressed_of_finished (hn : n ≠ 1)
    (hv : s'.tracker.resolve? v = some (.block .qubit base n))
    (fits : (Resource.block .qubit base n).Fits) :
    ElementsAddressed gone (Operand.substitute (address? s'.tracker)) f v base n where
  array w hw := by
    have known := resolve?_of_copyOf decides nodup reachable dominated hw rfl hv
    have isBlock : (Resource.block .qubit base n).isBlock = true := bne_iff_ne.2 hn
    rw [Operand.substitute_value, address?, known, Option.bind_some, Resource.operand?,
      if_pos isBlock]
    rfl
  elements w hw x u ty rest k hk hx := by
    obtain ⟨s₁, s₂, d, visit⟩ := decides.exists_visit frames_judge nodup hx
    have known : s₁.tracker.resolveAs? .qubit (.value w) = some (.block .qubit base n) := by
      rw [Function.resolveAs?_eq_of_operand reachable dominated .qubit visit hx rfl
        List.mem_cons_self]
      exact Tracker.resolveAs?_eq_some_iff.2
        ⟨resolve?_of_copyOf decides nodup reachable dominated hw rfl hv, rfl⟩
    obtain ⟨hu, rfl⟩ := project_of_judge visit.step
    rw [elementOf?_block known fits hn hk] at visit hu
    refine ⟨mem_gone_of_known finished visit hx rfl hu, ?_⟩
    rw [Operand.substitute_value, address?_of_single ((visit.result u rfl).trans hu)]
    rfl

/-- **A block of one is taken for a qubit.** -/
theorem takenForQubit_of_finished (hv : s'.tracker.resolve? v = some (.single .qubit base)) :
    TakenForQubit gone (Operand.substitute (address? s'.tracker)) f v base where
  array w hw := by
    have known := resolve?_of_copyOf decides nodup reachable dominated hw rfl hv
    rw [Operand.substitute_value, address?_of_single known]
    rfl
  elements w hw x u ty rest hx := by
    obtain ⟨s₁, s₂, d, visit⟩ := decides.exists_visit frames_judge nodup hx
    have known : s₁.tracker.resolveAs? .qubit (.value w) = some (.single .qubit base) := by
      rw [Function.resolveAs?_eq_of_operand reachable dominated .qubit visit hx rfl
        List.mem_cons_self]
      exact resolveAs?_of_single
        (resolve?_of_copyOf decides nodup reachable dominated hw rfl hv)
    obtain ⟨hu, rfl⟩ := project_of_judge visit.step
    rw [elementOf?_single known] at visit hu
    refine ⟨finished.not_mem_gone (P := Decision.isDroppable) visit rfl, ?_⟩
    rw [Operand.substitute_value, address?_of_none ((visit.result u rfl).trans hu)]
    rfl

end Function

/-! ## Programs -/

/-- **Elements of arrays at constant indices are addressed**, where uses are dominated and
all blocks can be reached, but for arrays of one qubit: these are taken for the qubit. -/
theorem elements_addressed (p : Program) (hp : p.verify = .ok ()) (c : Context)
    (placed : ∀ f ∈ p.definitions,
      (∀ k < f.blocks.length, f.Reachable k) ∧ f.UsesDominated)
    (h : (run p c).failure = none) :
    List.Forall₂ (fun f g => ∃ s gone σ,
      Sweeps.Turn (lower (managers p ≤ 1)) (c.stock .qubit) p.functions
          ((run p c).context.stock .qubit) f g s ∧
        ByValue (run p c).context.tracker (plan (managers p ≤ 1) s f).decisions gone σ f g ∧
        ∀ x v ty rest, ∀ n : ℕ,
          (x, ⟨some v, ty, .call Intrinsics.acquireArray (.int n :: rest)⟩) ∈ f.located →
            ∃ base, (x, .acquiredArray v base n) ∈ (plan (managers p ≤ 1) s f).decisions ∧
              (n ≠ 1 → ElementsAddressed gone σ f v base n) ∧
              (n = 1 → TakenForQubit gone σ f v base))
      p.definitions (run p c).program.definitions := by
  have wf := Program.verify_eq_ok_iff.1 hp
  rw [run_failure] at h
  rw [run_program, run_context]
  obtain ⟨s', hctx, -, turns⟩ :=
    exists_turns frames_lower (fun _ _ => isDeclaration_lower) wf.values h
  rw [hctx]
  refine forall₂_imp_of_mem turns fun f hf g ⟨s, turn⟩ => ?_
  have nodup := wf.nodup_definedValues hf
  obtain ⟨reachable, dominated⟩ := placed f hf
  obtain ⟨ds, gone, decides, finished⟩ := exists_lowered turn.failure
  obtain rfl : (plan (managers p ≤ 1) s f).decisions = ds := decides.decisions_decideAll
  rw [← turn.function] at finished
  refine ⟨s, gone, _, turn, (byValue_of_finished decides nodup finished).congr turn.result,
    fun x v ty rest n hx => ?_⟩
  obtain ⟨s₁, s₂, d, visit⟩ := decides.exists_visit frames_judge nodup hx
  obtain ⟨base, rfl, hv, fits⟩ := acquiredArray_of_judge visit.step
  rw [← visit.result v rfl] at hv
  refine ⟨base, (visit.decision _).2 rfl, fun hn => ?_, ?_⟩
  · exact elementsAddressed_of_finished decides nodup reachable dominated finished hn hv fits
  · rintro rfl
    exact takenForQubit_of_finished decides nodup reachable dominated finished hv

/-! ## The last element of an array -/

/-- An array is acquired and copied, and a gate acts on its last element, which is named
through the copy. -/
def lastElementMain (last : ℕ) : Function where
  name := "main"
  params := []
  signature := []
  returnType := .void
  blocks := [
    ⟨⟨0⟩, "entry", [
      ⟨some ⟨0⟩, .array, .call Intrinsics.acquireArray [.int (last + 1 : ℕ)]⟩,
      ⟨some ⟨1⟩, .array, .copy (.value ⟨0⟩)⟩,
      ⟨some ⟨2⟩, .qubit, .call Intrinsics.arrayElement [.value ⟨1⟩, .int last]⟩,
      .call "__quantum__qis__h__body" [.value ⟨2⟩],
      .call Intrinsics.releaseArray [.value ⟨0⟩]],
      some (.ret none)⟩]
  attributes := .empty

/-- The program of that function alone. -/
def lastElement (last : ℕ) : Program where
  name := "last"
  functions := [lastElementMain last]
  flags := .empty
  nextValue := 3

theorem placed_lastElement (last : ℕ) (dominated : (lastElementMain last).UsesDominated) :
    ∀ f ∈ (lastElement last).definitions,
      (∀ k < f.blocks.length, f.Reachable k) ∧ f.UsesDominated := by
  intro f hf
  obtain rfl := List.mem_singleton.1 hf
  refine ⟨fun k hk => ?_, dominated⟩
  obtain rfl : k = 0 := Nat.lt_one_iff.1 hk
  exact ⟨[], .start rfl⟩

theorem elements_addressed_lastElement :
    (lastElement 2).verify = .ok () ∧
      (∀ f ∈ (lastElement 2).definitions,
        (∀ k < f.blocks.length, f.Reachable k) ∧ f.UsesDominated) ∧
      (run (lastElement 2) .default).failure = none ∧
      ∃ g ∈ (run (lastElement 2) .default).program.definitions, ∃ ds gone σ base,
        ByValue (run (lastElement 2) .default).context.tracker ds gone σ (lastElementMain 2) g ∧
          (⟨0, 0⟩, .acquiredArray ⟨0⟩ base 3) ∈ ds ∧
          σ (.value ⟨0⟩) = .value ⟨0⟩ ∧ ⟨0, 2⟩ ∈ gone ∧ σ (.value ⟨2⟩) = .qubit (base + 2) := by
  have verified : (lastElement 2).verify = .ok () := by decide
  have placed := placed_lastElement 2
    (Function.usesDominated_of_first (k := 0) rfl (by decide) (by decide))
  have runs : (run (lastElement 2) .default).failure = none := by
    rw [(run_eq_plan (f := lastElementMain 2) rfl rfl .default).1]
    decide
  have lowered := elements_addressed (lastElement 2) verified .default placed runs
  obtain ⟨g, hg, s, gone, σ, -, byValue, arrays⟩ :=
    exists_right_of_forall₂ lowered (List.mem_singleton_self (lastElementMain 2))
  obtain ⟨base, acquired, addressed, -⟩ := arrays ⟨0, 0⟩ ⟨0⟩ .array [] 3 (by decide)
  have copied : (lastElementMain 2).CopyOf ⟨0⟩ ⟨1⟩ := .single (by decide)
  obtain ⟨array, elements⟩ := addressed (by decide)
  obtain ⟨goes, address⟩ := elements ⟨1⟩ copied ⟨0, 2⟩ ⟨2⟩ .qubit [] 2 (by decide) (by decide)
  exact ⟨verified, placed, runs, g, hg, _, gone, σ, base, byValue, acquired, array ⟨0⟩ .refl, goes,
    address⟩

/-- **The only element of an array stays**, and the address of a qubit is put in place of
the array that it is taken from. -/
theorem lone_element_unresolved :
    (lastElement 0).verify = .ok () ∧
      (∀ f ∈ (lastElement 0).definitions, (∀ k < f.blocks.length, f.Reachable k) ∧
        ControlFlow.Acyclic f.edges ∧ f.UsesDominated) ∧
      Context.default.tracker = .empty ∧
      (run (lastElement 0) .default).failure = none ∧
      (run (lastElement 0) .default).program.functions.map Function.instructions = [[
        ⟨some ⟨2⟩, .qubit, .call Intrinsics.arrayElement [.qubit 0, .int 0]⟩,
        .call "__quantum__qis__h__body" [.value ⟨2⟩]]] := by
  have placed := placed_lastElement 0
    (Function.usesDominated_of_first (k := 0) rfl (by decide) (by decide))
  refine ⟨by decide, fun f hf => ?_, rfl, ?_, ?_⟩
  · obtain ⟨reachable, dominated⟩ := placed f hf
    obtain rfl := List.mem_singleton.1 hf
    exact ⟨reachable, ControlFlow.acyclic_of_forall_lt (by decide), dominated⟩
  · rw [(run_eq_plan (f := lastElementMain 0) rfl rfl .default).1]
    decide
  · decide

end QubitLowering

end QuantumLowering
