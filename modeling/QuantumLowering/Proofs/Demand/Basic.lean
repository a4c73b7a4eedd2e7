import QuantumLowering.Lowering.Qubits
import QuantumLowering.Proofs.Lowering.Run
import QuantumLowering.Proofs.Lowering.WellFormed
import QuantumLowering.Proofs.Resource.Live
/-!
# What a program asks for

A program asks for qubits where it acquires them and for results where it
measures: each such instruction asks for a number of handles for the value
that it computes. A table serves these demands if it gives each of them a
block of its own (`Tracker.Partitions`), as it does when the blocks lie
side by side (`Tracker.LaidOut`).
-/


namespace QuantumLowering

open Lowering

/-! ## Gathering from instructions -/

section Gather

variable {β : Type} {g : Instruction → Option β}

/-- What the instructions of a function hold of something. -/
def Function.gather (g : Instruction → Option β) (f : Function) : List β :=
  f.instructions.filterMap g

/-- What the instructions of some definitions hold of something. -/
def Lowering.gatherFrom (g : Instruction → Option β) (fs : List Function) : List β :=
  (fs.filter fun f => !f.isDeclaration).flatMap (Function.gather g)

/-- What the instructions of a program hold of something. -/
def Program.gather (g : Instruction → Option β) (p : Program) : List β :=
  gatherFrom g p.functions

theorem Lowering.gatherFrom_cons {f : Function} {fs : List Function} (h : ¬ f.isDeclaration) :
    gatherFrom g (f :: fs) = f.gather g ++ gatherFrom g fs := by
  simp [gatherFrom, h]

theorem Lowering.gatherFrom_cons_declaration {f : Function} {fs : List Function}
    (h : f.isDeclaration) : gatherFrom g (f :: fs) = gatherFrom g fs := by
  simp [gatherFrom, h]

theorem Program.mem_gather {p : Program} {b : β} :
    b ∈ p.gather g ↔ ∃ f ∈ p.definitions, ∃ i ∈ f.instructions, g i = some b := by
  simp [gather, gatherFrom, Function.gather, definitions, and_assoc]

/-- The order of visits is no matter. -/
theorem Function.gather_visited (g : Instruction → Option β) (f : Function) :
    (f.visited.filterMap fun e => g e.2).Perm (f.gather g) := by
  rw [gather, ← map_snd_located, List.filterMap_map]
  exact visited_perm.filterMap _

section Values

variable {binds : Instruction → Option ValueId}

/-- Values that instructions compute are values that the function defines. -/
theorem Function.gather_sublist (h : ∀ i v, binds i = some v → i.result = some v) (f : Function) :
    (f.gather binds).Sublist f.definedValues :=
  (filterMap_sublist fun i _ v => h i v).trans (List.sublist_append_right _ _)

theorem Lowering.gatherFrom_sublist (h : ∀ i v, binds i = some v → i.result = some v)
    (fs : List Function) : (gatherFrom binds fs).Sublist (definedBy fs) := by
  induction fs with
  | nil => exact .slnil
  | cons f fs ih =>
    by_cases hd : f.isDeclaration
    · rwa [gatherFrom_cons_declaration hd, definedBy_cons_declaration hd]
    · rw [gatherFrom_cons hd, definedBy_cons hd]
      exact (f.gather_sublist h).append ih

end Values

end Gather

/-! ## Demands -/

/-- **What an instruction asks for**: a value and the number of handles that it
is to stand for. A qubit and a result are one handle each, an array of known
size as many. -/
def Instruction.demand? : ResourceKind → Instruction → Option (ValueId × ℕ)
  | .qubit, ⟨some v, _, .call callee args⟩ =>
    if callee = Intrinsics.acquireQubit then some (v, 1)
    else if callee = Intrinsics.acquireArray then
      (args.head?.bind QubitLowering.constant?).map fun n => (v, n)
    else none
  | .result, ⟨some v, .result, .call callee [_]⟩ =>
    if callee = Intrinsics.measure then some (v, 1) else none
  | _, _ => none

/-- **What the definitions of a program ask for.** -/
def Program.demands (kind : ResourceKind) (p : Program) : List (ValueId × ℕ) :=
  p.gather (Instruction.demand? kind)

/-- The number of handles that are asked for together. -/
def total : List (ValueId × ℕ) → ℕ
  | [] => 0
  | d :: ds => d.2 + total ds

@[simp] theorem total_nil : total [] = 0 := rfl

@[simp] theorem total_cons (d : ValueId × ℕ) (ds : List (ValueId × ℕ)) :
    total (d :: ds) = d.2 + total ds := rfl

@[simp] theorem total_append (ds es : List (ValueId × ℕ)) :
    total (ds ++ es) = total ds + total es := by
  induction ds with
  | nil => simp
  | cons d ds ih =>
    rw [List.cons_append, total_cons, total_cons, ih]
    omega

theorem total_eq_of_perm {ds es : List (ValueId × ℕ)} (h : ds.Perm es) : total ds = total es := by
  induction h with
  | nil => rfl
  | cons d _ ih => rw [total_cons, total_cons, ih]
  | swap d e ds =>
    simp only [total_cons]
    omega
  | trans _ _ ih₁ ih₂ => exact ih₁.trans ih₂

/-! ## Serving demands -/

namespace Tracker

variable {t t' : Tracker} {kind : ResourceKind} {base : ℕ} {ds es : List (ValueId × ℕ)}

/-- **A table gives the handles below a bound to demands**: as many to each as
it asks for, none to two of them, and all of them to some. -/
structure Partitions (t : Tracker) (kind : ResourceKind) (n : ℕ) (ds : List (ValueId × ℕ)) :
    Prop where
  /-- Each demand is given a block. -/
  given : ∀ d ∈ ds, ∃ base, t.resolve? d.1 = some (.block kind base d.2)
  /-- No handle is given twice. -/
  apart : ds.Pairwise fun d e => ∀ r r', t.resolve? d.1 = some r → t.resolve? e.1 = some r' →
    List.Disjoint r.addresses r'.addresses
  /-- The handles below the bound are given, and no others. -/
  covers : ∀ x : ℕ, x < n ↔ ∃ d ∈ ds, ∃ r, t.resolve? d.1 = some r ∧ x ∈ r.addresses

/-- **A table lays out demands side by side**, in order, from a handle on. -/
def LaidOut (t : Tracker) (kind : ResourceKind) : ℕ → List (ValueId × ℕ) → Prop
  | _, [] => True
  | base, d :: ds =>
    t.resolve? d.1 = some (.block kind base d.2) ∧ t.LaidOut kind (base + d.2) ds

theorem laidOut_append :
    t.LaidOut kind base (ds ++ es) ↔
      t.LaidOut kind base ds ∧ t.LaidOut kind (base + total ds) es := by
  induction ds generalizing base with
  | nil => simp [LaidOut]
  | cons d ds ih => simp [LaidOut, ih, and_assoc, Nat.add_assoc]

/-- What is laid out depends on the values asked for alone. -/
theorem LaidOut.congr (h : t.LaidOut kind base ds)
    (same : ∀ d ∈ ds, t'.resolve? d.1 = t.resolve? d.1) : t'.LaidOut kind base ds := by
  induction ds generalizing base with
  | nil => trivial
  | cons d ds ih =>
    refine ⟨?_, ih h.2 fun e he => same e (List.mem_cons_of_mem _ he)⟩
    rw [same d List.mem_cons_self]
    exact h.1

theorem LaidOut.given (h : t.LaidOut kind base ds) {d : ValueId × ℕ} (hd : d ∈ ds) :
    ∃ first : ℕ, t.resolve? d.1 = some (.block kind first d.2) ∧ base ≤ first := by
  induction ds generalizing base with
  | nil => cases hd
  | cons e ds ih =>
    rcases List.mem_cons.1 hd with rfl | hd
    · exact ⟨base, h.1, Nat.le_refl _⟩
    · obtain ⟨first, hv, hle⟩ := ih h.2 hd
      exact ⟨first, hv, Nat.le_trans (Nat.le_add_right _ _) hle⟩

theorem LaidOut.covers (h : t.LaidOut kind base ds) (x : ℕ) :
    (base ≤ x ∧ x < base + total ds) ↔
      ∃ d ∈ ds, ∃ r, t.resolve? d.1 = some r ∧ x ∈ r.addresses := by
  induction ds generalizing base with
  | nil =>
    simp only [total_nil, List.not_mem_nil, false_and, exists_false, iff_false]
    omega
  | cons d ds ih =>
    have first : (∃ r, t.resolve? d.1 = some r ∧ x ∈ r.addresses) ↔ base ≤ x ∧ x < base + d.2 := by
      simp [h.1, Resource.mem_addresses, Resource.block]
    simp only [List.exists_mem_cons_iff, first, ← ih h.2, total_cons]
    omega

theorem LaidOut.apart (h : t.LaidOut kind base ds) :
    ds.Pairwise fun d e => ∀ r r', t.resolve? d.1 = some r → t.resolve? e.1 = some r' →
      List.Disjoint r.addresses r'.addresses := by
  induction ds generalizing base with
  | nil => exact .nil
  | cons d ds ih =>
    refine .cons (fun e he r r' hr hr' x hx hx' => ?_) (ih h.2)
    -- the first block ends where the others begin
    obtain rfl := Option.some.inj (h.1.symm.trans hr)
    obtain ⟨first, hv, hle⟩ := h.2.given he
    obtain rfl := Option.some.inj (hv.symm.trans hr')
    have hlt : x < base + d.2 := (Resource.mem_addresses.1 hx).2
    have hge : first ≤ x := (Resource.mem_addresses.1 hx').1
    exact absurd hlt (Nat.not_lt.2 (Nat.le_trans hle hge))

/-- **Demands laid out from the first handle on are given all handles below
their number.** -/
theorem LaidOut.partitions (h : t.LaidOut kind 0 ds) : t.Partitions kind (total ds) ds where
  given d hd := by
    obtain ⟨first, hv, -⟩ := h.given hd
    exact ⟨first, hv⟩
  apart := h.apart
  covers x := by
    rw [← h.covers x]
    simp

/-- The order of the demands is no matter. -/
theorem Partitions.perm {n : ℕ} (h : t.Partitions kind n ds) (hp : ds.Perm es) :
    t.Partitions kind n es where
  given d hd := h.given d (hp.mem_iff.2 hd)
  apart := by
    refine (hp.pairwise_iff fun {d e} hde r r' hr hr' => ?_).1 h.apart
    exact (hde r' r hr' hr).symm
  covers x := by
    rw [h.covers x]
    simp only [hp.mem_iff]

/-- It depends on the values asked for alone. -/
theorem Partitions.congr {n : ℕ} (h : t.Partitions kind n ds)
    (same : ∀ d ∈ ds, t'.resolve? d.1 = t.resolve? d.1) : t'.Partitions kind n ds where
  given d hd := by
    rw [same d hd]
    exact h.given d hd
  apart := by
    refine h.apart.imp_of_mem fun {d e} hd he hde => ?_
    rwa [same d hd, same e he]
  covers x := by
    rw [h.covers x]
    refine exists_congr fun d => and_congr_right fun hd => ?_
    rw [same d hd]

/-- Nothing is asked for. -/
theorem partitions_nil : t.Partitions kind 0 [] := by
  have laid : t.LaidOut kind 0 [] := trivial
  exact laid.partitions

end Tracker

end QuantumLowering
