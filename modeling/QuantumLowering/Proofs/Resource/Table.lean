import Mathlib.Data.Nat.Notation
import QuantumLowering.Lowering.Stock
/-!
# The table of values

A tracker is a table from values to resources. Recording, deriving and
marking each set one value of the table and leave all others alone
(`Tracker.Sets`); drawing on a stock does at most that.
-/


namespace QuantumLowering

instance : Std.LawfulEqOrd ValueId where
  eq_of_compare {a b} h := by
    cases a; cases b
    exact congrArg ValueId.mk (Nat.compare_eq_eq.1 h)

namespace SortedMap

variable {κ ν : Type} [Ord κ] [Std.LawfulEqOrd κ] [BEq κ] [LawfulBEq κ]

/-- What a key is bound to after another binding. -/
theorem lookup_insertEntry (k j : κ) (v : ν) (l : List (κ × ν)) :
    (insertEntry k v l).lookup j = if j == k then some v else l.lookup j := by
  induction l with
  | nil => cases hj : j == k <;> simp [insertEntry, List.lookup_cons, hj]
  | cons e l ih =>
    obtain ⟨a, x⟩ := e
    unfold insertEntry
    cases hc : compare k a with
    | lt => cases hj : j == k <;> simp [List.lookup_cons, hj]
    | eq =>
      obtain rfl := Std.LawfulEqCmp.eq_of_compare hc
      cases hj : j == k <;> simp [List.lookup_cons, hj]
    | gt =>
      have hne : k ≠ a := by
        rintro rfl
        simp at hc
      simp only [List.lookup_cons, ih]
      cases ha : j == a with
      | false => rfl
      | true =>
        obtain rfl := eq_of_beq ha
        simp [Ne.symm hne]

theorem find?_insert [Std.TransOrd κ] (m : SortedMap κ ν) (k j : κ) (v : ν) :
    (m.insert k v).find? j = if j == k then some v else m.find? j :=
  lookup_insertEntry k j v m.entries

theorem find?_insertIfNew [Std.TransOrd κ] (m : SortedMap κ ν) (k j : κ) (v : ν) :
    (m.insertIfNew k v).find? j = if j == k then some ((m.find? k).getD v) else m.find? j := by
  unfold insertIfNew contains
  cases hk : m.find? k with
  | none =>
    rw [Option.isSome_none, if_neg Bool.false_ne_true, find?_insert]
    rfl
  | some w =>
    rw [Option.isSome_some, if_pos rfl]
    split
    · rename_i hj
      rw [eq_of_beq hj, hk]
      rfl
    · rfl

/-- Where a binding is listed in its place, putting it there changes nothing. -/
theorem insertEntry_of_lookup [Std.TransOrd κ] {k : κ} {v : ν} {l : List (κ × ν)}
    (sorted : l.Pairwise fun a b => compare a.1 b.1 = .lt) (h : l.lookup k = some v) :
    insertEntry k v l = l := by
  induction l with
  | nil => cases h
  | cons e l ih =>
    obtain ⟨a, x⟩ := e
    obtain ⟨later, sorted⟩ := List.pairwise_cons.1 sorted
    unfold insertEntry
    cases hka : k == a with
    | true =>
      obtain rfl := eq_of_beq hka
      rw [List.lookup_cons_self] at h
      obtain rfl := Option.some.inj h
      have self : compare k k = .eq := Std.ReflCmp.compare_self
      rw [self]
    | false =>
      rw [List.lookup_cons, hka] at h
      -- the key is listed further on, so it comes after the first one
      have hmem : (k, v) ∈ l := by
        obtain ⟨l₁, l₂, rfl, -⟩ := List.lookup_eq_some_iff.1 h
        simp
      rw [Std.OrientedCmp.gt_of_lt (later (k, v) hmem)]
      exact congrArg ((a, x) :: ·) (ih sorted h)

/-- **Binding a key to what it is bound to changes nothing.** -/
theorem insert_of_find? [Std.TransOrd κ] {m : SortedMap κ ν} {k : κ} {v : ν}
    (h : m.find? k = some v) : m.insert k v = m :=
  ext_entries (insertEntry_of_lookup m.sorted h)

omit [Std.LawfulEqOrd κ] [LawfulBEq κ] in
theorem insertIfNew_of_find? [Std.TransOrd κ] {m : SortedMap κ ν} {k : κ} {v w : ν}
    (h : m.find? k = some w) : m.insertIfNew k v = m := by
  rw [insertIfNew, contains, h, Option.isSome_some, if_pos rfl]

end SortedMap

namespace Tracker

variable {t t' : Tracker} {v : ValueId} {r : Resource} {o : Option Resource}

/-! ## Setting a value -/

/-- One table is another one with what a value stands for set anew. -/
def Sets (t t' : Tracker) (v : ValueId) (o : Option Resource) : Prop :=
  ∀ u, t'.resolve? u = if u = v then o else t.resolve? u

theorem Sets.self (h : t.Sets t' v o) : t'.resolve? v = o := by simp [h v]

theorem Sets.other (h : t.Sets t' v o) {u : ValueId} (hu : u ≠ v) :
    t'.resolve? u = t.resolve? u := by simp [h u, hu]

/-- A value of which nothing is known may be looked at in vain. -/
theorem sets_none (h : t.resolve? v = none) : t.Sets t v none := by
  intro u
  split
  · rename_i hu
    exact hu ▸ h
  · rfl

theorem sets_associate (a : Association) : t.Sets (t.associate v a) v a.resource? := by
  intro u
  simp only [resolve?, associate, SortedMap.find?_insert, beq_iff_eq]
  split <;> rfl

theorem sets_of_assign (h : t.assign v r = (t', .ok ())) : t.Sets t' v (some r) := by
  unfold assign at h
  split at h
  · split at h
    · cases h
      exact sets_associate (.known r)
    · cases h
  · cases h
    exact sets_associate (.known r)

theorem sets_of_bind (h : t.bind v o = (t', .ok ())) : t.Sets t' v o := by
  cases o with
  | some r => exact sets_of_assign h
  | none =>
    cases h
    exact sets_associate .unknown

theorem sets_of_record {count : ℕ} (h : t.record v r count = (t', .ok ())) :
    t.Sets t' v (some r) := by
  unfold record at h
  split at h
  · rename_i ha
    cases h
    exact fun u => sets_of_assign ha u
  · cases h

/-- What is refused changes nothing. -/
theorem eq_of_assign_eq_error {e : Redefinition} (h : t.assign v r = (t', .error e)) :
    t' = t := by
  unfold assign at h
  split at h
  · split at h
    · cases h
    · exact (congrArg Prod.fst h).symm
  · cases h

theorem eq_of_bind_eq_error {e : Redefinition} (h : t.bind v o = (t', .error e)) : t' = t := by
  cases o with
  | some r => exact eq_of_assign_eq_error h
  | none => cases h

theorem eq_of_record_eq_error {count : ℕ} {e : Redefinition}
    (h : t.record v r count = (t', .error e)) : t' = t := by
  unfold record at h
  split at h
  · cases h
  · rename_i ha
    cases h
    exact eq_of_assign_eq_error ha

/-! ## Operands -/

variable {kind : ResourceKind}

theorem resolveAs?_eq_some_iff {op : Operand} :
    t.resolveAs? kind op = some r ↔ t.resolveOperand? op = some r ∧ r.kind = kind := by
  simp [resolveAs?, Option.filter_eq_some_iff]

/-- Only values, qubits and results stand for resources. -/
theorem resolveOperand?_value : t.resolveOperand? (.value v) = t.resolve? v := rfl

theorem join_eq_some_iff {l : List (Option Resource)} :
    Resource.join l = some r ↔ l ≠ [] ∧ ∀ o ∈ l, o = some r := by
  cases l with
  | nil => simp [Resource.join]
  | cons o l =>
    cases o with
    | none => simp [Resource.join]
    | some a =>
      simp only [Resource.join, ne_eq, reduceCtorEq, not_false_eq_true, true_and,
        List.forall_mem_cons, Option.some.injEq, Option.ite_none_right_eq_some, List.all_eq_true,
        decide_eq_true_eq]
      constructor
      · rintro ⟨h, rfl⟩
        exact ⟨rfl, h⟩
      · rintro ⟨rfl, h⟩
        exact ⟨h, rfl⟩

/-- **Operands stand for a resource together** if there is one at least and
each of them stands for it. -/
theorem joinAs?_eq_some_iff {ops : List Operand} :
    t.joinAs? kind ops = some r ↔ ops ≠ [] ∧ ∀ o ∈ ops, t.resolveAs? kind o = some r := by
  simp only [joinAs?, Option.filter_eq_some_iff, join_eq_some_iff, List.forall_mem_map,
    resolveAs?_eq_some_iff, ne_eq, List.map_eq_nil_iff, decide_eq_true_eq]
  constructor
  · rintro ⟨⟨hne, h⟩, hk⟩
    exact ⟨hne, fun o ho => ⟨h o ho, hk⟩⟩
  · rintro ⟨hne, h⟩
    refine ⟨⟨hne, fun o ho => (h o ho).1⟩, ?_⟩
    obtain ⟨o, ho⟩ := List.exists_mem_of_ne_nil ops hne
    exact (h o ho).2

/-- So one of them does. -/
theorem exists_resolveAs?_of_joinAs? {ops : List Operand} (h : t.joinAs? kind ops = some r) :
    ∃ o ∈ ops, t.resolveAs? kind o = some r := by
  obtain ⟨hne, hops⟩ := joinAs?_eq_some_iff.1 h
  obtain ⟨o, ho⟩ := List.exists_mem_of_ne_nil ops hne
  exact ⟨o, ho, hops o ho⟩

/-- A copy stands for what its source stands for. -/
theorem joinAs?_singleton {op : Operand} : t.joinAs? kind [op] = t.resolveAs? kind op := by
  refine Option.ext fun r => ?_
  rw [joinAs?_eq_some_iff]
  simp

/-- What an operand stands for depends on the value it reads alone. -/
theorem resolveAs?_congr {op : Operand}
    (h : ∀ v, op = .value v → t'.resolve? v = t.resolve? v) :
    t'.resolveAs? kind op = t.resolveAs? kind op := by
  cases op with
  | value v =>
    simp only [resolveAs?, resolveOperand?_value, h v rfl]
  | _ => rfl

theorem resolveAs?_value_congr {v : ValueId} (h : t'.resolve? v = t.resolve? v) :
    t'.resolveAs? kind (.value v) = t.resolveAs? kind (.value v) := by
  refine resolveAs?_congr fun u hu => ?_
  obtain rfl := Operand.value.inj hu
  exact h

/-! ## All known values -/

/-- Every resource in the table has a property. -/
def All (P : Resource → Prop) (t : Tracker) : Prop := ∀ v r, t.resolve? v = some r → P r

variable {P : Resource → Prop}

theorem All.imp {Q : Resource → Prop} (hPQ : ∀ r, P r → Q r) (h : t.All P) : t.All Q :=
  fun v r hr => hPQ r (h v r hr)

theorem Sets.all (ht : t.Sets t' v o) (h : t.All P) (ho : ∀ r, o = some r → P r) : t'.All P := by
  intro u r hr
  rw [ht u] at hr
  split at hr
  · exact ho r hr
  · exact h u r hr

/-- What operands stand for has the property, if addresses do. -/
theorem All.resolveAs? (h : t.All P) (address : ∀ a, P (.single kind a)) {op : Operand}
    (hr : t.resolveAs? kind op = some r) : P r := by
  obtain ⟨ho, rfl⟩ := resolveAs?_eq_some_iff.1 hr
  cases op with
  | value v => exact h v r ho
  | qubit a =>
    cases ho
    exact address a
  | result a =>
    cases ho
    exact address a
  | _ => cases ho

/-- A table of resources of one kind has none of another. -/
theorem All.resolveAs?_eq_none {k : ResourceKind} (h : t.All fun r => r.kind = k)
    (hk : k ≠ kind) (v : ValueId) : t.resolveAs? kind (.value v) = none := by
  refine Option.eq_none_iff_forall_ne_some.2 fun r hr => ?_
  obtain ⟨known, rfl⟩ := resolveAs?_eq_some_iff.1 hr
  exact hk (h v r known).symm

theorem All.joinAs? (h : t.All P) (address : ∀ a, P (.single kind a)) {ops : List Operand}
    (hr : t.joinAs? kind ops = some r) : P r := by
  obtain ⟨op, -, hr⟩ := exists_resolveAs?_of_joinAs? hr
  exact h.resolveAs? address hr

end Tracker

theorem Resource.eq_single {r : Resource} {kind : ResourceKind} (hk : r.kind = kind)
    (hw : r.width = 1) : r = .single kind r.handle := by
  subst hk
  cases r
  cases hw
  rfl

/-- The operand that addresses a resource reads no value. -/
theorem Resource.operand?_isConstant {r : Resource} {o : Operand} (h : r.operand? = some o) :
    o.isConstant := by
  unfold operand? at h
  split at h
  · cases h
  · cases h
    cases r.kind <;> rfl

/-- Only a single resource has an operand, and that addresses it. -/
theorem Resource.eq_single_of_operand? {r : Resource} {o : Operand} (h : r.operand? = some o)
    {kind : ResourceKind} {x : Handle} (hx : kind.handle? o = some x) : r = .single kind x := by
  unfold operand? isBlock at h
  split at h
  · cases h
  · rename_i hwidth
    obtain ⟨k, handle, width⟩ := r
    obtain rfl : width = 1 := by simpa using hwidth
    cases h
    cases k <;> cases kind <;> cases hx <;> rfl

/-- The elements of a block are the single resources up to its width. -/
theorem Resource.element?_eq_some_iff {r e : Resource} {index : ℕ} :
    r.element? index = some e ↔
      index < r.width ∧ single r.kind ((r.handle + index) % addressLimit) = e := by
  unfold element?
  split <;> rename_i hlt <;> simp [hlt]

/-! ## Drawing -/

namespace Stock

variable {s s' : Stock} {kind : ResourceKind} {v : ValueId}

/-- What was drawn is kept for a value, with a count of the handles. -/
theorem keep_eq_ok {width : ℕ} {count : Handle → ℕ} {drawn : Pool.Reply Handle} {h : Handle}
    (hd : s.keep kind (fun h => s.tracker.record v ⟨kind, h, width⟩ (count h)) drawn =
      (s', .ok h)) :
    drawn = (s'.pool, .ok h) ∧ s.tracker.Sets s'.tracker v (some ⟨kind, h, width⟩) := by
  unfold keep at hd
  split at hd
  · cases hd
  · split at hd
    · rename_i hr
      cases hd
      exact ⟨rfl, Tracker.sets_of_record hr⟩
    · cases hd

/-- **Acquiring** takes from the pool and sets the value. -/
theorem acquire_eq_ok {h : Handle} (hd : s.acquire kind v = (s', .ok h)) :
    s.pool.allocate = (s'.pool, .ok h) ∧
      s.tracker.Sets s'.tracker v (some (.single kind h)) :=
  keep_eq_ok hd

theorem acquireBlock_eq_ok {size : ℕ} {h : Handle}
    (hd : s.acquireBlock kind v size = (s', .ok h)) :
    s.pool.allocateBlock size = (s'.pool, .ok h) ∧
      s.tracker.Sets s'.tracker v (some (.block kind h size)) :=
  keep_eq_ok hd

/-- **Deriving** leaves the pool alone and sets the value. -/
theorem derive_eq_ok {o : Option Resource} {found : Bool}
    (hd : s.derive v o = (s', .ok found)) :
    s'.pool = s.pool ∧ s.tracker.Sets s'.tracker v o ∧ found = o.isSome := by
  unfold derive at hd
  split at hd
  · rename_i hb
    cases hd
    exact ⟨rfl, Tracker.sets_of_bind hb, rfl⟩
  · cases hd

/-- **Releasing** gives back to the pool and leaves the table alone. -/
theorem release_eq_ok {r : Resource} {u : Unit} (hd : s.release r = (s', .ok u)) :
    s'.tracker = s.tracker ∧ s.pool.releaseBlock r.handle r.count = (s'.pool, .ok ()) := by
  unfold release at hd
  split at hd
  · rename_i hr
    cases hd
    exact ⟨rfl, hr⟩
  · cases hd

/-! ### Whatever comes of a draw -/

/-- The pool is left as the call left it, whether the value can be bound or not. -/
theorem pool_keep {record : Handle → Tracker.Reply Unit} {drawn : Pool.Reply Handle} :
    (s.keep kind record drawn).1.pool = drawn.1 := by
  unfold keep
  split
  · rfl
  · split <;> rfl

/-- A property of all that is known stays one, if what was handed out has it. -/
theorem all_keep {P : Resource → Prop} {width : ℕ} {count : Handle → ℕ}
    {drawn : Pool.Reply Handle} (ht : s.tracker.All P)
    (hr : ∀ p h, drawn = (p, .ok h) → P ⟨kind, h, width⟩) :
    (s.keep kind (fun h => s.tracker.record v ⟨kind, h, width⟩ (count h))
      drawn).1.tracker.All P := by
  unfold keep
  split
  · exact ht
  · rename_i p h
    split <;> rename_i recorded
    · refine (Tracker.sets_of_record recorded).all ht fun r h => ?_
      obtain rfl := Option.some.inj h
      exact hr _ _ rfl
    · rwa [Tracker.eq_of_record_eq_error recorded]

theorem all_derive {P : Resource → Prop} {o : Option Resource} (ht : s.tracker.All P)
    (ho : ∀ r, o = some r → P r) : (s.derive v o).1.tracker.All P := by
  unfold derive
  split <;> rename_i hb
  · exact (Tracker.sets_of_bind hb).all ht ho
  · rwa [Tracker.eq_of_bind_eq_error hb]

/-- Acquiring sets no other value. -/
theorem resolve?_keep {width : ℕ} {count : Handle → ℕ} {drawn : Pool.Reply Handle} {u : ValueId}
    (hu : u ≠ v) :
    (s.keep kind (fun h => s.tracker.record v ⟨kind, h, width⟩ (count h))
      drawn).1.tracker.resolve? u = s.tracker.resolve? u := by
  unfold keep
  split
  · rfl
  · split <;> rename_i hr
    · exact (Tracker.sets_of_record hr).other hu
    · rw [Tracker.eq_of_record_eq_error hr]

/-- Deriving sets no other value. -/
theorem resolve?_derive {o : Option Resource} {u : ValueId} (hu : u ≠ v) :
    (s.derive v o).1.tracker.resolve? u = s.tracker.resolve? u := by
  unfold derive
  split <;> rename_i hb
  · exact (Tracker.sets_of_bind hb).other hu
  · rw [Tracker.eq_of_bind_eq_error hb]

/-- Releasing leaves the table alone. -/
theorem tracker_release {r : Resource} : (s.release r).1.tracker = s.tracker := by
  unfold release
  split <;> rfl

/-- The pool takes the handles back, up to one that it refuses. -/
theorem pool_release {r : Resource} :
    (s.release r).1.pool = (s.pool.releaseBlock r.handle r.count).1 := by
  unfold release
  split <;> rename_i hr <;> rw [hr]

end Stock

theorem Draw.map_eq_ok {α β : Type} {g : α → β} {d : Draw α} {s : Stock} {b : β}
    (h : d.map g = (s, .ok b)) : ∃ a, d = (s, .ok a) ∧ g a = b := by
  obtain ⟨s', x⟩ := d
  cases x with
  | error e => cases h
  | ok a =>
    cases h
    exact ⟨a, rfl, rfl⟩

end QuantumLowering
