/-!
# Maps in key order

A `SortedMap` lists its entries with strictly increasing keys. Each set
of bindings therefore has one representation, so two maps that bind the
same keys to the same values are equal, and whatever reads the entries
reads them in key order.
-/


namespace QuantumLowering

/-- A finite map whose entries are listed in strictly increasing order of
their keys. -/
structure SortedMap (κ ν : Type) [Ord κ] where
  /-- The bindings, in key order. -/
  entries : List (κ × ν)
  /-- Every key comes before the keys listed after it. -/
  sorted : entries.Pairwise fun a b => compare a.1 b.1 = .lt

namespace SortedMap

variable {κ ν : Type} [Ord κ]

/-- The entries decide the map: the order of keys is no further data. -/
theorem ext_entries {m n : SortedMap κ ν} (h : m.entries = n.entries) : m = n := by
  cases m; cases n; cases h; rfl

instance [DecidableEq κ] [DecidableEq ν] : DecidableEq (SortedMap κ ν) := fun m n =>
  if h : m.entries = n.entries then .isTrue (ext_entries h)
  else .isFalse fun e => h (e ▸ rfl)

/-- The map without bindings. -/
def empty : SortedMap κ ν := ⟨[], .nil⟩

instance : Inhabited (SortedMap κ ν) := ⟨empty⟩

/-- The value bound to a key. -/
def find? [BEq κ] (m : SortedMap κ ν) (k : κ) : Option ν := m.entries.lookup k

/-- Whether a key is bound. -/
def contains [BEq κ] (m : SortedMap κ ν) (k : κ) : Bool := (m.find? k).isSome

/-- The bound keys, in order. -/
def keys (m : SortedMap κ ν) : List κ := m.entries.map Prod.fst

/-- The number of bindings. -/
def size (m : SortedMap κ ν) : Nat := m.entries.length

/-! ## Binding a key -/

/-- Puts a binding in its place, replacing a binding of the same key. -/
def insertEntry (k : κ) (v : ν) : List (κ × ν) → List (κ × ν)
  | [] => [(k, v)]
  | e :: rest =>
    match compare k e.1 with
    | .lt => (k, v) :: e :: rest
    | .eq => (k, v) :: rest
    | .gt => e :: insertEntry k v rest

/-- What an insertion lists was listed before or is the new binding. -/
theorem mem_insertEntry {k : κ} {v : ν} {e : κ × ν} {l : List (κ × ν)}
    (h : e ∈ insertEntry k v l) : e = (k, v) ∨ e ∈ l := by
  induction l with
  | nil => simpa [insertEntry] using h
  | cons a rest ih =>
    unfold insertEntry at h
    split at h <;> grind

/-- Insertion keeps the key order. -/
theorem pairwise_insertEntry [Std.TransOrd κ] {k : κ} {v : ν} {l : List (κ × ν)}
    (h : l.Pairwise fun a b => compare a.1 b.1 = .lt) :
    (insertEntry k v l).Pairwise fun a b => compare a.1 b.1 = .lt := by
  induction l with
  | nil => simp [insertEntry]
  | cons a rest ih =>
    have hrest := List.pairwise_cons.1 h
    unfold insertEntry
    split
    · rename_i hk
      refine List.pairwise_cons.2 ⟨fun b hb => ?_, h⟩
      rcases List.mem_cons.1 hb with rfl | hb
      · exact hk
      · exact Std.TransCmp.lt_trans hk (hrest.1 b hb)
    · rename_i hk
      refine List.pairwise_cons.2 ⟨fun b hb => ?_, hrest.2⟩
      exact Std.TransCmp.lt_of_eq_of_lt hk (hrest.1 b hb)
    · rename_i hk
      refine List.pairwise_cons.2 ⟨fun b hb => ?_, ih hrest.2⟩
      rcases mem_insertEntry hb with rfl | hb
      · exact Std.OrientedCmp.lt_of_gt hk
      · exact hrest.1 b hb

variable [Std.TransOrd κ]

/-- Binds a key, replacing what was bound to it. -/
def insert (m : SortedMap κ ν) (k : κ) (v : ν) : SortedMap κ ν :=
  ⟨insertEntry k v m.entries, pairwise_insertEntry m.sorted⟩

/-- Binds a key that is not bound yet and leaves a bound one alone. -/
def insertIfNew [BEq κ] (m : SortedMap κ ν) (k : κ) (v : ν) : SortedMap κ ν :=
  if m.contains k then m else m.insert k v

/-- The map of a list of bindings; a later binding of a key replaces an
earlier one. -/
def ofList (l : List (κ × ν)) : SortedMap κ ν :=
  l.foldl (fun m e => m.insert e.1 e.2) empty

end SortedMap

end QuantumLowering
