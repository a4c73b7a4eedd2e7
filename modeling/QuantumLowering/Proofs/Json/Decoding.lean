import QuantumLowering.Program.Json
import QuantumLowering.Proofs.Json.RoundTrip
/-!
# Encoded data is decoded

Numbers, lists, absent values and maps are decoded to what was encoded, if
their parts are. And each of them is encoded as a value that a text can spell.
-/


namespace QuantumLowering

/-! ## Numbers -/

/-- An integer of 64 bits. -/
def IntInRange (i : Int) : Prop := -9223372036854775808 ≤ i ∧ i < 9223372036854775808

namespace NumberLiteral

theorem nat?_ofInt {n limit : ℕ} (h : n < limit) : (ofInt n).nat? limit = some n := by
  simp [nat?, ofInt, isInteger, h]

theorem int?_ofInt {i : Int} (h : IntInRange i) : (ofInt i).int? = some i := by
  obtain ⟨low, high⟩ := h
  have limit : Nat.pow 2 63 = 9223372036854775808 := by decide
  simp only [int?, ofInt, isInteger, limit, List.isEmpty_nil, Option.isNone_none, Bool.and_true,
    Bool.not_true, Bool.false_eq_true, if_false, decide_eq_true_eq]
  split
  · rw [if_pos (by omega)]
    congr 1
    omega
  · rw [if_pos (by omega)]
    congr 1
    omega

theorem written_ofInt (i : Int) : (ofInt i).Written := by simp [Written, ofInt]

end NumberLiteral

theorem Decimal.lt_of_mem_digitsOf {n d : ℕ} (h : d ∈ digitsOf n) : d < 10 := by
  obtain ⟨c, hc, rfl⟩ := List.mem_map.1 h
  have upper : c ≤ '9' := by
    have := Json.isDigit_toDigits c hc
    simp_all [Char.isDigit, Char.le_def]
  have : c.toNat ≤ '9'.toNat := upper
  have : '9'.toNat = 57 := rfl
  have : '0'.toNat = 48 := rfl
  omega

/-- The digits of the shortest decimal of a double are digits. -/
theorem Double.lt_of_mem_searchGrids {tie : Tie} {pattern fuel d : ℕ} {grid : Int}
    (h : d ∈ (searchGrids tie pattern fuel grid).digits) : d < 10 := by
  induction fuel generalizing grid with
  | zero => simp_all [searchGrids]
  | succ fuel ih =>
    unfold searchGrids at h
    split at h
    · split at h
      · exact ih h
      · exact Decimal.lt_of_mem_digitsOf h
    · exact ih h

theorem Double.lt_of_mem_shortest {tie : Tie} {x : Double} {d : ℕ}
    (h : d ∈ (x.shortest tie).digits) : d < 10 := by
  unfold shortest at h
  split at h
  · simp_all
  · exact lt_of_mem_searchGrids h

theorem NumberLiteral.written_ofDouble (x : Double) : (ofDouble x).Written := by
  have digits : ∀ d ∈ (x.shortest .even).digits, d < 10 := fun _ => Double.lt_of_mem_shortest
  intro d hd
  unfold ofDouble at hd
  dsimp only at hd
  split at hd
  · simp_all
  split at hd
  · rw [List.splitAt_eq] at hd
    exact digits d (List.mem_of_mem_drop hd)
  split at hd
  · rcases List.mem_append.1 hd with hd | hd
    · obtain rfl := List.eq_of_mem_replicate hd
      decide
    · exact digits d hd
  · exact digits d (List.mem_of_mem_tail hd)

/-! ## Lists and maps -/

theorem mapM_map {α β : Type} {encode : α → β} {decode : β → Option α} {l : List α}
    (h : ∀ a ∈ l, decode (encode a) = some a) : (l.map encode).mapM decode = some l := by
  induction l with
  | nil => rfl
  | cons a l ih =>
    rw [List.map_cons, List.mapM_cons, h a List.mem_cons_self,
      ih fun b hb => h b (List.mem_cons_of_mem a hb)]
    rfl

theorem Document.string?_string (s : String) : Document.string? (Json.string s) = some s := rfl

theorem Document.listOf?_ofList {α : Type} {encode : α → Json} {decode : Json → Option α}
    {l : List α} (h : ∀ a ∈ l, decode (encode a) = some a) :
    Document.listOf? decode (Json.ofList encode l) = some l := mapM_map h

theorem Document.nullable?_ofOption {α : Type} {encode : α → Json} {decode : Json → Option α}
    {o : Option α} (h : ∀ a ∈ o, decode (encode a) = some a ∧ (encode a).isNull = false) :
    Document.nullable? decode (Json.ofOption encode o) = some o := by
  cases o with
  | none => rfl
  | some a =>
    obtain ⟨decoded, present⟩ := h a rfl
    simp [Document.nullable?, Json.ofOption, Document.isAbsent?, present, decoded]

namespace SortedMap

variable {ν : Type}

/-- A key that comes after all others is put at the end. -/
theorem insertEntry_of_last {κ : Type} [Ord κ] [Std.OrientedOrd κ] {k : κ} {v : ν}
    {l : List (κ × ν)} (h : ∀ e ∈ l, compare e.1 k = .lt) : insertEntry k v l = l ++ [(k, v)] := by
  induction l with
  | nil => rfl
  | cons e l ih =>
    have after : compare k e.1 = .gt := Std.OrientedCmp.gt_of_lt (h e List.mem_cons_self)
    rw [insertEntry, after, ih fun d hd => h d (List.mem_cons_of_mem e hd)]
    rfl

/-- **A map is the map of its entries.** -/
theorem ofList_entries {κ : Type} [Ord κ] [Std.TransOrd κ] (m : SortedMap κ ν) :
    ofList m.entries = m := by
  have build : ∀ (l : List (κ × ν)) (before : SortedMap κ ν),
      (before.entries ++ l).Pairwise (fun a b => compare a.1 b.1 = .lt) →
        (l.foldl (fun m e => m.insert e.1 e.2) before).entries = before.entries ++ l := by
    intro l
    induction l with
    | nil => simp
    | cons e l ih =>
      intro before sorted
      have placed : (before.insert e.1 e.2).entries = before.entries ++ [e] :=
        insertEntry_of_last fun d hd =>
          (List.pairwise_append.1 sorted).2.2 d hd e List.mem_cons_self
      rw [List.foldl_cons, ih, placed, List.append_assoc, List.singleton_append]
      rwa [placed, List.append_assoc, List.singleton_append]
  exact ext_entries (build m.entries .empty m.sorted)

theorem ofJson?_toJson {encode : ν → Json} {decode : Json → Option ν} {m : SortedMap String ν}
    (h : ∀ e ∈ m.entries, decode (encode e.2) = some e.2) :
    SortedMap.ofJson? decode (m.toJson encode) = some m := by
  have entries : (m.entries.map fun e => (e.1, encode e.2)).mapM
      (fun e => (decode e.2).map fun v => (e.1, v)) = some m.entries :=
    mapM_map fun e he => by simp [h e he]
  simp [SortedMap.ofJson?, SortedMap.toJson, Document.members?, entries, ofList_entries]

end SortedMap

/-! ## What a text can spell -/

namespace Json

theorem written_nat (n : ℕ) : (nat n).Written := .number (NumberLiteral.written_ofInt n)

theorem written_int (i : Int) : (int i).Written := .number (NumberLiteral.written_ofInt i)

theorem written_ofList {α : Type} {encode : α → Json} (h : ∀ a, (encode a).Written) (l : List α) :
    (ofList encode l).Written :=
  .array (List.forall_mem_map.2 fun a _ => h a)

theorem written_ofOption {α : Type} {encode : α → Json} (h : ∀ a, (encode a).Written)
    (o : Option α) : (ofOption encode o).Written := by
  cases o with
  | none => exact .null
  | some a => exact h a

/-- An object with one member. -/
theorem written_choice {name : String} {j : Json} (h : j.Written) :
    (object [(name, j)]).Written :=
  .object (List.forall_mem_singleton.2 h)

end Json

theorem SortedMap.written_toJson {ν : Type} {encode : ν → Json} (h : ∀ v, (encode v).Written)
    (m : SortedMap String ν) : (m.toJson encode).Written :=
  .object (List.forall_mem_map.2 fun e _ => h e.2)

end QuantumLowering
