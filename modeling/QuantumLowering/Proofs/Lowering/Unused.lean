import Mathlib.Data.Finset.Card
import Mathlib.Logic.Function.Iterate
import Mathlib.Logic.Relation
import Mathlib.Order.Bounds.Basic
import QuantumLowering.Proofs.Lowering.Rewriting
import QuantumLowering.Proofs.Program.WellFormed
/-!
# What removal takes

Some instructions may go together if nothing that stays reads a value of
theirs (`MayGo`). Removal goes through rounds, each of which drops candidates
whose values are read outside of those left. A round drops no site of what
may go together, and there is a further round as long as what is left may
not go. So rounds end with the greatest set that may go, whichever of the
sites in question each of them drops (`isGreatest_of_rounds`). What removal
leaves behind is the rest of the function (`removeUnused_isGreatest`).
-/


namespace QuantumLowering

namespace Function

variable {f : Function} {sites : List Site} {S T gone : Finset Site} {v : ValueId}

/-! ## Going together -/

/-- A value is **read outside** of some sites if an instruction at another
site or a terminator reads it. -/
def ReadOutside (f : Function) (gone : Finset Site) (v : ValueId) : Prop :=
  (∃ s ∉ gone, ∃ i, f.instruction? s = some i ∧ .value v ∈ i.operands) ∨
    ∃ b ∈ f.blocks, ∃ t, b.terminator = some t ∧ .value v ∈ t.operands

/-- The instructions at some sites **may go** together if nothing outside
reads their values. -/
def MayGo (f : Function) (gone : Finset Site) : Prop :=
  ∀ s ∈ gone, ∀ v, f.resultAt? s = some v → ¬ f.ReadOutside gone v

/-- The fewer sites there are, the more is read outside of them. -/
theorem ReadOutside.mono (h : f.ReadOutside T v) (hST : S ⊆ T) : f.ReadOutside S v :=
  h.imp_left fun ⟨s, hs, reads⟩ => ⟨s, fun hS => hs (hST hS), reads⟩

theorem mem_usedOutside : v ∈ f.usedOutside sites ↔ f.ReadOutside sites.toFinset v := by
  simp only [usedOutside, List.filterMap_append, List.mem_append]
  refine or_congr ?_ ?_
  · change v ∈ readValues _ ↔ _
    simp only [mem_readValues, List.mem_flatMap, List.mem_filter, Prod.exists, mem_located,
      decide_eq_true_eq, List.mem_toFinset]
    constructor
    · rintro ⟨s, i, ⟨hi, hs⟩, hv⟩
      exact ⟨s, hs, i, hi, hv⟩
    · rintro ⟨s, hs, i, hi, hv⟩
      exact ⟨s, i, ⟨hi, hs⟩, hv⟩
  · change v ∈ readValues _ ↔ _
    simp only [mem_readValues, exitOperands, List.mem_flatMap]
    refine exists_congr fun b => and_congr_right fun _ => ?_
    cases ht : b.terminator <;> simp [Block.exitOperands, ht]

/-! ## Rounds -/

/-- **A round** drops some of the sites whose values are read outside, at
least one of them. Removal drops all of them at once; here it is left open
which, and so also in what order they are found. -/
def Round (f : Function) (S T : Finset Site) : Prop :=
  T ⊂ S ∧ ∀ s ∈ S, s ∉ T → ∃ v, f.resultAt? s = some v ∧ f.ReadOutside S v

/-- **A round drops no site of what may go together.** -/
theorem MayGo.subset_of_round (h : f.MayGo gone) (hS : gone ⊆ S) (round : f.Round S T) :
    gone ⊆ T := by
  intro s hs
  by_contra dropped
  obtain ⟨v, hv, used⟩ := round.2 s (hS hs) dropped
  exact h s hs v hv (used.mono hS)

theorem MayGo.subset_of_rounds (h : f.MayGo gone) (hS : gone ⊆ S)
    (rounds : Relation.ReflTransGen f.Round S T) : gone ⊆ T := by
  induction rounds with
  | refl => exact hS
  | tail _ round ih => exact h.subset_of_round ih round

theorem subset_of_rounds (rounds : Relation.ReflTransGen f.Round S T) : T ⊆ S := by
  induction rounds with
  | refl => exact Finset.Subset.refl S
  | tail _ round ih => exact round.1.1.trans ih

theorem rounds_of_forall_lt (run : ℕ → Finset Site) {n : ℕ}
    (rounds : ∀ m < n, f.Round (run m) (run (m + 1))) :
    Relation.ReflTransGen f.Round (run 0) (run n) := by
  induction n with
  | zero => exact .refl
  | succ n ih => exact (ih fun m hm => rounds m (by omega)).tail (rounds n n.lt_succ_self)

/-- **There is a further round until what is left may go.** -/
theorem mayGo_iff_not_round : f.MayGo S ↔ ∀ T, ¬ f.Round S T := by
  constructor
  · intro h T round
    exact round.1.2 (h.subset_of_round (Finset.Subset.refl S) round)
  · intro ended s hs v hv used
    refine ended (S.erase s) ⟨Finset.erase_ssubset hs, fun t ht dropped => ?_⟩
    obtain rfl : t = s := by simpa [ht] using dropped
    exact ⟨v, hv, used⟩

/-- **Where rounds end, the greatest set that may go is left.** -/
theorem isGreatest_of_rounds (rounds : Relation.ReflTransGen f.Round S T)
    (ended : ∀ U, ¬ f.Round T U) : IsGreatest {gone | gone ⊆ S ∧ f.MayGo gone} T :=
  ⟨⟨subset_of_rounds rounds, mayGo_iff_not_round.2 ended⟩,
    fun _ ⟨hS, may⟩ => may.subset_of_rounds hS rounds⟩

/-- Beside the greatest set that may go, no further site may: its value is read
outside of that set. -/
theorem readOutside_of_isGreatest (greatest : IsGreatest {gone | gone ⊆ S ∧ f.MayGo gone} T)
    {s : Site} (hs : s ∈ S) (hstays : s ∉ T) :
    ∃ v, f.resultAt? s = some v ∧ f.ReadOutside T v := by
  by_contra unread
  push Not at unread
  refine hstays (greatest.2 ⟨Finset.insert_subset hs greatest.1.1, fun t ht v hv read => ?_⟩
    (Finset.mem_insert_self s T))
  -- a site more leaves less to be read outside
  have outside : f.ReadOutside T v := read.mono (Finset.subset_insert s T)
  rcases Finset.mem_insert.1 ht with rfl | ht
  · exact unread v hv outside
  · exact greatest.1.2 t ht v hv outside

/-- **Rounds end**, after as many of them as there are candidates at most. -/
theorem exists_not_round (run : ℕ → Finset Site) :
    ∃ n ≤ (run 0).card, ¬ f.Round (run n) (run (n + 1)) := by
  by_contra endless
  push Not at endless
  have shrinks : ∀ n ≤ (run 0).card + 1, (run n).card + n ≤ (run 0).card := by
    intro n
    induction n with
    | zero => exact fun _ => le_rfl
    | succ n ih =>
      intro hn
      have := ih (by omega)
      have := Finset.card_lt_card (endless n (by omega)).1
      omega
  have := shrinks ((run 0).card + 1) le_rfl
  omega

/-! ## The rounds of removal -/

theorem mem_unusedAmong {s : Site} :
    s ∈ f.unusedAmong sites ↔
      s ∈ sites ∧ ∀ v, f.resultAt? s = some v → v ∉ f.usedOutside sites := by
  simp only [unusedAmong, List.mem_filter]
  refine and_congr_right fun _ => ?_
  cases f.resultAt? s <;> simp

/-- A site is dropped because its value is used outside. -/
theorem used_of_not_mem_unusedAmong {s : Site} (h : s ∈ sites) (hs : s ∉ f.unusedAmong sites) :
    ∃ v, f.resultAt? s = some v ∧ v ∈ f.usedOutside sites := by
  rw [mem_unusedAmong, not_and] at hs
  have used := hs h
  push Not at used
  exact used

theorem unusedAmong_sublist : (f.unusedAmong sites).Sublist sites := List.filter_sublist

theorem settle_succ (rounds : ℕ) :
    f.settle (rounds + 1) sites =
      if (f.unusedAmong sites).length = sites.length then sites
      else f.settle rounds (f.unusedAmong sites) := rfl

/-- There are enough rounds: each but the last drops a candidate. -/
theorem unusedAmong_settle (rounds : ℕ) (h : sites.length ≤ rounds) :
    f.unusedAmong (f.settle rounds sites) = f.settle rounds sites := by
  induction rounds generalizing sites with
  | zero =>
    obtain rfl := List.length_eq_zero_iff.1 (Nat.le_zero.1 h)
    rfl
  | succ rounds ih =>
    rw [settle_succ]
    split
    · rename_i hlen
      exact unusedAmong_sublist.eq_of_length hlen
    · rename_i hlen
      -- the round dropped a candidate, so the rounds left are enough for the others
      have : (f.unusedAmong sites).length ≤ sites.length := unusedAmong_sublist.length_le
      exact ih (by omega)

/-- The last round drops no candidate. -/
theorem unusedAmong_removable : f.unusedAmong (f.removable sites) = f.removable sites :=
  unusedAmong_settle _ le_rfl

/-- What a round drops nothing of may go. -/
theorem mayGo_toFinset (h : f.unusedAmong sites = sites) : f.MayGo sites.toFinset := by
  intro s hs v hv used
  rw [← h, List.mem_toFinset] at hs
  exact (mem_unusedAmong.1 hs).2 v hv (mem_usedOutside.2 used)

/-- Removal drops all sites whose values are used outside in one round. -/
theorem round_unusedAmong (h : f.unusedAmong sites ≠ sites) :
    f.Round sites.toFinset (f.unusedAmong sites).toFinset := by
  have subset : (f.unusedAmong sites).toFinset ⊆ sites.toFinset :=
    fun s hs => List.mem_toFinset.2 (unusedAmong_sublist.subset (List.mem_toFinset.1 hs))
  refine ⟨⟨subset, fun back => h ?_⟩, fun s hs dropped => ?_⟩
  · exact List.filter_eq_self.2 fun s hs => (List.mem_filter.1
      (List.mem_toFinset.1 (back (List.mem_toFinset.2 hs)))).2
  · rw [List.mem_toFinset] at hs dropped
    obtain ⟨v, hv, hu⟩ := used_of_not_mem_unusedAmong hs dropped
    exact ⟨v, hv, mem_usedOutside.1 hu⟩

/-- **Settling goes through rounds**, each of which leaves fewer candidates. -/
theorem exists_rounds_settle (limit : ℕ) (sites : List Site) :
    ∃ n, (f.settle limit sites).toFinset.card + n ≤ sites.toFinset.card ∧
      f.unusedAmong^[n] sites = f.settle limit sites ∧
      ∀ m < n, f.Round (f.unusedAmong^[m] sites).toFinset
        (f.unusedAmong^[m + 1] sites).toFinset := by
  induction limit generalizing sites with
  | zero => exact ⟨0, le_rfl, rfl, by simp⟩
  | succ limit ih =>
    rw [settle_succ]
    split
    · exact ⟨0, le_rfl, rfl, by simp⟩
    · rename_i hlen
      have round := round_unusedAmong fun h => hlen (congrArg List.length h)
      obtain ⟨n, card, iterate, rounds⟩ := ih (f.unusedAmong sites)
      have := Finset.card_lt_card round.1
      refine ⟨n + 1, by omega, iterate, fun m hm => ?_⟩
      cases m with
      | zero => exact round
      | succ m => exact rounds m (by omega)

/-- **Removal takes the greatest set that may go.** -/
theorem isGreatest_removable (f : Function) (sites : List Site) :
    IsGreatest {gone | gone ⊆ sites.toFinset ∧ f.MayGo gone} (f.removable sites).toFinset := by
  obtain ⟨n, -, iterate, rounds⟩ := exists_rounds_settle (f := f) sites.length sites
  have course := rounds_of_forall_lt (fun m => (f.unusedAmong^[m] sites).toFinset) rounds
  rw [iterate] at course
  exact isGreatest_of_rounds course (mayGo_iff_not_round.1 (mayGo_toFinset unusedAmong_removable))

theorem removable_subset {s : Site} (h : s ∈ f.removable sites) : s ∈ sites :=
  List.mem_toFinset.1 ((isGreatest_removable f sites).1.1 (List.mem_toFinset.2 h))

/-! ## What stays -/

/-- **A function is what another one leaves** when the instructions at some
sites go. -/
structure Leaves (f : Function) (gone : Finset Site) (g : Function) : Prop where
  /-- Only blocks change. -/
  header : g = { f with blocks := g.blocks }
  /-- The blocks are the same by name. -/
  ids : g.blocks.map Block.id = f.blocks.map Block.id
  /-- They are so by label. -/
  labels : g.blocks.map Block.label = f.blocks.map Block.label
  /-- They end as before. -/
  terminators : g.blocks.map Block.terminator = f.blocks.map Block.terminator
  /-- Of each block the instructions at the other positions stay, in order. -/
  instructions : ∀ k b, f.blocks[k]? = some b →
    (g.blocks[k]?).map Block.instructions =
      some (((List.range b.instructions.length).filter fun n => ⟨k, n⟩ ∉ gone).filterMap
        fun n => b.instructions[n]?)

theorem getElem?_blocks_erase {k : ℕ} :
    (f.erase sites).blocks[k]? = (f.blocks[k]?).map fun b =>
      { b with instructions := ((b.located k).filter fun e => e.1 ∉ sites).map Prod.snd } := by
  simp [erase, mapLocated, Function.comp_def, List.getElem?_zipIdx]

/-- What is picked by site from a block are the instructions at those
positions. -/
theorem map_snd_filter_located {b : Block} {k : ℕ} {p : Site → Bool} :
    ((b.located k).filter fun e => p e.1).map Prod.snd =
      ((List.range b.instructions.length).filter fun n => p ⟨k, n⟩).filterMap
        fun n => b.instructions[n]? := by
  have positions : List.range b.instructions.length = b.instructions.zipIdx.map Prod.snd := by
    rw [List.zipIdx_map_snd, List.range_eq_range']
  have there : ∀ e ∈ b.instructions.zipIdx.filter fun e => p ⟨k, e.2⟩,
      b.instructions[e.2]? = some e.1 :=
    fun e he => List.mem_zipIdx_iff_getElem?.1 (List.mem_filter.1 he).1
  rw [positions, List.filter_map, List.filterMap_map, Block.located, List.filter_map, List.map_map]
  change List.map Prod.fst _ =
    List.filterMap (fun e : Instruction × ℕ => b.instructions[e.2]?) _
  rw [← List.filterMap_eq_map]
  exact List.filterMap_congr fun e he => (there e he).symm

/-- **Erasing leaves the rest.** -/
theorem leaves_erase : f.Leaves sites.toFinset (f.erase sites) := by
  have same {α : Type} (part : Block → α)
      (h : ∀ b l, part { b with instructions := l } = part b) :
      (f.erase sites).blocks.map part = f.blocks.map part := by
    refine List.ext_getElem? fun k => ?_
    rw [List.getElem?_map, List.getElem?_map, getElem?_blocks_erase, Option.map_map]
    exact congrArg (fun g => Option.map g f.blocks[k]?) (funext fun b => h b _)
  refine ⟨rfl, same _ fun _ _ => rfl, same _ fun _ _ => rfl, same _ fun _ _ => rfl, ?_⟩
  intro k b hb
  rw [getElem?_blocks_erase, hb, Option.map_some, Option.map_some]
  simp only [List.mem_toFinset]
  exact congrArg some (map_snd_filter_located (p := fun s => s ∉ sites))

/-- What is erased and what stays are the whole. -/
theorem length_instructions_erase :
    (f.erase sites).instructions.length + (f.located.countP fun e => e.1 ∈ sites) =
      f.instructions.length := by
  rw [erase_eq, instructions_rewrite, List.length_filterMap_eq_countP, ← map_snd_located,
    List.length_map, List.length_eq_countP_add_countP fun e => decide (e.1 ∈ sites), Nat.add_comm]
  congr 1
  refine List.countP_congr fun e _ => ?_
  by_cases he : e.1 ∈ sites <;> simp [he]

/-- Every site of an instruction is listed once. -/
theorem nodup_located : (f.located.map Prod.fst).Nodup :=
  (visited_perm.map Prod.fst).nodup_iff.1 nodup_visited

/-- **As many instructions go as there are sites**, where each is the site of
one. -/
theorem countP_located (inside : ∀ s ∈ sites, (f.instruction? s).isSome) :
    (f.located.countP fun e => e.1 ∈ sites) = sites.toFinset.card := by
  have chosen : ((f.located.map Prod.fst).filter fun s => s ∈ sites).toFinset =
      sites.toFinset := by
    ext s
    simp only [List.mem_toFinset, List.mem_filter, List.mem_map, decide_eq_true_eq]
    refine ⟨And.right, fun hs => ⟨?_, hs⟩⟩
    obtain ⟨i, hi⟩ := Option.isSome_iff_exists.1 (inside s hs)
    exact ⟨(s, i), mem_located.2 hi, rfl⟩
  rw [← chosen, List.toFinset_card_of_nodup (nodup_located.filter _),
    ← List.countP_eq_length_filter, List.countP_map]
  rfl

/-! ## Removal -/

/-- **Removal takes the greatest set of candidates that may go**, whatever set
of sites of instructions they are. Rounds that drop candidates because something
outside of those left reads their values end, after as many as there are candidates
at most, and leave that set, whichever of the sites in question each of them drops.
Removal goes through such rounds until one drops nothing, in whatever order the
candidates are listed. It leaves what stands at the other sites as it is, and counts
the instructions that went. -/
theorem removeUnused_isGreatest (f : Function) (candidates : Finset Site)
    (inside : ∀ s ∈ candidates, (f.instruction? s).isSome) :
    ∃ gone : Finset Site,
      IsGreatest {gone | gone ⊆ candidates ∧ f.MayGo gone} gone ∧
      (∀ run : ℕ → Finset Site, run 0 = candidates →
        ∃ n ≤ candidates.card, ¬ f.Round (run n) (run (n + 1))) ∧
      (∀ left, Relation.ReflTransGen f.Round candidates left →
        (∀ next, ¬ f.Round left next) → left = gone) ∧
      ∀ listing : List Site, listing.toFinset = candidates →
        (∃ n ≤ candidates.card, f.unusedAmong^[n] listing = f.removable listing ∧
          ∀ m < n, f.Round (f.unusedAmong^[m] listing).toFinset
            (f.unusedAmong^[m + 1] listing).toFinset) ∧
        f.unusedAmong (f.removable listing) = f.removable listing ∧
        (f.removable listing).toFinset = gone ∧
        f.Leaves gone (f.removeUnused listing) ∧
        f.countRemoved listing = gone.card ∧
        (f.removeUnused listing).instructions.length + gone.card = f.instructions.length := by
  have listed : candidates.toList.toFinset = candidates := Finset.toList_toFinset candidates
  have greatest : IsGreatest {gone | gone ⊆ candidates ∧ f.MayGo gone}
      (f.removable candidates.toList).toFinset := by
    have whole := isGreatest_removable f candidates.toList
    rwa [listed] at whole
  refine ⟨_, greatest, ?_, fun left rounds ended => ?_, ?_⟩
  · rintro run rfl
    exact exists_not_round run
  · exact (isGreatest_of_rounds rounds ended).unique greatest
  · rintro listing rfl
    have gone := (isGreatest_removable f listing).unique greatest
    obtain ⟨n, card, rounds⟩ := exists_rounds_settle (f := f) listing.length listing
    have count : f.countRemoved listing = (f.removable listing).toFinset.card :=
      countP_located fun s hs => inside s (List.mem_toFinset.2 (removable_subset hs))
    rw [← gone]
    refine ⟨⟨n, by omega, rounds⟩, unusedAmong_removable, rfl, leaves_erase, count, ?_⟩
    rw [← count]
    exact length_instructions_erase

/-- A loop in which a phi and a copy read nobody but each other, beside a copy
that a gate reads. -/
def idleLoop : Function where
  name := "main"
  params := []
  signature := []
  returnType := .void
  blocks := [
    ⟨⟨0⟩, "entry", [⟨some ⟨0⟩, .qubit, .call "__quantum__rt__qubit_allocate" []⟩],
      some (.branch ⟨1⟩)⟩,
    ⟨⟨1⟩, "loop", [
      ⟨some ⟨1⟩, .qubit, .phi [(⟨0⟩, .value ⟨0⟩), (⟨1⟩, .value ⟨2⟩)]⟩,
      ⟨some ⟨2⟩, .qubit, .copy (.value ⟨1⟩)⟩,
      ⟨some ⟨3⟩, .qubit, .copy (.value ⟨0⟩)⟩,
      .call "__quantum__qis__h__body" [.value ⟨3⟩]],
      some (.condBranch (.bool true) ⟨1⟩ ⟨2⟩)⟩,
    ⟨⟨2⟩, "exit", [], some (.ret none)⟩]
  attributes := .empty

/-- Of all four instructions that compute a value the phi and the copy of it go.
The other copy stays for the gate, and then the allocation for the copy. -/
theorem removeUnused_isGreatest_idleLoop :
    let candidates : List Site := [⟨0, 0⟩, ⟨1, 0⟩, ⟨1, 1⟩, ⟨1, 2⟩]
    let gone : Finset Site := {⟨1, 0⟩, ⟨1, 1⟩}
    (∀ s ∈ candidates.toFinset, (idleLoop.instruction? s).isSome) ∧
      IsGreatest {gone | gone ⊆ candidates.toFinset ∧ idleLoop.MayGo gone} gone ∧
      idleLoop.Leaves gone (idleLoop.removeUnused candidates) ∧
      idleLoop.countRemoved candidates = 2 := by
  intro candidates gone
  have inside : ∀ s ∈ candidates.toFinset, (idleLoop.instruction? s).isSome := by decide
  have removed : (idleLoop.removable candidates).toFinset = gone := by decide
  obtain ⟨_, greatest, -, -, removal⟩ :=
    removeUnused_isGreatest idleLoop candidates.toFinset inside
  obtain ⟨-, -, rfl, leaves, count, -⟩ := removal candidates rfl
  rw [removed] at greatest leaves count
  exact ⟨inside, greatest, leaves, count⟩

end Function

end QuantumLowering
