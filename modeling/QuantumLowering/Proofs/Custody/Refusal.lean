import QuantumLowering.Proofs.ControlFlow.Dominance
import QuantumLowering.Proofs.Custody.Reuse
import QuantumLowering.Proofs.Demand.Pool
import QuantumLowering.Proofs.Lowering.Abort
/-!
# Releases that are refused

A pool refuses to take a handle back that is not live. As long as no qubit
is released twice, the qubits held have live handles (`Custody.Tracked`),
so where lowering meets a refusal, two of the releases that it visited act
on one qubit. Lowering visits instructions in an order of its own, in
which those that no walk gets to come last, and it joins whatever a phi
lists. Where a walk gets to the release that is refused, the instructions
visited are those along the walk.
-/


namespace QuantumLowering

open Lowering

namespace Custody

variable {c : Custody} {l m : List (Option BlockId × (Site × Instruction))}

/-! ## Two releases of one qubit -/

/-- The qubits that an instruction releases. -/
def releases (c : Custody) (i : Instruction) : List Qubit :=
  ((i.releases?.map c.holding).getD .nothing).qubits

/-- **Two releases act on one qubit**, which was acquired before them, out of
instructions that are executed one by one. -/
def ReleasesAgain (l : List (Option BlockId × (Site × Instruction))) : Prop :=
  ∃ l₁ first l₂ second l₃ q, l = l₁ ++ first :: l₂ ++ second :: l₃ ∧
    q ∈ (start.run l₁).acquired ∧ q ∈ (start.run l₁).releases first.2.2 ∧
    q ∈ (start.run (l₁ ++ first :: l₂)).releases second.2.2

/-- **Every phi takes an operand**: it lists the block that its own was entered
from. -/
def TakesPhis (l : List (Option BlockId × (Site × Instruction))) : Prop :=
  ∀ e ∈ l, ∀ incoming, e.2.2.operation = .phi incoming →
    ∃ b, e.1 = some b ∧ b ∈ incoming.map Prod.fst

theorem releases_of_eq_some {i : Instruction} {target : Operand} (h : i.releases? = some target) :
    c.releases i = (c.holding target).qubits := by
  rw [releases, h, Option.map_some, Option.getD_some]

/-- Nothing is released twice at once. -/
theorem nodup_releases (c : Custody) (i : Instruction) : (c.releases i).Nodup := by
  unfold releases
  cases (i.releases?.map c.holding).getD .nothing with
  | nothing => exact .nil
  | qubit q => exact List.nodup_singleton q
  | array v size =>
    exact List.Nodup.map (fun a b h => (Qubit.mk.inj h).2) List.nodup_range

theorem released_step (c : Custody) (source : Option BlockId) (i : Instruction) :
    (c.step source i).released = c.released ++ c.releases i := by
  cases hr : i.releases? with
  | some target =>
    have ha : i.acquires? = none := by
      obtain ⟨result, ty, operation⟩ := i
      obtain rfl : result = none := Instruction.result_of_releases (by rw [hr]; rfl)
      exact Instruction.acquires?_of_result_none
    rw [step_of_releases ha hr, releases_of_eq_some hr, Custody.release]
  | none =>
    have nothing : c.releases i = [] := by rw [releases, hr]; rfl
    rw [nothing, List.append_nil, step, hr]
    split
    · rfl
    · contradiction
    · rfl
    · rfl

theorem run_append : c.run (l ++ m) = (c.run l).run m := List.foldl_append

theorem released_run_concat (c : Custody) (e : Option BlockId × (Site × Instruction)) :
    (c.run (l ++ [e])).released = (c.run l).released ++ (c.run l).releases e.2.2 := by
  rw [run_append]
  exact released_step _ e.1 e.2.2

/-- What was released by then is released in the end. -/
theorem released_run_mono (h : l <+: m) :
    (c.run l).released <+: (c.run m).released := by
  obtain ⟨rest, rfl⟩ := h
  rw [run_append]
  exact released_prefix_run _ rest

/-- A qubit was released by one of the instructions executed. -/
theorem exists_of_mem_released {q : Qubit} (h : q ∈ (start.run l).released) :
    ∃ l₁ first l₂, l = l₁ ++ first :: l₂ ∧ q ∈ (start.run l₁).releases first.2.2 := by
  induction l using List.reverseRecOn with
  | nil => cases h
  | append_singleton l e ih =>
    rw [released_run_concat, List.mem_append] at h
    rcases h with h | h
    · obtain ⟨l₁, first, l₂, rfl, hq⟩ := ih h
      exact ⟨l₁, first, l₂ ++ [e], by simp, hq⟩
    · exact ⟨l, e, [], rfl, h⟩

/-- What is released was acquired. -/
theorem Covered.releases (h : c.Covered) (i : Instruction) :
    ∀ q ∈ c.releases i, q ∈ c.acquired := by
  cases hr : i.releases? with
  | some target =>
    rw [releases_of_eq_some hr]
    exact h.holding target
  | none =>
    rw [Custody.releases, hr]
    exact fun q hq => by cases hq

/-- **Two releases act on one qubit exactly if a qubit is released twice.** -/
theorem releasesAgain_iff : ReleasesAgain l ↔ ¬ (start.run l).released.Nodup := by
  constructor
  · rintro ⟨l₁, first, l₂, second, l₃, q, rfl, -, hq₁, hq₂⟩ once
    have before : q ∈ (start.run (l₁ ++ first :: l₂)).released := by
      have hq : q ∈ (start.run (l₁ ++ [first])).released := by
        rw [released_run_concat]
        exact List.mem_append_right _ hq₁
      exact (released_run_mono ⟨l₂, by simp⟩).subset hq
    have upTo : (start.run (l₁ ++ first :: l₂ ++ [second])).released.Nodup :=
      once.sublist (released_run_mono ⟨l₃, by simp⟩).sublist
    rw [released_run_concat] at upTo
    exact (List.nodup_append.1 upTo).2.2 q before q hq₂ rfl
  · intro h
    induction l using List.reverseRecOn with
    | nil => exact absurd .nil h
    | append_singleton l e ih =>
      by_cases once : (start.run l).released.Nodup
      · -- the last of the instructions releases a qubit again
        rw [released_run_concat, List.nodup_append] at h
        push Not at h
        obtain ⟨q, hq, q', hq', rfl⟩ := h once (nodup_releases _ _)
        obtain ⟨l₁, first, l₂, rfl, hfirst⟩ := exists_of_mem_released hq
        exact ⟨l₁, first, l₂, e, [], q, rfl, (Covered.start.run l₁).releases _ q hfirst, hfirst, hq'⟩
      · obtain ⟨l₁, first, l₂, second, l₃, q, rfl, acquired, hq₁, hq₂⟩ := ih once
        exact ⟨l₁, first, l₂, second, l₃ ++ [e], q, by simp, acquired, hq₁, hq₂⟩

/-- **While no qubit is released twice, the pool takes handles back.** -/
theorem Tracked.not_invalid {t : Tracker} {initial : Pool} {s : Stock}
    (h : Tracked t initial s c) {target : Operand} {r : Resource}
    (names : (c.holding target).Names t r) (once : (c.release target).released.Nodup)
    {p : Pool} {e : PoolError} (refused : s.pool.releaseBlock r.handle r.count = (p, .error e)) :
    ¬ e.Invalid := by
  intro invalid
  obtain ⟨x, hx, dead⟩ := Pool.exists_not_live_of_releaseBlock h.sound.issued refused invalid
  have hx : x ∈ r.handles := hx
  rw [names.fits.handles] at hx
  obtain ⟨q, hq, hqx⟩ := names.exists_qubit hx
  obtain ⟨y, hqy, live, -⟩ := h.live q (h.held_of_release once q hq)
  obtain rfl := Option.some.inj (hqx.symm.trans hqy)
  exact dead live

end Custody

/-! ## Decisions that fail -/

namespace Stock

variable {s : Stock} {kind k : ResourceKind} {v : ValueId} {e : PoolError}

theorem eq_error_of_keep {record : Handle → Tracker.Reply Unit} {drawn : Pool.Reply Handle}
    (h : (s.keep kind record drawn).failure = some (.allocation k e)) :
    drawn = (drawn.1, .error e) := by
  unfold keep at h
  split at h
  · cases h
    rfl
  · split at h <;> cases h

theorem failure_derive_ne {o : Option Resource} :
    (s.derive v o).failure ≠ some (.allocation k e) := by
  unfold derive
  split <;> exact fun h => by cases h

theorem exists_of_failure_release {r : Resource}
    (h : (s.release r).failure = some (.allocation k e)) :
    ∃ p, s.pool.releaseBlock r.handle r.count = (p, .error e) := by
  unfold release at h
  split at h
  · cases h
  · rename_i p e' hr
    cases h
    exact ⟨p, hr⟩

/-- **Only what is released can be invalid**: a pool that refuses anything else has no
handle left. -/
theorem Effect.exists_release_of_invalid {α : Type} {gives : Resource → Prop}
    {asks : Option (ValueId × ℕ)} {binds : Option ValueId} {d : Draw α}
    (h : s.Effect k gives asks binds d) (fails : d.failure = some (.allocation k e))
    (invalid : e.Invalid) :
    ∃ r, gives r ∧ ∃ p, s.pool.releaseBlock r.handle r.count = (p, .error e) := by
  have exhausted : ∀ n, e ≠ .exhausted n := by
    rintro n rfl
    cases invalid
  cases h with
  | acquire =>
    rw [Draw.failure_map] at fails
    exact absurd (Pool.allocate_eq_error (eq_error_of_keep fails)).2.1 (exhausted _)
  | acquireBlock =>
    rw [Draw.failure_map] at fails
    exact absurd (Pool.allocateBlock_eq_error.1 (eq_error_of_keep fails)).2.1 (exhausted _)
  | derive =>
    rw [Draw.failure_map] at fails
    exact absurd fails failure_derive_ne
  | release _ given =>
    rw [Draw.failure_map] at fails
    exact ⟨_, given, exists_of_failure_release fails⟩
  | still => cases fails

end Stock

namespace QubitLowering

variable {honored : Bool} {s : Stock} {i : Instruction} {e : PoolError} {p : Program}
variable {c : Context}

theorem exists_call_of_releases {target : Operand} (h : i.releases? = some target) :
    ∃ ty callee args, i = ⟨none, ty, .call callee (target :: args)⟩ ∧
      (callee = Intrinsics.releaseQubit ∨ callee = Intrinsics.releaseArray) := by
  obtain ⟨result, ty, operation⟩ := i
  obtain rfl : result = none := Instruction.result_of_releases (by rw [h]; rfl)
  unfold Instruction.releases? at h
  split at h
  · rename_i callee first args hop _
    obtain rfl : operation = .call callee (first :: args) := hop
    split at h
    · rename_i hc
      cases h
      exact ⟨ty, callee, args, rfl, hc⟩
    · cases h
  · cases h

/-- A release reads what it releases. -/
theorem mem_operands_of_releases {target : Operand} (h : i.releases? = some target) :
    target ∈ i.operands := by
  obtain ⟨ty, callee, args, rfl, -⟩ := exists_call_of_releases h
  exact List.mem_cons_self

theorem managesQubits_of_releases {target : Operand} (h : i.releases? = some target) :
    i.managesQubits := by
  obtain ⟨ty, callee, args, rfl, hc⟩ := exists_call_of_releases h
  rw [Instruction.managesQubits_call]
  rcases hc with rfl | rfl <;> decide

/-- **Only a release that counts is refused**, for a handle that the pool does not take
back. -/
theorem exists_release_of_invalid (h : (judge honored s i).failure = some (.allocation .qubit e))
    (invalid : e.Invalid) :
    honored = true ∧ ∃ target r q, i.releases? = some target ∧
      s.tracker.resolveAs? .qubit target = some r ∧
      s.pool.releaseBlock r.handle r.count = (q, .error e) := by
  obtain ⟨r, ⟨honored, target, hrole, hr⟩, q, hq⟩ :=
    (effect_judge honored s i).exists_release_of_invalid h invalid
  exact ⟨honored, target, r, q, releases?_of_role hrole, hr, hq⟩

/-! ## Programs -/

/-- **Lowering stops at a release** that is refused, in the definition that manages qubits,
when it has visited the instructions before. -/
structure Refused (p : Program) (c : Context) (e : PoolError) (f : Function)
    (before : List (Site × Instruction)) (failing : Site × Instruction) : Prop where
  /-- It is a definition of the program. -/
  mem : f ∈ p.definitions
  /-- It manages qubits. -/
  manages : f.managesQubits
  /-- Releases in it count. -/
  honored : honors (managers p ≤ 1) c.qubits f
  /-- The instructions are those that lowering visits first. -/
  visited : before ++ [failing] <+: f.visited
  /-- The last of them is a release. -/
  release : failing.2.releases?.isSome
  /-- Lowering starts from the pool as it was, with nothing known. It decides the instructions
  before the last and fails at that. -/
  stops : ∃ s ds s', s.pool = c.qubits ∧ (∀ v, s.tracker.resolve? v = none) ∧
    Decides (judge true) s before ds s' ∧
    (judge true s' failing.2).failure = some (.allocation .qubit e)

theorem exists_refused (hc : c.tracker = .empty)
    (static : ∀ f ∈ p.definitions, ∀ i ∈ f.instructions, ∀ o ∈ i.operands, ∀ x, o ≠ .qubit x)
    (invalid : e.Invalid) (h : (run p c).failure = some (.allocation .qubit e)) :
    ∃ f before failing, Refused p c e f before failing := by
  rw [run_failure] at h
  obtain ⟨fs₁, f, fs₂, gs, s, split, hd, sweeps, fails, -⟩ := exists_sweeps_of_failure h
  have hf : f ∈ p.definitions :=
    Program.mem_definitions.2 ⟨split ▸ List.mem_append_right _ List.mem_cons_self, hd⟩
  rw [lower_failure] at fails
  obtain ⟨before, failing, after, ds, s₁, visited, decides, refused⟩ := stops_decideAll fails
  have failure : (judge (honors (managers p ≤ 1) s.pool f) s₁ failing.2).failure =
      some (.allocation .qubit e) := by rw [refused]; rfl
  obtain ⟨honored, target, -, -, release, -⟩ := exists_release_of_invalid failure invalid
  have hi : failing.2 ∈ f.instructions := Function.mem_instructions.2 ⟨failing.1,
    Function.mem_visited.1 (visited ▸ List.mem_append_right _ List.mem_cons_self)⟩
  have manages : f.managesQubits :=
    List.any_eq_true.2 ⟨failing.2, hi, managesQubits_of_releases release⟩
  have sole : managers p ≤ 1 := by
    simp only [honors, Bool.and_eq_true, decide_eq_true_eq] at honored
    exact honored.1.1.2
  -- the definitions before this one manage no qubits, so it finds the pool as it was
  obtain ⟨pool, new⟩ := start_of_sweeps sole hc static hf manages split sweeps
  rw [honored] at decides failure
  rw [pool] at honored
  exact ⟨f, before, failing, hf, manages, honored, ⟨after, by simp [visited]⟩,
    by rw [release]; rfl, s, ds, s₁, pool, new, decides, failure⟩

namespace Refused

variable {f : Function} {before : List (Site × Instruction)} {failing : Site × Instruction}

/-- **Two of the releases visited act on one qubit**, if every phi takes an operand that it
lists. -/
theorem releasesAgain (h : Refused p c e f before failing) (wf : p.WellFormed)
    (sound : c.qubits.Sound) (invalid : e.Invalid)
    (static : ∀ f ∈ p.definitions, ∀ i ∈ f.instructions, ∀ o ∈ i.operands, ∀ x, o ≠ .qubit x)
    {l : List (Option BlockId × (Site × Instruction))} (hl : l.map Prod.snd = before ++ [failing])
    (takes : Custody.TakesPhis l) : Custody.ReleasesAgain l := by
  rw [Custody.releasesAgain_iff]
  intro once
  obtain ⟨s, ds, s', pool, new, decides, failure⟩ := h.stops
  obtain ⟨front, last, rfl, rfl, rfl⟩ : ∃ front last, l = front ++ [last] ∧
      front.map Prod.snd = before ∧ last.2 = failing := by
    obtain ⟨front, rest, hl, hfront, hrest⟩ := List.map_eq_append_iff.1 hl
    obtain ⟨last, rfl, hlast⟩ := List.map_eq_singleton_iff.1 hrest
    exact ⟨front, last, hl, hfront, hlast⟩
  have hvisited : ∀ d ∈ front.map Prod.snd ++ [last.2], d ∈ f.located := fun d hd =>
    Function.mem_visited.1 (h.visited.subset hd)
  have static' : ∀ d ∈ front.map Prod.snd ++ [last.2], ∀ o ∈ d.2.operands, ∀ x, o ≠ .qubit x :=
    fun d hd => static f h.mem d.2 (Function.mem_instructions.2 ⟨d.1, hvisited d hd⟩)
  have results := Function.nodup_visited_results (wf.nodup_definedValues h.mem)
  have first : front.map Prod.snd <+: f.visited := (List.prefix_append _ _).trans h.visited
  rw [Custody.released_run_concat] at once
  have tracked : Custody.Tracked s'.tracker s.pool s' (Custody.start.run front) :=
    (Custody.Tracked.start (pool ▸ sound) new).run_all decides
      (results.sublist (first.sublist.filterMap _)) (fun _ _ v _ => new v) (fun _ _ _ _ => rfl)
      (fun d hd => static' d (List.mem_append_left _ hd))
      (fun d hd => takes d (List.mem_append_left _ hd)) (List.nodup_append.1 once).1
  -- what is refused is then a qubit that is held
  obtain ⟨-, target, r, q, release, known, refused⟩ := exists_release_of_invalid failure invalid
  have names := tracked.names (static' last.2 (List.mem_append_right _ (List.mem_singleton_self _))
    target (mem_operands_of_releases release)) known
  rw [Custody.releases_of_eq_some release] at once
  exact tracked.not_invalid names once refused invalid

/-- A beginning of a list without duplicates that has an element goes on to it. -/
theorem concat_prefix_of_mem {α : Type} {l m front : List α} {x : α} (nodup : l.Nodup)
    (h : front ++ [x] <+: l) (hm : m <+: l) (hx : x ∈ m) : front ++ [x] <+: m := by
  rcases List.prefix_or_prefix_of_prefix h hm with hfront | hm
  · exact hfront
  · rcases List.prefix_concat_iff.1 hm with rfl | hm
    · exact List.prefix_rfl
    · have apart := nodup.sublist h.sublist
      exact absurd rfl ((List.nodup_append.1 apart).2.2 x (hm.subset hx) x
        (List.mem_singleton_self x))

/-- **The instructions visited are those along a walk**, if one gets to the release. -/
theorem exists_walk (h : Refused p c e f before failing) (wf : p.WellFormed)
    (reachable : f.Reachable failing.1.block) :
    ∃ w l, f.Walk w ∧ w.Nodup ∧ l <+: f.trace w ∧ l.map Prod.snd = before ++ [failing] := by
  obtain ⟨entry, he, -⟩ := Function.reachable_iff.1 reachable
  obtain ⟨front, behind, order⟩ := List.append_of_mem (Function.mem_reachableOrder.2 reachable)
  have first : front ++ [failing.1.block] <+: f.reachableOrder := ⟨behind, by simp [order]⟩
  have walk := Function.walk_of_isPrefix_reachableOrder
    (edge_unique (wf.definitions f h.mem).ids (isStraight_of_honors h.honored)) he (by simp) first
  have apart : (front ++ [failing.1.block]).reverse.Nodup :=
    List.nodup_reverse.2 (Function.nodup_reachableOrder.sublist first.sublist)
  -- lowering visits first what is executed along the walk, the release included
  have trace : (f.trace (front ++ [failing.1.block]).reverse).map Prod.snd =
      (front ++ [failing.1.block]).flatMap f.locatedAt := by
    rw [Function.map_snd_trace, List.reverse_reverse]
  have upTo : before ++ [failing] <+:
      (f.trace (front ++ [failing.1.block]).reverse).map Prod.snd := by
    rw [trace]
    refine concat_prefix_of_mem (Function.nodup_visited.of_map _) h.visited ?_ ?_
    · rw [Function.visited_eq]
      exact (first.trans (List.prefix_append _ _)).flatMap _
    · have located := Function.mem_visited.1
        (h.visited.subset (List.mem_append_right before (List.mem_singleton_self failing)))
      exact List.mem_flatMap.2 ⟨failing.1.block, by simp,
        Function.mem_locatedAt.2 ⟨rfl, Function.mem_located.1 located⟩⟩
  obtain ⟨rest, hrest⟩ := upTo
  obtain ⟨l, l', hl, hmap, -⟩ := List.map_eq_append_iff.1 hrest.symm
  exact ⟨_, l, walk, apart, ⟨l', hl.symm⟩, hmap⟩

end Refused

/-- **A refusal is no false alarm**: lowering stops at a release, and two of the releases that
it visited up to there act on one qubit, if every phi takes an operand that it lists. If
a walk gets to the release, what lowering visited is what is executed along a walk, which
goes through no block twice. So the two releases are executed along the walk, if every phi
on it lists the block that control comes from. -/
theorem refused_release_again (p : Program) (hp : p.verify = .ok ())
    (static : ∀ f ∈ p.definitions, ∀ i ∈ f.instructions, ∀ o ∈ i.operands, ∀ x, o ≠ .qubit x)
    (c : Context) (hc : c.tracker = .empty) (hq : c.qubits.Reachable) (e : PoolError)
    (invalid : e.Invalid) (h : (run p c).failure = some (.allocation .qubit e)) :
    ∃ f before failing, Refused p c e f before failing ∧
      (∀ l, l.map Prod.snd = before ++ [failing] → Custody.TakesPhis l →
        Custody.ReleasesAgain l) ∧
      (f.Reachable failing.1.block → ∃ w l, f.Walk w ∧ w.Nodup ∧ l <+: f.trace w ∧
        l.map Prod.snd = before ++ [failing] ∧
          (Custody.TakesPhis l → Custody.ReleasesAgain l)) := by
  have wf := Program.verify_eq_ok_iff.1 hp
  obtain ⟨f, before, failing, refused⟩ := exists_refused hc static invalid h
  have again : ∀ l, l.map Prod.snd = before ++ [failing] → Custody.TakesPhis l →
      Custody.ReleasesAgain l := fun l hl =>
    refused.releasesAgain wf hq.sound invalid static hl
  refine ⟨f, before, failing, refused, again, fun reachable => ?_⟩
  obtain ⟨w, l, walk, apart, trace, hl⟩ := refused.exists_walk wf reachable
  exact ⟨w, l, walk, apart, trace, hl, again l hl⟩

/-- A qubit is acquired, and released under two names. One of these is a phi that lists a
single block: one that control comes from, or one that it never gets to. -/
def joinedMain (source : BlockId) : Function where
  name := "main"
  params := []
  signature := []
  returnType := .void
  blocks := [
    ⟨⟨0⟩, "entry", [⟨some ⟨0⟩, .qubit, .call Intrinsics.acquireQubit []⟩], some (.branch ⟨2⟩)⟩,
    ⟨⟨1⟩, "dead", [], some (.branch ⟨2⟩)⟩,
    ⟨⟨2⟩, "join", [
      ⟨some ⟨1⟩, .qubit, .phi [(source, .value ⟨0⟩)]⟩,
      .call Intrinsics.releaseQubit [.value ⟨1⟩],
      .call Intrinsics.releaseQubit [.value ⟨0⟩]], some (.ret none)⟩]
  attributes := .empty

/-- The program of that function alone. -/
def joined (source : BlockId) : Program where
  name := "joined"
  functions := [joinedMain source]
  flags := .empty
  nextValue := 2

theorem entry?_joinedMain (source : BlockId) : Function.entry? (joinedMain source) = some 0 := rfl

theorem edges_joinedMain (source : BlockId) : (joinedMain source).edges = [(0, 2), (1, 2)] := rfl

theorem walk_joinedMain (source : BlockId) : (joinedMain source).Walk [2, 0] :=
  .step (.start (entry?_joinedMain source)) (by simp [ControlFlow.Edge, edges_joinedMain])

theorem eq_of_walk_joinedMain {source : BlockId} {w : List ℕ} (h : (joinedMain source).Walk w) :
    w = [0] ∨ w = [2, 0] := by
  induction h with
  | start he =>
    obtain rfl := Option.some.inj (he.symm.trans (entry?_joinedMain source))
    exact .inl rfl
  | step _ edge ih =>
    rcases ih with h | h <;> cases h <;>
      simp_all [ControlFlow.Edge, edges_joinedMain]

/-- Either block makes it another name of the qubit to lowering, so its second release is
refused. -/
theorem failure_joined (source : BlockId) :
    (run (joined source) reusing).failure = some (.allocation .qubit (.alreadyReleased 0)) := by
  have visited : (joinedMain source).visited = [
      (⟨0, 0⟩, ⟨some ⟨0⟩, .qubit, .call Intrinsics.acquireQubit []⟩),
      (⟨2, 0⟩, ⟨some ⟨1⟩, .qubit, .phi [(source, .value ⟨0⟩)]⟩),
      (⟨2, 1⟩, .call Intrinsics.releaseQubit [.value ⟨1⟩]),
      (⟨2, 2⟩, .call Intrinsics.releaseQubit [.value ⟨0⟩])] := rfl
  have phi : role ⟨some ⟨1⟩, .qubit, .phi [(source, .value ⟨0⟩)]⟩ = .phi ⟨1⟩ [.value ⟨0⟩] := rfl
  rw [(run_eq_plan (f := joinedMain source) rfl rfl reusing).1, plan, visited]
  simp only [decideAll, judge, phi]
  cbv

theorem refused_release_again_joined :
    (joined ⟨0⟩).verify = .ok () ∧
      (run (joined ⟨0⟩) reusing).failure = some (.allocation .qubit (.alreadyReleased 0)) ∧
      ∃ w l, (joinedMain ⟨0⟩).Walk w ∧ l <+: (joinedMain ⟨0⟩).trace w ∧
        Custody.ReleasesAgain l := by
  have verified : (joined ⟨0⟩).verify = .ok () := by decide
  obtain ⟨f, before, failing, refused, -, walks⟩ := refused_release_again (joined ⟨0⟩) verified
    (static_of_values (by decide)) reusing rfl (.fresh _ _) _ (.alreadyReleased 0)
    (failure_joined ⟨0⟩)
  obtain rfl : f = joinedMain ⟨0⟩ := List.mem_singleton.1 refused.mem
  -- all releases stand in the last block
  have last : ∀ d ∈ (joinedMain ⟨0⟩).visited, d.2.releases?.isSome → d.1.block = 2 := by decide
  have block := last failing
    (refused.visited.subset (List.mem_append_right before (List.mem_singleton_self failing)))
    refused.release
  obtain ⟨w, l, walk, -, trace, -, again⟩ := walks (block ▸ ⟨[0], walk_joinedMain ⟨0⟩⟩)
  refine ⟨verified, failure_joined ⟨0⟩, w, l, walk, trace, again fun d hd incoming hphi => ?_⟩
  have phis : ∀ w ∈ [[0], [2, 0]], ∀ d ∈ (joinedMain ⟨0⟩).trace w, d.2.2.isPhi →
      d.1 = some ⟨0⟩ ∧ d.2.2.operation = .phi [(⟨0⟩, .value ⟨0⟩)] := by decide
  obtain ⟨source, phi⟩ := phis w (by simpa using eq_of_walk_joinedMain walk) d (trace.subset hd)
    (by rw [Instruction.isPhi, hphi])
  cases hphi.symm.trans phi
  exact ⟨⟨0⟩, source, List.mem_singleton_self _⟩

/-! ## Refusals without a walk -/

/-- A function whose first block returns. A qubit is acquired and released twice in a block
that no walk gets to. -/
def deadMain : Function where
  name := "main"
  params := []
  signature := []
  returnType := .void
  blocks := [
    ⟨⟨0⟩, "entry", [], some (.ret none)⟩,
    ⟨⟨1⟩, "dead", [
      ⟨some ⟨0⟩, .qubit, .call Intrinsics.acquireQubit []⟩,
      .call Intrinsics.releaseQubit [.value ⟨0⟩],
      .call Intrinsics.releaseQubit [.value ⟨0⟩]], some (.ret none)⟩]
  attributes := .empty

/-- The program of that function alone. -/
def dead : Program where
  name := "dead"
  functions := [deadMain]
  flags := .empty
  nextValue := 1

/-- **A release is refused that no walk gets to**: lowering visits blocks that cannot be
reached as well. -/
theorem refused_without_walk :
    dead.verify = .ok () ∧
      (∀ f ∈ dead.definitions, ∀ i ∈ f.instructions, ∀ o ∈ i.operands, ∀ x, o ≠ .qubit x) ∧
      reusing.tracker = .empty ∧ reusing.qubits = .fresh .reuse none ∧
      reusing.results = .fresh .reuse none ∧
      (run dead reusing).failure = some (.allocation .qubit (.alreadyReleased 0)) ∧
      ∀ f ∈ dead.definitions, ∀ w, f.Walk w → ¬ Custody.ReleasesAgain (f.trace w) := by
  refine ⟨by decide, static_of_values (by decide), rfl, rfl, rfl, ?_, fun f hf w hw => ?_⟩
  · rw [(run_eq_plan (f := deadMain) rfl rfl reusing).1]
    cbv
  · obtain rfl : f = deadMain := List.mem_singleton.1 hf
    have edges : deadMain.edges = [] := by decide
    rw [Custody.releasesAgain_iff, not_not]
    cases hw with
    | start he =>
      obtain rfl := Option.some.inj (he.symm.trans (show deadMain.entry? = some 0 by decide))
      decide
    | step _ edge => simp [ControlFlow.Edge, edges] at edge

/-- **A release is refused for another one that walks do not make**: no walk takes what the
phi lists, though one gets to both releases. -/
theorem refused_without_taking :
    (joined ⟨1⟩).verify = .ok () ∧
      (run (joined ⟨1⟩) reusing).failure = some (.allocation .qubit (.alreadyReleased 0)) ∧
      (joinedMain ⟨1⟩).Walk [2, 0] ∧
      ∀ w, (joinedMain ⟨1⟩).Walk w → ¬ Custody.ReleasesAgain ((joinedMain ⟨1⟩).trace w) := by
  refine ⟨by decide, failure_joined ⟨1⟩, walk_joinedMain ⟨1⟩, fun w hw => ?_⟩
  rw [Custody.releasesAgain_iff, not_not]
  rcases eq_of_walk_joinedMain hw with rfl | rfl <;> decide

end QubitLowering

end QuantumLowering
