import QuantumLowering.Proofs.Demand.Steps
/-!
# Lowering beside another table

Lowering of one kind does not notice a table that knows of other values,
and only resources of the other kind: it draws the same from both stocks
(`Stock.Beside`), whether it fails or not, also where addresses of the
other kind stand in place of such values (`Spares`). So a run over what
another change left of some instructions follows the run over all of them,
if the others mean nothing for it (`Lowering.follows_decideAll`).
-/


namespace QuantumLowering

open Lowering

/-! ## Stocks -/

/-- **One stock is another one beside a table**: the pool is the same, the
values of `B` stand for the same, and all others for what they stand for in
the table. The other stock knows nothing of those. -/
structure Stock.Beside (B : List ValueId) (T : Tracker) (s s' : Stock) : Prop where
  /-- The pool is the same. -/
  pool : s'.pool = s.pool
  /-- So is what these values stand for. -/
  inside : ∀ v ∈ B, s'.tracker.resolve? v = s.tracker.resolve? v
  /-- The others stand for what they stand for in the table. -/
  outside : ∀ v ∉ B, s'.tracker.resolve? v = T.resolve? v
  /-- Nothing else is known of them. -/
  alone : ∀ v ∉ B, s.tracker.resolve? v = none

/-- **Two draws are the same**, but for the table beside them. -/
def Draw.Beside {α : Type} (B : List ValueId) (T : Tracker) (d d' : Draw α) : Prop :=
  d.1.Beside B T d'.1 ∧ d'.2 = d.2

theorem Draw.Beside.map {α β : Type} {B : List ValueId} {T : Tracker} {d d' : Draw α}
    (h : d.Beside B T d') (g : α → β) : (d.map g).Beside B T (d'.map g) :=
  ⟨h.1, congrArg (Except.map g) h.2⟩

theorem Draw.map_map {α β γ : Type} (d : Draw α) (g : α → β) (h : β → γ) :
    (d.map g).map h = d.map (h ∘ g) := by
  obtain ⟨s, r⟩ := d
  cases r <;> rfl

@[simp] theorem Draw.map_id {α : Type} (d : Draw α) : d.map id = d := by
  obtain ⟨s, r⟩ := d
  cases r <;> rfl

namespace Tracker

variable {t t' : Tracker} {v : ValueId}

/-- Whether a value can be bound depends on the value alone. -/
theorem assign_congr (h : t'.resolve? v = t.resolve? v) (r : Resource) :
    (t.assign v r = (t.associate v (.known r), .ok ()) ∧
        t'.assign v r = (t'.associate v (.known r), .ok ())) ∨
      ∃ e, t.assign v r = (t, .error e) ∧ t'.assign v r = (t', .error e) := by
  unfold assign
  rw [h]
  cases t.resolve? v with
  | none => exact .inl ⟨rfl, rfl⟩
  | some r' =>
    by_cases hr : r' = r
    · simp [hr]
    · simp [hr]

end Tracker

namespace Stock.Beside

variable {B : List ValueId} {T : Tracker} {s s' : Stock} {kind : ResourceKind} {v : ValueId}

/-- Setting one of the values in both keeps them so. -/
theorem sets (h : s.Beside B T s') (hv : v ∈ B) {o : Option Resource} {pool : Pool}
    {t t' : Tracker} (ht : s.tracker.Sets t v o) (ht' : s'.tracker.Sets t' v o) :
    Stock.Beside B T ⟨pool, t⟩ ⟨pool, t'⟩ where
  pool := rfl
  inside u hu := by rw [ht u, ht' u, h.inside u hu]
  outside u hu := by
    rw [ht'.other (ne_of_mem_of_not_mem hv hu).symm]
    exact h.outside u hu
  alone u hu := by
    rw [ht.other (ne_of_mem_of_not_mem hv hu).symm]
    exact h.alone u hu

theorem withPool (h : s.Beside B T s') (pool : Pool) :
    Stock.Beside B T ⟨pool, s.tracker⟩ ⟨pool, s'.tracker⟩ :=
  ⟨rfl, h.inside, h.outside, h.alone⟩

theorem derive (h : s.Beside B T s') (hv : v ∈ B) (o : Option Resource) :
    (s.derive v o).Beside B T (s'.derive v o) := by
  have same := h.withPool s.pool
  rw [Stock.derive, Stock.derive, h.pool]
  cases o with
  | none => exact ⟨h.sets hv (Tracker.sets_associate _) (Tracker.sets_associate _), rfl⟩
  | some r =>
    simp only [Tracker.bind]
    rcases Tracker.assign_congr (h.inside v hv) r with ⟨ha, ha'⟩ | ⟨e, ha, ha'⟩
    · rw [ha, ha']
      exact ⟨h.sets hv (Tracker.sets_associate _) (Tracker.sets_associate _), rfl⟩
    · rw [ha, ha']
      exact ⟨same, rfl⟩

theorem keep (h : s.Beside B T s') (hv : v ∈ B) (width : ℕ) (count : Handle → ℕ)
    (drawn : Pool.Reply Handle) :
    (s.keep kind (fun x => s.tracker.record v ⟨kind, x, width⟩ (count x)) drawn).Beside B T
      (s'.keep kind (fun x => s'.tracker.record v ⟨kind, x, width⟩ (count x)) drawn) := by
  obtain ⟨pool, e | base⟩ := drawn
  · exact ⟨h.withPool pool, rfl⟩
  · simp only [Stock.keep, Tracker.record]
    rcases Tracker.assign_congr (h.inside v hv) ⟨kind, base, width⟩ with ⟨ha, ha'⟩ | ⟨e, ha, ha'⟩
    · rw [ha, ha']
      exact ⟨h.sets hv (Tracker.sets_associate _) (Tracker.sets_associate _), rfl⟩
    · rw [ha, ha']
      exact ⟨h.withPool pool, rfl⟩

theorem acquire (h : s.Beside B T s') (hv : v ∈ B) :
    (s.acquire kind v).Beside B T (s'.acquire kind v) := by
  rw [Stock.acquire, Stock.acquire, h.pool]
  exact h.keep hv 1 _ _

theorem acquireBlock (h : s.Beside B T s') (hv : v ∈ B) (size : ℕ) :
    (s.acquireBlock kind v size).Beside B T (s'.acquireBlock kind v size) := by
  rw [Stock.acquireBlock, Stock.acquireBlock, h.pool]
  exact h.keep hv size _ _

theorem release (h : s.Beside B T s') (r : Resource) :
    (s.release r).Beside B T (s'.release r) := by
  rw [Stock.release, Stock.release, h.pool]
  split
  · exact ⟨h.withPool _, rfl⟩
  · exact ⟨h.withPool _, rfl⟩

theorem resolveAs?_alone (h : s.Beside B T s') (hv : v ∉ B) :
    s.tracker.resolveAs? kind (.value v) = none := by
  rw [Tracker.resolveAs?, Tracker.resolveOperand?_value, h.alone v hv]
  rfl

/-- A value stands for the same resource of a kind that the table has none of. -/
theorem resolveAs?_value (h : s.Beside B T s')
    (apart : ∀ v, T.resolveAs? kind (.value v) = none) (v : ValueId) :
    s'.tracker.resolveAs? kind (.value v) = s.tracker.resolveAs? kind (.value v) := by
  by_cases hv : v ∈ B
  · exact Tracker.resolveAs?_value_congr (h.inside v hv)
  · rw [Tracker.resolveAs?_value_congr (h.outside v hv), apart v, h.resolveAs?_alone hv]

end Stock.Beside

/-! ## Operands -/

/-- **A substitution spares a kind and some values** if it puts addresses of
other kinds in place of other values. -/
def Spares (kind : ResourceKind) (B : List ValueId) (resolve : ValueId → Option Operand) : Prop :=
  ∀ v o, resolve v = some o → v ∉ B ∧ ∃ k h, k ≠ kind ∧ o = ResourceKind.operand k h

namespace Spares

variable {kind : ResourceKind} {B : List ValueId} {T : Tracker} {s s' : Stock}
variable {resolve : ValueId → Option Operand}

theorem constant? (spares : Spares kind B resolve) (o : Operand) :
    QubitLowering.constant? (o.substitute resolve) = QubitLowering.constant? o := by
  refine QubitLowering.constant?_substitute_of (fun v a ha => ?_) o
  obtain ⟨-, k, h, -, rfl⟩ := spares v a ha
  cases k <;> rfl

/-- **What an operand stands for does not change.** -/
theorem resolveAs? (spares : Spares kind B resolve) (h : s.Beside B T s')
    (apart : ∀ v, T.resolveAs? kind (.value v) = none) (o : Operand) :
    s'.tracker.resolveAs? kind (o.substitute resolve) = s.tracker.resolveAs? kind o := by
  by_cases hc : o.isConstant
  · rw [Operand.substitute_constant hc]
    refine Tracker.resolveAs?_congr fun v hv => ?_
    subst hv
    simp [Operand.isConstant, Operand.value?] at hc
  cases o with
  | value v =>
    rw [Operand.substitute_value]
    cases ha : resolve v with
    | none => exact h.resolveAs?_value apart v
    | some a =>
      obtain ⟨hv, k, x, hk, rfl⟩ := spares v a ha
      rw [h.resolveAs?_alone hv]
      cases k <;> cases kind <;> first | rfl | exact absurd rfl hk
  | _ => rfl

theorem joinAs? (spares : Spares kind B resolve) (h : s.Beside B T s')
    (apart : ∀ v, T.resolveAs? kind (.value v) = none) (ops : List Operand) :
    s'.tracker.joinAs? kind (ops.map (Operand.substitute resolve)) =
      s.tracker.joinAs? kind ops := by
  refine Option.ext fun r => ?_
  simp only [Tracker.joinAs?_eq_some_iff, ne_eq, List.map_eq_nil_iff, List.forall_mem_map,
    spares.resolveAs? h apart]

end Spares

/-! ## Steps -/

section Steps

variable {B : List ValueId} {T : Tracker} {s s' : Stock} {resolve : ValueId → Option Operand}
variable {i : Instruction}

/-- **A step of lowering qubits draws the same** beside a table. -/
theorem QubitLowering.judge_beside {honored : Bool} (h : s.Beside B T s')
    (apart : ∀ v, T.resolveAs? .qubit (.value v) = none) (spares : Spares .qubit B resolve)
    (binds : ∀ v, binds? i = some v → v ∈ B) :
    (judge honored s i).Beside B T
      (judge honored s' (i.mapOperands (Operand.substitute resolve))) := by
  have resolves := spares.resolveAs? h apart
  unfold binds? at binds
  rw [judge, judge, role_mapOperands spares.constant?]
  cases hr : role i with
  | acquire v => exact (h.acquire (binds v (by rw [hr]; rfl))).map _
  | acquireArray v size =>
    have hv := binds v (by rw [hr]; rfl)
    cases size with
    | some n => exact (h.acquireBlock hv n).map _
    | none => exact (h.derive hv none).map _
  | project v element =>
    have same : elementOf? s'.tracker (element.map fun e => (e.1.substitute resolve, e.2)) =
        elementOf? s.tracker element := by
      cases element with
      | none => rfl
      | some e => rw [Option.map_some, elementOf?, elementOf?, resolves]
    rw [Role.mapOperands, judgeRole, judgeRole, same]
    exact (h.derive (binds v (by rw [hr]; rfl)) _).map _
  | release target =>
    simp only [Role.mapOperands, judgeRole, resolves]
    cases s.tracker.resolveAs? .qubit target with
    | none => exact ⟨h, rfl⟩
    | some r =>
      cases honored with
      | false => exact ⟨h, rfl⟩
      | true => exact (h.release r).map _
  | copy v source =>
    rw [Role.mapOperands, judgeRole, judgeRole, resolves]
    exact (h.derive (binds v (by rw [hr]; rfl)) _).map _
  | phi v sources =>
    rw [Role.mapOperands, judgeRole, judgeRole, spares.joinAs? h apart]
    exact (h.derive (binds v (by rw [hr]; rfl)) _).map _
  | other => exact ⟨h, rfl⟩

/-- A decision with another operand. -/
def ResultLowering.Decision.mapOperands (σ : Operand → Operand) : Decision → Decision
  | measured v qubit h => measured v (σ qubit) h
  | known => known
  | stays => stays

/-- **A step of lowering results draws the same** beside a table. -/
theorem ResultLowering.judge_beside (h : s.Beside B T s')
    (apart : ∀ v, T.resolveAs? .result (.value v) = none) (spares : Spares .result B resolve)
    (binds : ∀ v, binds? i = some v → v ∈ B) :
    ((judge s i).map (Decision.mapOperands (Operand.substitute resolve))).Beside B T
      (judge s' (i.mapOperands (Operand.substitute resolve))) := by
  have found (b : Bool) : (if b then Decision.known else .stays).mapOperands
      (Operand.substitute resolve) = if b then Decision.known else .stays := by cases b <;> rfl
  unfold binds? at binds
  rw [judge, judge, role_mapOperands]
  cases hr : role i with
  | measure v qubit =>
    rw [judgeRole, Draw.map_map]
    exact (h.acquire (binds v (by rw [hr]; rfl))).map _
  | copy v source =>
    simp only [Role.mapOperands, judgeRole, Draw.map_map, spares.resolveAs? h apart,
      Function.comp_def, found]
    exact (h.derive (binds v (by rw [hr]; rfl)) _).map _
  | phi v sources =>
    simp only [Role.mapOperands, judgeRole, Draw.map_map, spares.joinAs? h apart,
      Function.comp_def, found]
    exact (h.derive (binds v (by rw [hr]; rfl)) _).map _
  | other => exact ⟨h, rfl⟩

end Steps

/-! ## Runs -/

namespace Lowering

variable {α : Type} {step : Stock → Instruction → Draw α} {s s' : Stock}
variable {R : Stock → Stock → Prop} {φ : α → α} {l : List (Site × Instruction)}
variable {F : Site × Instruction → Option (Site × Instruction)}

/-- **A plan for what is left of some instructions follows** the plan for all of
them: it fails if that does, and decides the same. -/
structure Plan.Follows (R : Stock → Stock → Prop) (φ : α → α) (l : List (Site × Instruction))
    (F : Site × Instruction → Option (Site × Instruction)) (plan plan' : Plan α) : Prop where
  /-- The stocks stay related. -/
  stock : R plan.stock plan'.stock
  /-- Both fail for the same reason, if at all. -/
  failure : plan'.failure = plan.failure
  /-- What is left has the same decision. -/
  decisions : plan.failure = none → ∀ e ∈ l, ∃ a, (e.1, a) ∈ plan.decisions ∧
    ∀ d, F e = some d → (d.1, φ a) ∈ plan'.decisions

namespace Plan.Follows

variable {plan plan' : Plan α} {e : Site × Instruction}

/-- It does so with one more decision, about an instruction that is not left. -/
theorem cons_dropped (follows : Follows R φ l F plan plan') (hF : F e = none) (a : α) :
    Follows R φ (e :: l) F { plan with decisions := (e.1, a) :: plan.decisions } plan' where
  stock := follows.stock
  failure := follows.failure
  decisions h e' he := by
    rcases List.mem_cons.1 he with rfl | he
    · exact ⟨a, List.mem_cons_self, fun d hd => by rw [hF] at hd; cases hd⟩
    · obtain ⟨b, hb, hd⟩ := follows.decisions h e' he
      exact ⟨b, List.mem_cons_of_mem _ hb, hd⟩

/-- And with one about an instruction that is left. -/
theorem cons_kept (follows : Follows R φ l F plan plan') {d : Site × Instruction}
    (hF : F e = some d) (a : α) :
    Follows R φ (e :: l) F { plan with decisions := (e.1, a) :: plan.decisions }
      { plan' with decisions := (d.1, φ a) :: plan'.decisions } where
  stock := follows.stock
  failure := follows.failure
  decisions h e' he := by
    rcases List.mem_cons.1 he with rfl | he
    · refine ⟨a, List.mem_cons_self, fun d' hd => ?_⟩
      rw [hF] at hd
      cases hd
      exact List.mem_cons_self
    · obtain ⟨b, hb, hd⟩ := follows.decisions h e' he
      exact ⟨b, List.mem_cons_of_mem _ hb, fun d' hF => List.mem_cons_of_mem _ (hd d' hF)⟩

end Plan.Follows

/-- **So it is if every step draws the same** and what is not left draws nothing. -/
theorem follows_decideAll
    (kept : ∀ e ∈ l, ∀ d, F e = some d → ∀ s s', R s s' →
      R (step s e.2).1 (step s' d.2).1 ∧ (step s' d.2).2 = (step s e.2).2.map φ)
    (dropped : ∀ e ∈ l, F e = none → ∀ s, ∃ a, step s e.2 = (s, .ok a)) (hs : R s s') :
    Plan.Follows R φ l F (decideAll step s l) (decideAll step s' (l.filterMap F)) := by
  induction l generalizing s s' with
  | nil => exact ⟨hs, rfl, fun _ _ he => by cases he⟩
  | cons e l ih =>
    have rest : ∀ s s', R s s' →
        Plan.Follows R φ l F (decideAll step s l) (decideAll step s' (l.filterMap F)) :=
      fun _ _ => ih (fun e he => kept e (List.mem_cons_of_mem _ he))
        fun e he => dropped e (List.mem_cons_of_mem _ he)
    obtain ⟨x, i⟩ := e
    cases hF : F (x, i) with
    | none =>
      obtain ⟨a, ha⟩ := dropped (x, i) List.mem_cons_self hF s
      rw [List.filterMap_cons_none hF]
      simp only [decideAll, ha]
      exact (rest s s' hs).cons_dropped hF a
    | some d =>
      obtain ⟨y, j⟩ := d
      obtain ⟨hR, same⟩ := kept (x, i) List.mem_cons_self _ hF s s' hs
      rw [List.filterMap_cons_some hF]
      simp only [decideAll]
      cases hi : step s i with
      | mk s₁ r =>
        cases hj : step s' j with
        | mk s₁' r' =>
          simp only [hi, hj] at hR same
          subst same
          cases r with
          | error e => exact ⟨hR, rfl, fun h => by cases h⟩
          | ok a => exact (rest s₁ s₁' hR).cons_kept hF a

end Lowering

end QuantumLowering
