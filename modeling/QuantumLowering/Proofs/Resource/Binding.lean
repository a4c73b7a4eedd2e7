import Mathlib.Data.List.Infix
import QuantumLowering.Proofs.Resource.Table
/-!
# What a tracker holds on to

Several changes write to the table of a tracker. Those that record a resource
refuse to put it in place of another one, and a change that is refused leaves
the tracker as it was (`Tracker.perform_of_refused`). Propagation is no recording: it writes over whatever its
target stood for. So a value that stays known stands for one resource
throughout, unless something is propagated to it
(`Tracker.kept_unless_propagated`).
-/


namespace QuantumLowering

namespace Tracker

/-! ## Changes -/

/-- A change of a tracker. -/
inductive Change where
  /-- A value acquires a handle. -/
  | recordAllocation (v : ValueId) (h : Handle) (kind : ResourceKind)
  /-- A value acquires a block of handles. -/
  | recordBlock (v : ValueId) (base : Handle) (width : ℕ) (kind : ResourceKind)
  /-- A value is bound to a resource. -/
  | assign (v : ValueId) (r : Resource)
  /-- A value is marked as unknown. -/
  | markUnknown (v : ValueId)
  /-- What is remembered of one value is remembered of another. -/
  | propagate (source target : ValueId)
  /-- A value is bound to what some values stand for together. -/
  | joinInto (target : ValueId) (vs : List ValueId)
  /-- Everything is forgotten. -/
  | clear
deriving DecidableEq

/-- The tracker that a reply leaves, and why the change was refused if it was. -/
def Reply.settle {α : Type} : Reply α → Tracker × Option Redefinition
  | (t, .ok _) => (t, none)
  | (t, .error e) => (t, some e)

/-- A tracker after a change, and why the change was refused if it was. -/
def perform (t : Tracker) : Change → Tracker × Option Redefinition
  | .recordAllocation v h kind => (t.recordSingle v kind h).settle
  | .recordBlock v base width kind => (t.recordBlock v kind base width).settle
  | .assign v r => (t.assign v r).settle
  | .markUnknown v => (t.markUnknown v, none)
  | .propagate source target => (t.propagate source target, none)
  | .joinInto target vs => (t.joinInto target vs).settle
  | .clear => (t.clear, none)

/-- A tracker after some changes. -/
def performAll (t : Tracker) (changes : List Change) : Tracker :=
  changes.foldl (fun t change => (t.perform change).1) t

/-- The value that a change binds and the resource that it records for it. -/
def Change.records? (t : Tracker) : Change → Option (ValueId × Resource)
  | recordAllocation v h kind => some (v, .single kind h)
  | recordBlock v base width kind => some (v, .block kind base width)
  | assign v r => some (v, r)
  | joinInto target vs => (t.merge? vs).map fun r => (target, r)
  | markUnknown _ | propagate _ _ | clear => none

variable {t t' : Tracker} {change : Change} {u v : ValueId} {r r' : Resource} {e : Redefinition}

/-! ## Recording -/

/-- **A value is bound unless it stands for another resource.** Then nothing changes. -/
theorem assign_eq_error :
    t.assign v r = (t', .error e) ↔ t' = t ∧ v = e.value ∧ r = e.rejected ∧
      t.resolve? v = some e.existing ∧ e.existing ≠ r := by
  obtain ⟨value, existing, rejected⟩ := e
  unfold assign
  cases h : t.resolve? v with
  | none => simp
  | some old =>
    by_cases hr : old = r
    · simp only [if_pos hr, Prod.mk.injEq, reduceCtorEq, and_false, Option.some.injEq, false_iff]
      rintro ⟨-, -, -, rfl, other⟩
      exact other hr
    · simp only [if_neg hr, Prod.mk.injEq, Except.error.injEq, Redefinition.mk.injEq,
        Option.some.injEq]
      constructor
      · rintro ⟨rfl, rfl, rfl, rfl⟩
        exact ⟨rfl, rfl, rfl, rfl, hr⟩
      · rintro ⟨rfl, rfl, rfl, rfl, -⟩
        exact ⟨rfl, rfl, rfl, rfl⟩

theorem record_eq_error {count : ℕ} :
    t.record v r count = (t', .error e) ↔ t.assign v r = (t', .error e) := by
  unfold record
  rcases t.assign v r with ⟨u, e | _⟩ <;> simp

theorem joinInto_eq_error {vs : List ValueId} :
    t.joinInto v vs = (t', .error e) ↔
      ∃ r, t.merge? vs = some r ∧ t.assign v r = (t', .error e) := by
  unfold joinInto
  cases t.merge? vs with
  | none => simp [bind]
  | some r =>
    simp only [bind, Option.some.injEq, exists_eq_left']
    rcases t.assign v r with ⟨u, e | _⟩ <;> simp

theorem Reply.settle_eq_some {α : Type} {reply : Reply α} :
    reply.settle = (t', some e) ↔ reply = (t', .error e) := by
  obtain ⟨u, e | a⟩ := reply <;> simp [settle]

theorem Reply.exists_of_accepted {α : Type} {reply : Reply α} (h : reply.settle.2 = none) :
    ∃ a, reply = (reply.settle.1, .ok a) := by
  obtain ⟨u, e | a⟩ := reply
  · cases h
  · exact ⟨a, rfl⟩

/-- **What is refused**: to record a resource for a value that stands for another one. Then
nothing changes. -/
theorem perform_eq_refused :
    t.perform change = (t', some e) ↔ t' = t ∧ change.records? t = some (e.value, e.rejected) ∧
      t.resolve? e.value = some e.existing ∧ e.existing ≠ e.rejected := by
  have assigned : ∀ v r, t.assign v r = (t', .error e) ↔ t' = t ∧
      some (v, r) = some (e.value, e.rejected) ∧ t.resolve? e.value = some e.existing ∧
        e.existing ≠ e.rejected := by
    intro v r
    rw [assign_eq_error, Option.some.injEq, Prod.mk.injEq]
    constructor
    · rintro ⟨same, rfl, rfl, known, other⟩
      exact ⟨same, ⟨rfl, rfl⟩, known, other⟩
    · rintro ⟨same, ⟨rfl, rfl⟩, known, other⟩
      exact ⟨same, rfl, rfl, known, other⟩
  cases change with
  | recordAllocation v h kind =>
    exact Reply.settle_eq_some.trans (record_eq_error.trans (assigned _ _))
  | recordBlock v base width kind =>
    exact Reply.settle_eq_some.trans (record_eq_error.trans (assigned _ _))
  | assign v r => exact Reply.settle_eq_some.trans (assigned v r)
  | joinInto target vs =>
    refine Reply.settle_eq_some.trans (joinInto_eq_error.trans ?_)
    simp only [assigned, Change.records?]
    cases t.merge? vs <;> simp
  | _ => simp [perform, Change.records?]

theorem refuses_iff :
    (t.perform change).2 = some e ↔ change.records? t = some (e.value, e.rejected) ∧
      t.resolve? e.value = some e.existing ∧ e.existing ≠ e.rejected := by
  constructor
  · exact fun h => (perform_eq_refused.1 (Prod.ext rfl h)).2
  · intro h
    rw [perform_eq_refused.2 ⟨rfl, h⟩]

/-- **What is refused changes nothing.** -/
theorem perform_of_refused (h : (t.perform change).2 = some e) : (t.perform change).1 = t :=
  (perform_eq_refused.1 (Prod.ext rfl h)).1

/-! ## What a change sets -/

/-- Propagating copies what is known. -/
theorem sets_propagate (t : Tracker) (source target : ValueId) :
    t.Sets (t.propagate source target) target (t.resolve? source) := by
  have sets := sets_associate (t := t) (v := target) ((t.values.find? source).getD .unknown)
  unfold propagate resolve?
  cases h : t.values.find? source with
  | none =>
    rw [h] at sets
    exact sets
  | some a =>
    rw [h] at sets
    exact sets

/-- Joining sets the target to what the values stand for together. -/
theorem sets_of_joinInto {vs : List ValueId} {o : Option Resource}
    (h : t.joinInto v vs = (t', .ok o)) : t.Sets t' v (t.merge? vs) := by
  unfold joinInto at h
  split at h
  · rename_i hb
    cases h
    exact sets_of_bind hb
  · cases h

/-- What is known after a value was made unknown was known before. -/
theorem Sets.known_of_none (h : t.Sets t' v none) (hu : t'.resolve? u = some r) :
    t.resolve? u = some r := by
  rw [h u] at hu
  split at hu
  · cases hu
  · exact hu

/-- **What a change does that is not refused**: it sets the value that it records for, it
sets its target to what the source stands for, or nothing new is known after it. -/
theorem sets_of_accepted (h : (t.perform change).2 = none) :
    (∃ v r, change.records? t = some (v, r) ∧ t.Sets (t.perform change).1 v (some r)) ∨
      (∃ source target, change = .propagate source target ∧
        t.Sets (t.perform change).1 target (t.resolve? source)) ∨
      ∀ v r, (t.perform change).1.resolve? v = some r → t.resolve? v = some r := by
  cases change with
  | recordAllocation v handle kind =>
    obtain ⟨_, done⟩ := Reply.exists_of_accepted h
    exact .inl ⟨v, _, rfl, sets_of_record done⟩
  | recordBlock v base width kind =>
    obtain ⟨_, done⟩ := Reply.exists_of_accepted h
    exact .inl ⟨v, _, rfl, sets_of_record done⟩
  | assign v r =>
    obtain ⟨_, done⟩ := Reply.exists_of_accepted h
    exact .inl ⟨v, r, rfl, sets_of_assign done⟩
  | markUnknown v => exact .inr (.inr fun _ _ => (sets_associate .unknown).known_of_none)
  | propagate source target => exact .inr (.inl ⟨_, _, rfl, sets_propagate t source target⟩)
  | joinInto target vs =>
    obtain ⟨_, done⟩ := Reply.exists_of_accepted h
    have sets := sets_of_joinInto done
    cases hm : t.merge? vs with
    | none => exact .inr (.inr fun _ _ => (hm ▸ sets).known_of_none)
    | some r => exact .inl ⟨target, r, by simp [Change.records?, hm], hm ▸ sets⟩
  | clear =>
    refine .inr (.inr fun v r hv => ?_)
    cases hv

/-- **A known value is bound to another resource by propagation alone.** -/
theorem rebound_iff (known : t.resolve? v = some r) :
    (t.perform change).1.resolve? v = some r' ∧ r' ≠ r ↔
      ∃ source, change = .propagate source v ∧ t.resolve? source = some r' ∧ r' ≠ r := by
  constructor
  · rintro ⟨after, other⟩
    cases h : (t.perform change).2 with
    | some e =>
      rw [perform_of_refused h, known] at after
      exact absurd (Option.some.inj after).symm other
    | none =>
      rcases sets_of_accepted h with ⟨u, s, records, sets⟩ | ⟨source, target, rfl, sets⟩ | keeps
      · -- what is recorded for the value is not refused, so it is what the value stands for
        by_cases hu : v = u
        · subst hu
          obtain rfl := Option.some.inj (sets.self.symm.trans after)
          have refused : (t.perform change).2 = some ⟨v, r, s⟩ :=
            refuses_iff.2 ⟨records, known, other.symm⟩
          cases h.symm.trans refused
        · rw [sets.other hu, known] at after
          exact absurd (Option.some.inj after).symm other
      · by_cases hv : v = target
        · subst hv
          exact ⟨source, rfl, sets.self.symm.trans after, other⟩
        · rw [sets.other hv, known] at after
          exact absurd (Option.some.inj after).symm other
      · exact absurd (Option.some.inj (known.symm.trans (keeps v r' after))).symm other
  · rintro ⟨source, rfl, hsource, other⟩
    exact ⟨((sets_propagate t source v).self).trans hsource, other⟩

/-- **A tracker holds on to what it knows**, unless something is propagated over it.
Whatever changes a tracker has seen, one more binds a known value to another resource just
when it propagates one to it. A change is refused just when it records a resource for a
value that stands for another one, with the value and both resources, and then it changes
nothing. So a value to which nothing is propagated stands for the same resource as long as
it is known. -/
theorem kept_unless_propagated (t : Tracker) :
    (∀ change v r r', t.resolve? v = some r →
      ((t.perform change).1.resolve? v = some r' ∧ r' ≠ r ↔
        ∃ source, change = .propagate source v ∧ t.resolve? source = some r' ∧ r' ≠ r)) ∧
    (∀ change e, (t.perform change).2 = some e ↔
      change.records? t = some (e.value, e.rejected) ∧ t.resolve? e.value = some e.existing ∧
        e.existing ≠ e.rejected) ∧
    (∀ change e, (t.perform change).2 = some e → (t.perform change).1 = t) ∧
    ∀ changes v r, t.resolve? v = some r → (∀ source, .propagate source v ∉ changes) →
      (∀ before, before <+: changes → ((t.performAll before).resolve? v).isSome) →
      (t.performAll changes).resolve? v = some r := by
  refine ⟨fun _ _ _ _ => rebound_iff, fun _ _ => refuses_iff, fun _ _ => perform_of_refused,
    fun changes v r known => ?_⟩
  induction changes using List.reverseRecOn with
  | nil => exact fun _ _ => known
  | append_singleton changes change ih =>
    intro unpropagated isSome
    have before := ih (fun source h => unpropagated source (List.mem_append_left _ h))
      fun before h => isSome before (h.trans (List.prefix_append _ _))
    have step : t.performAll (changes ++ [change]) =
        ((t.performAll changes).perform change).1 := by
      unfold performAll
      rw [List.foldl_append]
      rfl
    obtain ⟨r', after⟩ := Option.isSome_iff_exists.1 (isSome _ List.prefix_rfl)
    rw [after]
    rw [step] at after
    by_contra other
    obtain ⟨source, rfl, -⟩ := (rebound_iff before).1 ⟨after, fun h => other (h ▸ rfl)⟩
    exact unpropagated source (by simp)

/-- Two values that acquired a qubit each. -/
def twoAcquired : Tracker :=
  empty.performAll [.recordAllocation ⟨0⟩ 1 .qubit, .recordAllocation ⟨1⟩ 2 .qubit]

/-- The second one keeps its qubit: it is not bound to the first one's, and what is
propagated from it and then lost does not matter to it. -/
theorem kept_unless_propagated_twoAcquired :
    let changes : List Change := [.propagate ⟨1⟩ ⟨2⟩, .assign ⟨1⟩ (.single .qubit 1),
      .joinInto ⟨1⟩ [⟨2⟩], .markUnknown ⟨2⟩]
    twoAcquired.resolve? ⟨1⟩ = some (.single .qubit 2) ∧
      (twoAcquired.perform (.assign ⟨1⟩ (.single .qubit 1))).2 =
        some ⟨⟨1⟩, .single .qubit 2, .single .qubit 1⟩ ∧
      (twoAcquired.perform (.assign ⟨1⟩ (.single .qubit 1))).1 = twoAcquired ∧
      (∀ source, .propagate source ⟨1⟩ ∉ changes) ∧
      (∀ before, before <+: changes → ((twoAcquired.performAll before).resolve? ⟨1⟩).isSome) ∧
      (twoAcquired.performAll changes).resolve? ⟨1⟩ = some (.single .qubit 2) := by
  intro changes
  obtain ⟨-, refused, unchanged, kept⟩ := kept_unless_propagated twoAcquired
  have known : twoAcquired.resolve? ⟨1⟩ = some (.single .qubit 2) := by decide
  have rejected := (refused (.assign ⟨1⟩ (.single .qubit 1))
    ⟨⟨1⟩, .single .qubit 2, .single .qubit 1⟩).2 ⟨rfl, known, by decide⟩
  have unpropagated : ∀ source, .propagate source ⟨1⟩ ∉ changes := by simp [changes]
  have throughout : ∀ before, before <+: changes →
      ((twoAcquired.performAll before).resolve? ⟨1⟩).isSome := by
    have each : ∀ before ∈ changes.inits,
        ((twoAcquired.performAll before).resolve? ⟨1⟩).isSome := by decide
    exact fun before h => each before (List.mem_inits before changes |>.2 h)
  exact ⟨known, rejected, unchanged _ _ rejected, unpropagated, throughout,
    kept changes _ _ known unpropagated throughout⟩

/-- **Propagation binds a known value to another resource** and is not refused, where joining
the same single source into the value is. -/
theorem propagated_over :
    twoAcquired.resolve? ⟨1⟩ = some (.single .qubit 2) ∧
      (twoAcquired.perform (.propagate ⟨0⟩ ⟨1⟩)).2 = none ∧
      (twoAcquired.perform (.propagate ⟨0⟩ ⟨1⟩)).1.resolve? ⟨1⟩ = some (.single .qubit 1) ∧
      (twoAcquired.perform (.joinInto ⟨1⟩ [⟨0⟩])).2 =
        some ⟨⟨1⟩, .single .qubit 2, .single .qubit 1⟩ :=
  ⟨by decide, by decide, by decide, by decide⟩

end Tracker

end QuantumLowering
