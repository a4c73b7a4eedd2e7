import QuantumLowering.Proofs.Commute.Steps
import QuantumLowering.Proofs.Lowering.Renumbering
import QuantumLowering.Proofs.Pass.Soundness
/-!
# Two kinds apart

What means something for qubits means nothing for results, and lowering of
either kind makes values stand for its own resources alone
(`Tracker.Holds`), so the addresses that it puts in spare the values of the
other kind (`spares_address?`). The last steps of two lowerings are one
(`Lowering.rewrite_fate_fate`).
-/


namespace QuantumLowering

open Lowering

/-! ## What means something for one kind -/

section Roles

variable {i : Instruction}

/-- What means something for qubits means nothing for results. -/
theorem ResultLowering.role_of_role (h : QubitLowering.role i ≠ .other) : role i = .other := by
  by_contra hne
  have bound : ∃ v, binds? i = some v := by
    unfold binds?
    cases hr : role i with
    | measure v _ | copy v _ | phi v _ => exact ⟨v, rfl⟩
    | other => exact absurd hr hne
  obtain ⟨v, hv⟩ := bound
  exact h (role_of_binds hv)

/-- And the other way round. -/
theorem QubitLowering.role_of_role (h : ResultLowering.role i ≠ .other) : role i = .other :=
  by_contra fun hne => h (ResultLowering.role_of_role hne)

/-- An instruction that means something for qubits and computes a value binds it. -/
theorem QubitLowering.binds_of_role (h : role i ≠ .other) {v : ValueId}
    (hv : i.result = some v) : binds? i = some v := by
  obtain ⟨result, ty, operation⟩ := i
  obtain rfl : result = some v := hv
  cases operation with
  | call callee args =>
    simp only [binds?, role, valueCallRole] at h ⊢
    split
    · rfl
    split
    · rfl
    split
    · rfl
    · simp_all
  | _ =>
    simp only [binds?, role] at h ⊢
    split
    · rfl
    · simp_all

end Roles

/-! ## What becomes of a function -/

/-- **What the last step of lowering makes of an instruction.** -/
def Lowering.fate (gone : List Site) (change : Site × Instruction → Instruction)
    (resolve : ValueId → Option Operand) (e : Site × Instruction) : Option Instruction :=
  if e.1 ∈ gone then none else some ((change e).mapOperands (Operand.substitute resolve))

section Fate

variable {gone gone₁ gone₂ : List Site} {change change₁ change₂ : Site × Instruction → Instruction}
variable {resolve resolve₁ resolve₂ : ValueId → Option Operand} {e : Site × Instruction}
variable {f : Function}

theorem Lowering.fate_eq_some {j : Instruction} :
    fate gone change resolve e = some j ↔
      e.1 ∉ gone ∧ j = (change e).mapOperands (Operand.substitute resolve) := by
  unfold fate
  split
  · simp_all
  · simp_all [eq_comm]

theorem Lowering.fate_eq_none : fate gone change resolve e = none ↔ e.1 ∈ gone := by
  simp [fate]

/-- An instruction that does not go has a site afterwards. -/
theorem Lowering.moved_fate (h : e.1 ∉ gone) :
    f.moved (fate gone change resolve) e = some (f.renumber (fate gone change resolve) e.1,
      (change e).mapOperands (Operand.substitute resolve)) := by
  simp [Function.moved, fate, h]

theorem Lowering.moved_fate_of_gone (h : e.1 ∈ gone) :
    f.moved (fate gone change resolve) e = none := by
  simp [Function.moved, fate, h]

/-- **Two last steps are one** for all that goes in either of them. -/
theorem Lowering.rewrite_fate_fate
    (goes : ∀ e ∈ f.located, e.1 ∈ gone₁ → e.1 ∈ gone)
    (goesLater : ∀ e ∈ f.located, e.1 ∉ gone₁ →
      (f.renumber (fate gone₁ change₁ resolve₁) e.1 ∈ gone₂ ↔ e.1 ∈ gone))
    (becomes : ∀ e ∈ f.located, e.1 ∉ gone₁ → e.1 ∉ gone →
      (change₂ (f.renumber (fate gone₁ change₁ resolve₁) e.1,
        (change₁ e).mapOperands (Operand.substitute resolve₁))).mapOperands
          (Operand.substitute resolve₂) = (change e).mapOperands (Operand.substitute resolve))
    (exits : ∀ o ∈ f.exitOperands,
      (o.substitute resolve₁).substitute resolve₂ = o.substitute resolve) :
    (f.rewrite (fate gone₁ change₁ resolve₁) (Operand.substitute resolve₁)).rewrite
        (fate gone₂ change₂ resolve₂) (Operand.substitute resolve₂) =
      f.rewrite (fate gone change resolve) (Operand.substitute resolve) := by
  rw [Function.rewrite_rewrite_renumber]
  refine Function.rewrite_congr (fun e he => ?_) exits
  by_cases h₁ : e.1 ∈ gone₁
  · rw [moved_fate_of_gone h₁, fate, if_pos (goes e he h₁)]
    rfl
  · rw [moved_fate h₁, Option.bind_some, fate, fate]
    by_cases h : e.1 ∈ gone
    · rw [if_pos ((goesLater e he h₁).2 h), if_pos h]
    · rw [if_neg fun h₂ => h ((goesLater e he h₁).1 h₂), if_neg h, becomes e he h₁ h]

end Fate

/-- Constants put in place of values stay. -/
theorem Operand.substitute_substitute {resolve resolve' : ValueId → Option Operand}
    (h : ∀ v o, resolve v = some o → o.isConstant) (o : Operand) :
    (o.substitute resolve).substitute resolve' =
      o.substitute fun v => (resolve v).or (resolve' v) := by
  cases o with
  | value v =>
    rw [substitute_value, substitute_value]
    cases hv : resolve v with
    | none => rfl
    | some c => exact substitute_constant (h v c hv)
  | _ => rfl

/-- A value that is read afterwards was read before and has nothing in its
place. -/
theorem Operand.substitute_eq_value_iff {resolve : ValueId → Option Operand}
    (h : ∀ v o, resolve v = some o → o.isConstant) {o : Operand} {v : ValueId} :
    o.substitute resolve = .value v ↔ o = .value v ∧ resolve v = none := by
  refine ⟨substitute_eq_value h, ?_⟩
  rintro ⟨rfl, hv⟩
  rw [substitute_value, hv]
  rfl

section Reads

variable {gone : List Site} {change : Site × Instruction → Instruction}
variable {resolve : ValueId → Option Operand} {f : Function} {v : ValueId}

/-- **What is read after a last step** was read by something that did not go, and
has nothing in its place. -/
theorem Lowering.reads_fate (h : ∀ v o, resolve v = some o → o.isConstant) :
    (f.rewrite (fate gone change resolve) (Operand.substitute resolve)).Reads v ↔
      resolve v = none ∧ ((∃ e ∈ f.located, e.1 ∉ gone ∧ .value v ∈ (change e).operands) ∨
        .value v ∈ f.exitOperands) := by
  have left : ∀ ops : List Operand, (∃ o ∈ ops, o.substitute resolve = .value v) ↔
      .value v ∈ ops ∧ resolve v = none := by
    intro ops
    simp only [Operand.substitute_eq_value_iff h]
    exact ⟨fun ⟨o, ho, hv, hr⟩ => ⟨hv ▸ ho, hr⟩, fun ⟨ho, hr⟩ => ⟨_, ho, rfl, hr⟩⟩
  rw [Function.reads_rewrite, left, and_or_left, and_comm (a := .value v ∈ f.exitOperands)]
  refine or_congr ⟨?_, ?_⟩ Iff.rfl
  · rintro ⟨e, he, j, hj, hv⟩
    obtain ⟨hstays, rfl⟩ := fate_eq_some.1 hj
    rw [Instruction.operands_mapOperands, List.mem_map] at hv
    obtain ⟨hv, hr⟩ := (left _).1 hv
    exact ⟨hr, e, he, hstays, hv⟩
  · rintro ⟨hr, e, he, hstays, hv⟩
    refine ⟨e, he, _, fate_eq_some.2 ⟨hstays, rfl⟩, ?_⟩
    rw [Instruction.operands_mapOperands, List.mem_map]
    exact (left _).2 ⟨hv, hr⟩

/-- Substituting and erasing is a last step. -/
theorem Lowering.erase_substitute :
    (f.substitute resolve).erase gone =
      f.rewrite (fate gone Prod.snd resolve) (Operand.substitute resolve) := by
  rw [Function.erase_eq, Function.substitute_eq, Function.rewrite_rewrite]
  rfl

/-- What a site computes after a substitution. -/
theorem Function.resultAt?_substitute {e : Site × Instruction} (he : e ∈ f.located) :
    (f.substitute resolve).resultAt? e.1 = e.2.result := by
  rw [substitute_eq, resultAt?_rewrite he]
  rfl

end Reads

/-! ## One kind alone -/

/-- **A table holds resources of a sort**, and only for some values. -/
def Tracker.Holds (P : Resource → Prop) (B : List ValueId) (t : Tracker) : Prop :=
  ∀ v r, t.resolve? v = some r → v ∈ B ∧ P r

namespace Tracker.Holds

variable {P : Resource → Prop} {B : List ValueId} {t t' : Tracker}

theorem unknown (h : t.Holds P B) {v : ValueId} (hv : v ∉ B) : t.resolve? v = none :=
  Option.eq_none_iff_forall_ne_some.2 fun r hr => hv (h v r hr).1

theorem all (h : t.Holds P B) : t.All P := fun v r hr => (h v r hr).2

theorem sets (h : t.Holds P B) {v : ValueId} (hv : v ∈ B) {o : Option Resource}
    (ht : t.Sets t' v o) (ho : ∀ r, o = some r → P r) : t'.Holds P B := by
  intro u r hr
  by_cases hu : u = v
  · subst hu
    exact ⟨hv, ho r (ht.self.symm.trans hr)⟩
  · exact h u r ((ht.other hu).symm.trans hr)

end Tracker.Holds

theorem Resource.eq_of_operand? {r : Resource} {o : Operand} (h : r.operand? = some o) :
    o = r.kind.operand r.handle := by
  unfold operand? at h
  split at h
  · cases h
  · exact (Option.some.inj h).symm

/-- A resource is one result. -/
def Resource.IsResult (r : Resource) : Prop := r.kind = .result ∧ r.width = 1

namespace QubitLowering

variable {honored : Bool} {s s' : Stock} {f g : Function} {ds : List (Site × Decision)}
variable {gone : List Site} {e : Site × Instruction} {B : List ValueId}

/-- Lowering qubits makes values stand for qubits. -/
theorem holds_judge {i : Instruction} {d : Decision} (h : judge honored s i = (s', .ok d))
    (hs : s.tracker.Holds (fun r => r.kind = .qubit) B)
    (binds : ∀ v, binds? i = some v → v ∈ B) :
    s'.tracker.Holds (fun r => r.kind = .qubit) B := by
  have resolved {op : Operand} {r : Resource} (hr : s.tracker.resolveAs? .qubit op = some r) :
      r.kind = .qubit := (Tracker.resolveAs?_eq_some_iff.1 hr).2
  cases judges_of_judge h with
  | acquire _ ht =>
    exact hs.sets (binds _ rfl) ht fun r hr => by cases hr; rfl
  | acquireArray _ _ ht =>
    exact hs.sets (binds _ rfl) ht fun r hr => by cases hr; rfl
  | unsized _ _ ht => exact hs.sets (binds _ rfl) ht fun r hr => by cases hr
  | @project v ty args _ _ ht =>
    refine hs.sets (binds _ rfl) ht fun r hr => ?_
    cases hel : element? args with
    | none => rw [hel] at hr; cases hr
    | some a =>
      rw [hel] at hr
      obtain ⟨block, hb, hr⟩ := Option.bind_eq_some_iff.1 hr
      obtain ⟨hb, -⟩ := Option.filter_eq_some_iff.1 hb
      obtain ⟨-, rfl⟩ := Resource.element?_eq_some_iff.1 hr
      exact (resolved hb : block.kind = .qubit)
  | release _ _ ht => exact ht ▸ hs
  | copy hty _ ht =>
    refine hs.sets (binds _ ?_) ht fun r hr => resolved hr
    simp [binds?, role, hty, Role.value?]
  | phi hty _ ht =>
    refine hs.sets (binds _ ?_) ht fun r hr => ?_
    · simp [binds?, role, hty, Role.value?]
    · exact hs.all.joinAs? (fun _ => rfl) hr
  | unresolved | other => exact hs

theorem holds_decides (decides : Decides (judge honored) s f.visited ds s')
    (hs : s.tracker.Holds (fun r => r.kind = .qubit) B)
    (binds : ∀ i ∈ f.instructions, ∀ v, binds? i = some v → v ∈ B) :
    s'.tracker.Holds (fun r => r.kind = .qubit) B :=
  decides.invariant (P := fun s => s.tracker.Holds _ B) hs fun e he _ _ _ hs hstep =>
    holds_judge hstep hs
      (binds e.2 (Function.mem_instructions.2 ⟨e.1, Function.mem_visited.1 he⟩))

/-- The addresses put in spare all other values. -/
theorem spares_address? {B' : List ValueId} {t : Tracker}
    (h : t.Holds (fun r => r.kind = .qubit) B) (apart : ∀ v ∈ B, v ∉ B') :
    Spares .result B' (address? t) := by
  intro v o ho
  obtain ⟨r, hr, ho⟩ := Option.bind_eq_some_iff.1 ho
  obtain ⟨hv, hk⟩ := h v r hr
  exact ⟨apart v hv, .qubit, r.handle, by decide, hk ▸ Resource.eq_of_operand? ho⟩

/-- What lowering leaves of an instruction. -/
abbrev left (gone : List Site) (t : Tracker) : Site × Instruction → Option Instruction :=
  fate gone Prod.snd (address? t)

/-- What goes means something for qubits. -/
theorem role_of_gone (decides : Decides (judge honored) s f.visited ds s')
    (finished : Finished (address? s'.tracker) Prod.snd
      ((ds.filter fun d => d.2.isDroppable).map Prod.fst) f g gone)
    (nodup : f.definedValues.Nodup) (he : e ∈ f.located) (hgone : e.1 ∈ gone) :
    role e.2 ≠ .other := by
  intro hr
  obtain ⟨s₁, s₂, d, visit⟩ := decides.exists_visit frames_judge nodup he
  have stays : d = .stays := by
    have step := visit.step
    rw [judge, hr] at step
    cases step
    rfl
  subst stays
  exact finished.not_mem_gone (P := Decision.isDroppable) visit rfl hgone

theorem decides_plan {sole : Bool} (h : (plan sole s f).failure = none) :
    Decides (judge (honors sole s.pool f)) s f.visited (plan sole s f).decisions
      (plan sole s f).stock :=
  decides_decideAll h

/-- The instructions that may go. -/
def candidates (ds : List (Site × Decision)) : List Site :=
  (ds.filter fun d => d.2.isDroppable).map Prod.fst

/-- What goes is what can be removed of those. -/
theorem finished_lower {sole : Bool} (h : (lower sole s f).failure = none) :
    Finished (address? (lower sole s f).stock.tracker) Prod.snd
      (candidates (plan sole s f).decisions) f (lower sole s f).function
      ((f.substitute (address? (lower sole s f).stock.tracker)).removable
        (candidates (plan sole s f).decisions)) := by
  rw [lower_failure] at h
  rw [lower_function h, ← lower_stock]
  exact finished_removable (fun v o => address?_isConstant) _ Function.rewrite_id.symm

/-- What may go means something for qubits. -/
theorem exists_of_mem_candidates (decides : Decides (judge honored) s f.visited ds s') {x : Site}
    (hx : x ∈ candidates ds) : ∃ e ∈ f.located, e.1 = x ∧ role e.2 ≠ .other := by
  obtain ⟨⟨x, d⟩, hd, rfl⟩ := List.mem_map.1 hx
  obtain ⟨hmem, hdrop⟩ := List.mem_filter.1 hd
  obtain ⟨i, s₁, s₂, hi, -, hstep⟩ := decides.exists_step_of_mem
    (P := fun _ => True) trivial (fun _ _ _ _ _ _ _ => trivial) hmem
  refine ⟨(x, i), Function.mem_visited.1 hi, rfl, fun hr => ?_⟩
  rw [judge, hr] at hstep
  cases hstep
  cases hdrop

/-- A site is a candidate if its decision lets it go. -/
theorem mem_candidates (decides : Decides (judge honored) s f.visited ds s') {x : Site}
    {d : Decision} (hd : (x, d) ∈ ds) : x ∈ candidates ds ↔ d.isDroppable = true :=
  mem_picked (P := Decision.isDroppable) fun _ =>
    ⟨fun hb => decides.decision_unique Function.nodup_visited hb hd, fun hb => hb ▸ hd⟩

end QubitLowering

namespace ResultLowering

variable {s s' : Stock} {f g : Function} {ds : List (Site × Decision)} {gone : List Site}
variable {e : Site × Instruction}

/-- What lowering leaves of an instruction. -/
abbrev left (ds : List (Site × Decision)) (gone : List Site) (t : Tracker) :
    Site × Instruction → Option Instruction :=
  fate gone (replaced ds) (address? t)

/-- **What becomes of an instruction**, by its decision. -/
inductive Becomes (ds : List (Site × Decision)) (gone : List Site) (e : Site × Instruction) :
    Decision → Prop
  /-- What stands for a known result goes. -/
  | known {v : ValueId} : binds? e.2 = some v → e.1 ∈ gone → replaced ds e = e.2 →
    Becomes ds gone e .known
  /-- A measurement writes into a result. -/
  | measured {v : ValueId} {qubit : Operand} {h : Handle} :
    e.2 = ⟨some v, .result, .call Intrinsics.measure [qubit]⟩ → e.1 ∉ gone →
    replaced ds e = .call Intrinsics.measureInto [qubit, .result h] →
    Becomes ds gone e (.measured v qubit h)
  /-- All others stay. -/
  | stays : e.1 ∉ gone → replaced ds e = e.2 → Becomes ds gone e .stays

/-- What stands in place of an instruction reads the same values. -/
theorem Becomes.reads_iff {d : Decision} (h : Becomes ds gone e d) {v : ValueId} :
    .value v ∈ (replaced ds e).operands ↔ .value v ∈ e.2.operands := by
  cases h with
  | known _ _ hr | stays _ hr => rw [hr]
  | measured hi _ hr =>
    rw [hr, hi]
    simp [Instruction.call, Instruction.operands, Operation.operands]

/-- **Something becomes of every instruction**, where what is known has an
address. -/
theorem exists_becomes (decides : Decides judge s f.visited ds s')
    (finished : Finished (address? s'.tracker) (replaced ds)
      ((ds.filter fun d => d.2 = .known).map Prod.fst) f g gone)
    (nodup : f.definedValues.Nodup) (he : e ∈ f.located)
    (addressed : ∀ v, binds? e.2 = some v → s'.tracker.resolve? v ≠ none →
      (address? s'.tracker v).isSome) :
    ∃ d, (∀ b, (e.1, b) ∈ ds ↔ b = d) ∧ Becomes ds gone e d := by
  obtain ⟨s₁, s₂, d, visit⟩ := decides.exists_visit frames_judge nodup he
  have decision := visit.decision
  refine ⟨d, decision, ?_⟩
  have hr := replaced_eq decision
  have stays (hd : d = .stays) : Becomes ds gone e d := by
    subst hd
    exact .stays (finished.not_mem_gone (P := fun d => d = .known) visit rfl) hr
  have derives {v : ValueId} {o : Option Resource} (hv : e.2.result = some v)
      (hb : binds? e.2 = some v) (hd : d = derived o) (ht : s₁.tracker.Sets s₂.tracker v o) :
      Becomes ds gone e d := by
    cases o with
    | none => exact stays hd
    | some r =>
      subst hd
      refine .known hb (finished.mem_gone (P := fun d => d = .known) visit he rfl ?_) hr
      intro u hu
      have same : replaced ds e = e.2 := hr
      rw [same, hv] at hu
      obtain rfl := Option.some.inj hu
      refine addressed v hb ?_
      rw [visit.result v hv, ht.self]
      exact Option.some_ne_none r
  have judged := judges_of_judge visit.step
  obtain ⟨x, i⟩ := e
  cases judged with
  | measure =>
    exact .measured rfl (finished.not_mem_gone (P := fun d => d = .known) visit rfl) hr
  | copy _ ht => exact derives rfl rfl rfl ht
  | phi _ ht => exact derives rfl rfl rfl ht
  | other => exact stays rfl

variable {B : List ValueId}

/-- Lowering results makes values stand for one result each. -/
theorem holds_judge {i : Instruction} {d : Decision} (h : judge s i = (s', .ok d))
    (hs : s.tracker.Holds Resource.IsResult B) (binds : ∀ v, binds? i = some v → v ∈ B) :
    s'.tracker.Holds Resource.IsResult B := by
  cases judges_of_judge h with
  | measure _ ht => exact hs.sets (binds _ rfl) ht fun r hr => by cases hr; exact ⟨rfl, rfl⟩
  | copy _ ht =>
    exact hs.sets (binds _ rfl) ht fun r hr => hs.all.resolveAs? (fun _ => ⟨rfl, rfl⟩) hr
  | phi _ ht =>
    exact hs.sets (binds _ rfl) ht fun r hr => hs.all.joinAs? (fun _ => ⟨rfl, rfl⟩) hr
  | other => exact hs

theorem holds_step (binds : ∀ i ∈ f.instructions, ∀ v, binds? i = some v → v ∈ B) :
    ∀ e ∈ f.visited, ∀ s s' d, s.tracker.Holds Resource.IsResult B →
      judge s e.2 = (s', .ok d) → s'.tracker.Holds Resource.IsResult B :=
  fun e he _ _ _ hs hstep => holds_judge hstep hs
    (binds e.2 (Function.mem_instructions.2 ⟨e.1, Function.mem_visited.1 he⟩))

theorem holds_decides (decides : Decides judge s f.visited ds s')
    (hs : s.tracker.Holds Resource.IsResult B)
    (binds : ∀ i ∈ f.instructions, ∀ v, binds? i = some v → v ∈ B) :
    s'.tracker.Holds Resource.IsResult B :=
  decides.invariant (P := fun s => s.tracker.Holds _ B) hs (holds_step binds)

/-- What a value stands for has an address. -/
theorem address?_eq_of_holds {t : Tracker} (h : t.Holds Resource.IsResult B) (v : ValueId) :
    address? t v = QubitLowering.address? t v := by
  unfold address? QubitLowering.address?
  cases hr : t.resolve? v with
  | none => rfl
  | some r => simp [Option.filter, (h v r hr).2.1]

theorem isSome_address? {t : Tracker} (h : t.Holds Resource.IsResult B) {v : ValueId}
    (hv : t.resolve? v ≠ none) : (address? t v).isSome := by
  obtain ⟨r, hr⟩ := Option.ne_none_iff_exists'.1 hv
  rw [address?_eq_of_holds h, QubitLowering.address?, hr]
  simp [Resource.operand?, Resource.isBlock, (h v r hr).2.2]

/-- The addresses put in spare all other values. -/
theorem spares_address? {B' : List ValueId} {t : Tracker} (h : t.Holds Resource.IsResult B)
    (apart : ∀ v ∈ B, v ∉ B') : Spares .qubit B' (address? t) := by
  intro v o ho
  rw [address?_eq_of_holds h] at ho
  obtain ⟨r, hr, ho⟩ := Option.bind_eq_some_iff.1 ho
  obtain ⟨hv, hk, -⟩ := h v r hr
  exact ⟨apart v hv, .result, r.handle, by decide, hk ▸ Resource.eq_of_operand? ho⟩

/-- What stands for a known result reads known results. -/
theorem reads_of_known {i : Instruction} (h : judge s i = (s', .ok .known)) {o : Operand}
    (ho : o ∈ i.operands) : ∃ r, s.tracker.resolveAs? .result o = some r := by
  generalize hd : Decision.known = d at h
  have known {o : Option Resource} (ho : Decision.known = derived o) : ∃ r, o = some r := by
    cases o with
    | none => cases ho
    | some r => exact ⟨r, rfl⟩
  cases judges_of_judge h with
  | copy =>
    obtain ⟨r, hr⟩ := known hd
    obtain rfl := List.mem_singleton.1 ho
    exact ⟨r, hr⟩
  | phi =>
    obtain ⟨r, hr⟩ := known hd
    exact ⟨r, (Tracker.joinAs?_eq_some_iff.1 hr).2 o ho⟩
  | measure | other => cases hd

/-- So what goes reads only values that stand for results. -/
theorem mem_of_gone (decides : Decides judge s f.visited ds s')
    (finished : Finished (address? s'.tracker) (replaced ds)
      ((ds.filter fun d => d.2 = .known).map Prod.fst) f g gone)
    (hs : s.tracker.Holds Resource.IsResult B)
    (binds : ∀ i ∈ f.instructions, ∀ v, binds? i = some v → v ∈ B)
    (he : e ∈ f.located) (hgone : e.1 ∈ gone) {v : ValueId} (hv : .value v ∈ e.2.operands) :
    v ∈ B := by
  obtain ⟨⟨x, d⟩, hd, hx⟩ := List.mem_map.1 (finished.chosen e.1 hgone)
  obtain ⟨hmem, hd⟩ := List.mem_filter.1 hd
  obtain rfl : x = e.1 := hx
  obtain rfl : d = .known := of_decide_eq_true hd
  obtain ⟨i, s₁, s₂, hi, hs₁, hstep⟩ := decides.exists_step_of_mem hs (holds_step binds) hmem
  obtain rfl : i = e.2 := Option.some.inj
    ((Function.mem_located.1 (Function.mem_visited.1 hi)).symm.trans (Function.mem_located.1 he))
  obtain ⟨r, hr⟩ := reads_of_known hstep hv
  exact (hs₁ v r (Tracker.resolveAs?_eq_some_iff.1 hr).1).1

end ResultLowering

end QuantumLowering
