import QuantumLowering.Proofs.Commute.Kinds
/-!
# Lowering a function in either order

What lowering of one kind leaves of a function means the same for the other
kind. So lowering results after qubits follows lowering results alone
(`ResultLowering.follows_plan`), and the other way round
(`QubitLowering.follows_plan`). Both orders make the same of the function:
what goes in either of them goes, and every value that has an address gives
way to it (`ResultLowering.lower_after_qubits`,
`QubitLowering.lower_after_results`).
-/


namespace QuantumLowering

open Lowering

/-- The address of a value, as a qubit or as a result. -/
def Lowering.address? (t u : Tracker) (v : ValueId) : Option Operand :=
  (QubitLowering.address? t v).or (ResultLowering.address? u v)

/-! ## Results after qubits -/

namespace ResultLowering

section AfterQubits

variable {honored : Bool} {sq tq s s' : Stock} {f g : Function}
variable {dq : List (Site × QubitLowering.Decision)} {goneq : List Site} {T : Tracker}
variable {Bq B : List ValueId}

variable (decidesq : Decides (QubitLowering.judge honored) sq f.visited dq tq)
variable (finishedq : Finished (QubitLowering.address? tq.tracker) Prod.snd
  ((dq.filter fun d => d.2.isDroppable).map Prod.fst) f g goneq)
variable (nodup : f.definedValues.Nodup)
variable (holdsq : tq.tracker.Holds (fun r => r.kind = .qubit) Bq) (disjoint : ∀ v ∈ Bq, v ∉ B)
variable (binds : ∀ i ∈ f.instructions, ∀ v, binds? i = some v → v ∈ B)
variable (apart : ∀ v, T.resolveAs? .result (.value v) = none) (beside : s.Beside B T s')

include decidesq finishedq nodup holdsq disjoint binds apart beside

/-- **Lowering results after qubits follows lowering results alone.** -/
theorem follows_plan :
    Plan.Follows (Stock.Beside B T)
      (Decision.mapOperands (Operand.substitute (QubitLowering.address? tq.tracker))) f.visited
      (f.moved (QubitLowering.left goneq tq.tracker))
      (plan s f) (plan s' g) := by
  have visited : g.visited = f.visited.filterMap
      (f.moved (QubitLowering.left goneq tq.tracker)) := by
    rw [finishedq.eq]
    exact Function.visited_rewrite_moved
  rw [plan, plan, visited]
  refine follows_decideAll (fun e he d hd s s' hs => ?_) (fun e he hd s => ?_) beside
  · obtain ⟨hfate, -⟩ := Function.moved_eq_some.1 hd
    obtain ⟨-, hj⟩ := fate_eq_some.1 hfate
    have hi := Function.mem_instructions.2 ⟨e.1, Function.mem_visited.1 he⟩
    rw [hj]
    exact judge_beside hs apart (QubitLowering.spares_address? holdsq disjoint) (binds e.2 hi)
  · have hgone := fate_eq_none.1 (Function.moved_eq_none.1 hd)
    refine ⟨.stays, ?_⟩
    rw [judge, role_of_role (QubitLowering.role_of_gone decidesq finishedq nodup
      (Function.mem_visited.1 he) hgone)]
    rfl

variable {dr dr' : List (Site × Decision)} {goner goner' : List Site} {h k : Function}

variable (hl : (lower s f).failure = none)
variable (decides : Decides judge s f.visited dr (lower s f).stock)
variable (finished : Finished (address? (lower s f).stock.tracker) (replaced dr)
  ((dr.filter fun d => d.2 = .known).map Prod.fst) f k goner)
variable (holds : (lower s f).stock.tracker.Holds Resource.IsResult B)

include hl decides finished holds

/-- **What becomes of an instruction, becomes of what lowering qubits leaves of
it.** -/
theorem becomes_after_qubits (decides' : Decides judge s' g.visited dr' (lower s' g).stock)
    (finished' : Finished (address? (lower s' g).stock.tracker) (replaced dr')
      ((dr'.filter fun d => d.2 = .known).map Prod.fst) g h goner')
    {e d : Site × Instruction} (he : e ∈ f.located)
    (hd : f.moved (QubitLowering.left goneq tq.tracker) e = some d) :
    ∃ a, Becomes dr goner e a ∧ Becomes dr' goner' d
      (a.mapOperands (Operand.substitute (QubitLowering.address? tq.tracker))) := by
  have follows := follows_plan decidesq finishedq nodup holdsq disjoint binds apart beside
  have stocks := follows.stock
  rw [← lower_stock, ← lower_stock] at stocks
  have constants := fun v o (h : QubitLowering.address? tq.tracker v = some o) =>
    QubitLowering.address?_isConstant h
  have nodup' : g.definedValues.Nodup :=
    nodup.sublist (QubitLowering.lowersTo_of_finished decidesq finishedq).definedValues_sublist
  have hi := Function.mem_instructions.2 ⟨e.1, he⟩
  have hd' : d ∈ g.located := by
    rw [finishedq.eq]
    exact Function.mem_located_rewrite.2 ⟨e, he, hd⟩
  obtain ⟨-, hj⟩ := fate_eq_some.1 (Function.moved_eq_some.1 hd).1
  obtain ⟨a, ha, moves⟩ := follows.decisions (lower_failure s f ▸ hl) e (Function.mem_visited.2 he)
  have ha' := moves d hd
  rw [plan, decides.decisions_decideAll] at ha
  rw [plan, decides'.decisions_decideAll] at ha'
  obtain ⟨b, hb, becomes⟩ := exists_becomes decides finished nodup he
    fun v _ hv => isSome_address? holds hv
  obtain ⟨b', hb', becomes'⟩ := exists_becomes decides' finished' nodup' hd' fun v hv hne => by
    have hv : v ∈ B := by
      rw [hj, binds?_mapOperands] at hv
      exact binds e.2 hi v hv
    have same := stocks.inside v hv
    rw [address?, same]
    exact isSome_address? holds (same ▸ hne)
  obtain rfl := (hb a).1 ha
  obtain rfl := (hb' _).1 ha'
  exact ⟨a, becomes, becomes'⟩

/-- **What it makes of the function.** -/
theorem lower_after_qubits :
    (lower s' g).function =
      f.rewrite (fate (goneq ++ goner) (replaced dr)
        (Lowering.address? tq.tracker (lower s f).stock.tracker))
        (Operand.substitute (Lowering.address? tq.tracker (lower s f).stock.tracker)) := by
  have follows := follows_plan decidesq finishedq nodup holdsq disjoint binds apart beside
  have stocks := follows.stock
  have failure := follows.failure
  rw [← lower_stock, ← lower_stock] at stocks
  rw [← lower_failure, ← lower_failure, hl] at failure
  obtain ⟨dr', goner', decides', finished'⟩ := exists_lowered failure
  have addresses : address? (lower s' g).stock.tracker = address? (lower s f).stock.tracker :=
    funext fun v => congrArg (Option.bind · Resource.operand?) (stocks.resolveAs?_value apart v)
  have both : ∀ o, (Operand.substitute (QubitLowering.address? tq.tracker) o).substitute
      (address? (lower s f).stock.tracker) =
        o.substitute (Lowering.address? tq.tracker (lower s f).stock.tracker) :=
    Operand.substitute_substitute fun v o => QubitLowering.address?_isConstant
  have becomes := fun e he hleft => becomes_after_qubits decidesq finishedq nodup holdsq disjoint
    binds apart beside hl decides finished holds decides' finished' (e := e) he (moved_fate hleft)
  rw [finished'.eq, addresses, finishedq.eq]
  refine rewrite_fate_fate (fun e _ h => List.mem_append_left _ h) (fun e he hleft => ?_)
    (fun e he hleft hstays => ?_) fun o _ => both o
  · obtain ⟨a, ha, ha'⟩ := becomes e he hleft
    rw [List.mem_append, or_iff_right hleft]
    cases ha <;> cases ha' <;> simp_all
  · obtain ⟨a, ha, ha'⟩ := becomes e he hleft
    have replaces : replaced dr' (f.renumber (QubitLowering.left goneq tq.tracker) e.1,
        e.2.mapOperands (Operand.substitute (QubitLowering.address? tq.tracker))) =
          (replaced dr e).mapOperands (Operand.substitute (QubitLowering.address? tq.tracker)) := by
      cases ha with
      | known _ hgone _ => exact absurd (List.mem_append_right _ hgone) hstays
      | measured _ _ hr =>
        cases ha' with
        | measured _ _ hr' =>
          rw [hr, hr']
          rfl
      | stays _ hr =>
        cases ha' with
        | stays _ hr' => rw [hr, hr']
    rw [replaces, Instruction.mapOperands_mapOperands]
    exact Instruction.mapOperands_congr fun o _ => both o

end AfterQubits

end ResultLowering

/-! ## Qubits after results -/

namespace QubitLowering

/-- **Releases count in both functions or in neither**, as far as there are any. -/
def HonorsAlike (sole : Bool) (s s' : Stock) (f g : Function) : Prop :=
  ∃ honored, plan sole s f = decideAll (judge honored) s f.visited ∧
    plan sole s' g = decideAll (judge honored) s' g.visited

section AfterResults

variable {honored sole : Bool} {sr tr s s' : Stock} {f g : Function}
variable {dr : List (Site × ResultLowering.Decision)} {goner : List Site} {T : Tracker}
variable {Br B : List ValueId}

variable (decidesr : Decides ResultLowering.judge sr f.visited dr tr)
variable (finishedr : Finished (ResultLowering.address? tr.tracker) (ResultLowering.replaced dr)
  ((dr.filter fun d => d.2 = .known).map Prod.fst) f g goner)
variable (nodup : f.definedValues.Nodup)
variable (holdsr : tr.tracker.Holds Resource.IsResult Br) (disjoint : ∀ v ∈ Br, v ∉ B)

include decidesr finishedr nodup holdsr in
theorem becomes_alone {e : Site × Instruction} (he : e ∈ f.located) :
    ∃ d, (∀ b, (e.1, b) ∈ dr ↔ b = d) ∧ ResultLowering.Becomes dr goner e d :=
  ResultLowering.exists_becomes decidesr finishedr nodup he
    fun _ _ hv => ResultLowering.isSome_address? holdsr hv

include decidesr finishedr nodup holdsr in
/-- What means something for qubits stays as it is. -/
theorem stays_alone {e : Site × Instruction} (he : e ∈ f.located) (hr : role e.2 ≠ .other) :
    e.1 ∉ goner ∧ ResultLowering.replaced dr e = e.2 := by
  obtain ⟨d, -, becomes⟩ := becomes_alone decidesr finishedr nodup holdsr he
  cases becomes with
  | known hb => exact absurd (ResultLowering.role_of_binds hb) hr
  | measured hi => exact absurd (by rw [hi]; rfl) hr
  | stays hstays hreplaced => exact ⟨hstays, hreplaced⟩

variable (binds : ∀ i ∈ f.instructions, ∀ v, binds? i = some v → v ∈ B)
variable (apart : ∀ v, T.resolveAs? .qubit (.value v) = none) (beside : s.Beside B T s')

include decidesr finishedr nodup holdsr disjoint binds apart beside

/-- **Deciding for qubits after results follows deciding for qubits alone.** -/
theorem follows_judges :
    Plan.Follows (Stock.Beside B T) id f.visited
      (f.moved (ResultLowering.left dr goner tr.tracker))
      (decideAll (judge honored) s f.visited) (decideAll (judge honored) s' g.visited) := by
  have visited : g.visited = f.visited.filterMap
      (f.moved (ResultLowering.left dr goner tr.tracker)) := by
    rw [finishedr.eq]
    exact Function.visited_rewrite_moved
  rw [visited]
  refine follows_decideAll (fun e he d hd s s' hs => ?_) (fun e he hd s => ?_) beside
  · obtain ⟨hfate, -⟩ := Function.moved_eq_some.1 hd
    obtain ⟨hstays, hj⟩ := fate_eq_some.1 hfate
    have hi := Function.mem_instructions.2 ⟨e.1, Function.mem_visited.1 he⟩
    obtain ⟨a, -, becomes⟩ := becomes_alone decidesr finishedr nodup holdsr
      (Function.mem_visited.1 he)
    rw [hj]
    cases becomes with
    | known _ hgone => exact absurd hgone hstays
    | measured hi _ hr =>
      -- a measurement means nothing for qubits, nor does what stands in its place
      rw [hi, hr]
      exact ⟨hs, rfl⟩
    | stays _ hr =>
      rw [hr]
      obtain ⟨stocks, same⟩ := judge_beside hs apart
        (ResultLowering.spares_address? holdsr disjoint) (binds e.2 hi)
      exact ⟨stocks, same.trans (congrArg Prod.snd (Draw.map_id _)).symm⟩
  · have hgone := fate_eq_none.1 (Function.moved_eq_none.1 hd)
    obtain ⟨a, -, becomes⟩ := becomes_alone decidesr finishedr nodup holdsr
      (Function.mem_visited.1 he)
    refine ⟨.stays, ?_⟩
    cases becomes with
    | known hb =>
      rw [judge, ResultLowering.role_of_binds hb]
      rfl
    | measured _ hstays | stays hstays => exact absurd hgone hstays

variable (honors : HonorsAlike sole s s' f g)

include honors

/-- **Lowering qubits after results follows lowering qubits alone**, where
releases count in both or in neither. -/
theorem follows_plan :
    Plan.Follows (Stock.Beside B T) id f.visited
      (f.moved (ResultLowering.left dr goner tr.tracker))
      (plan sole s f) (plan sole s' g) := by
  obtain ⟨honored, alone, after⟩ := honors
  rw [alone, after]
  exact follows_judges decidesr finishedr nodup holdsr disjoint binds apart beside

/-- The same may go. -/
theorem candidates_after_results (hl : (lower sole s f).failure = none) {e : Site × Instruction}
    (he : e ∈ f.located) (hleft : e.1 ∉ goner) :
    f.renumber (ResultLowering.left dr goner tr.tracker) e.1 ∈
        candidates (plan sole s' g).decisions ↔
      e.1 ∈ candidates (plan sole s f).decisions := by
  have follows := follows_plan decidesr finishedr nodup holdsr disjoint binds apart beside honors
  rw [lower_failure] at hl
  obtain ⟨d, hd, moves⟩ := follows.decisions hl e (Function.mem_visited.2 he)
  have hd' := moves _ (moved_fate hleft)
  rw [mem_candidates (decides_plan hl) hd,
    mem_candidates (decides_plan (follows.failure.trans hl)) hd']
  rfl

variable (known : ∀ v ∈ f.definedValues, T.resolve? v = tr.tracker.resolve? v)

include known

/-- **Every value has the same address in the end.** -/
theorem substitute_after_results {o : Operand} (ho : ∀ v, o = .value v → v ∈ f.definedValues) :
    (o.substitute (ResultLowering.address? tr.tracker)).substitute
        (address? (lower sole s' g).stock.tracker) =
      o.substitute (Lowering.address? (lower sole s f).stock.tracker tr.tracker) := by
  have stocks := (follows_plan decidesr finishedr nodup holdsr disjoint binds apart beside
    honors).stock
  rw [← lower_stock, ← lower_stock] at stocks
  rw [Operand.substitute_substitute fun v o => ResultLowering.address?_isConstant]
  cases o with
  | value v =>
    rw [Operand.substitute_value, Operand.substitute_value, Lowering.address?]
    by_cases hv : v ∈ B
    · have none : tr.tracker.resolve? v = none := holdsr.unknown fun h => disjoint v h hv
      rw [ResultLowering.address?_eq_of_holds holdsr, address?, address?, address?, none,
        stocks.inside v hv]
      simp
    · -- lowering qubits finds of such a value what lowering results left
      have same : (lower sole s' g).stock.tracker.resolve? v = tr.tracker.resolve? v :=
        (stocks.outside v hv).trans (known v (ho v rfl))
      rw [ResultLowering.address?_eq_of_holds holdsr, address?, address?, address?,
        stocks.alone v hv, same]
      simp
  | _ => rfl

variable (instructions : ∀ i ∈ f.instructions, ∀ v, .value v ∈ i.operands → v ∈ f.definedValues)
variable (exits : ∀ v, .value v ∈ f.exitOperands → v ∈ f.definedValues)

include instructions exits

/-- **Erasing what goes of the qubits** from what lowering results leaves. -/
theorem erase_after_results {gone gone' : List Site}
    (mirrors : ∀ e ∈ f.located, e.1 ∉ goner →
      (f.renumber (ResultLowering.left dr goner tr.tracker) e.1 ∈ gone' ↔ e.1 ∈ gone)) :
    (g.substitute (address? (lower sole s' g).stock.tracker)).erase gone' =
      f.rewrite (fate (gone ++ goner) (ResultLowering.replaced dr)
        (Lowering.address? (lower sole s f).stock.tracker tr.tracker))
        (Operand.substitute (Lowering.address? (lower sole s f).stock.tracker tr.tracker)) := by
  have both := fun o => substitute_after_results decidesr finishedr nodup holdsr disjoint binds
    apart beside honors known (o := o)
  generalize (lower sole s' g).stock.tracker = u at both ⊢
  rw [erase_substitute, finishedr.eq]
  refine rewrite_fate_fate (fun e _ h => List.mem_append_right _ h) (fun e he hleft => ?_)
    (fun e he hleft hstays => ?_) fun o ho => both o fun v hv => exits v (hv ▸ ho)
  · rw [List.mem_append, or_iff_left hleft]
    exact mirrors e he hleft
  · obtain ⟨a, -, becomes⟩ := becomes_alone decidesr finishedr nodup holdsr he
    rw [Instruction.mapOperands_mapOperands]
    refine Instruction.mapOperands_congr fun o ho => both o fun v hv => ?_
    subst hv
    exact instructions e.2 (Function.mem_instructions.2 ⟨e.1, he⟩) v (becomes.reads_iff.1 ho)

variable (start : sr.tracker.Holds Resource.IsResult Br)
variable (bindsr : ∀ i ∈ f.instructions, ∀ v, ResultLowering.binds? i = some v → v ∈ Br)

include start bindsr

/-- **What lowering results leaves reads the same qubits**, wherever the same
goes. -/
theorem reads_after_results {gone gone' : List Site}
    (mirrors : ∀ e ∈ f.located, e.1 ∉ goner →
      (f.renumber (ResultLowering.left dr goner tr.tracker) e.1 ∈ gone' ↔ e.1 ∈ gone))
    {v : ValueId} (hv : v ∈ B) :
    ((g.substitute (address? (lower sole s' g).stock.tracker)).erase gone').Reads v ↔
      ((f.substitute (address? (lower sole s f).stock.tracker)).erase gone).Reads v := by
  rw [erase_after_results decidesr finishedr nodup holdsr disjoint binds apart beside honors known
    instructions exits mirrors, erase_substitute, reads_fate fun v o => ?constants,
    reads_fate fun v o => address?_isConstant]
  case constants =>
    intro h
    rcases Option.or_eq_some_iff.1 h with h | ⟨-, h⟩
    · exact address?_isConstant h
    · exact ResultLowering.address?_isConstant h
  have none : tr.tracker.resolve? v = none := holdsr.unknown fun h => disjoint v h hv
  have same : Lowering.address? (lower sole s f).stock.tracker tr.tracker v =
      address? (lower sole s f).stock.tracker v := by
    rw [Lowering.address?, ResultLowering.address?, none]
    simp
  rw [same]
  refine and_congr_right fun _ => or_congr ⟨?_, ?_⟩ Iff.rfl
  · rintro ⟨e, he, hstays, hreads⟩
    obtain ⟨_, -, becomes⟩ := becomes_alone decidesr finishedr nodup holdsr he
    exact ⟨e, he, fun h => hstays (List.mem_append_left _ h), becomes.reads_iff.1 hreads⟩
  · rintro ⟨e, he, hstays, hreads⟩
    obtain ⟨_, -, becomes⟩ := becomes_alone decidesr finishedr nodup holdsr he
    refine ⟨e, he, fun h => ?_, becomes.reads_iff.2 hreads⟩
    rcases List.mem_append.1 h with h | h
    · exact hstays h
    · exact disjoint v (ResultLowering.mem_of_gone decidesr finishedr start bindsr he h hreads) hv

variable (hl : (lower sole s f).failure = none)

include hl

/-- **And the same goes.** -/
theorem removable_after_results {e : Site × Instruction} (he : e ∈ f.located)
    (hleft : e.1 ∉ goner) :
    f.renumber (ResultLowering.left dr goner tr.tracker) e.1 ∈
        (g.substitute (address? (lower sole s' g).stock.tracker)).removable
          (candidates (plan sole s' g).decisions) ↔
      e.1 ∈ (f.substitute (address? (lower sole s f).stock.tracker)).removable
        (candidates (plan sole s f).decisions) := by
  have decides := decides_plan (lower_failure sole s f ▸ hl)
  refine Function.removable_iff_of_renumber
    (X := fun x => ∃ d ∈ f.located, d.1 = x ∧ d.1 ∉ goner) (B := B)
    ?own ?sites ?may ?results ?bound ?reads ⟨e, he, rfl, hleft⟩
  case own =>
    rintro _ _ ⟨c, hc, rfl, hcleft⟩ ⟨d, hd, rfl, hdleft⟩ heq
    refine congrArg Prod.fst (Function.eq_of_renumber_eq hc hd ?_ ?_ heq)
    · exact Option.isSome_iff_exists.2 ⟨_, fate_eq_some.2 ⟨hcleft, rfl⟩⟩
    · exact Option.isSome_iff_exists.2 ⟨_, fate_eq_some.2 ⟨hdleft, rfl⟩⟩
  case sites =>
    intro x hx
    obtain ⟨d, hd, rfl, hrole⟩ := exists_of_mem_candidates decides hx
    exact ⟨d, hd, rfl, (stays_alone decidesr finishedr nodup holdsr hd hrole).1⟩
  case may =>
    rintro _ ⟨d, hd, rfl, hdleft⟩
    exact candidates_after_results decidesr finishedr nodup holdsr disjoint binds apart beside
      honors hl hd hdleft
  case results =>
    intro x hx
    obtain ⟨d, hd, rfl, hrole⟩ := exists_of_mem_candidates decides hx
    obtain ⟨hdleft, same⟩ := stays_alone decidesr finishedr nodup holdsr hd hrole
    have stands : (f.renumber (ResultLowering.left dr goner tr.tracker) d.1,
        (ResultLowering.replaced dr d).mapOperands
          (Operand.substitute (ResultLowering.address? tr.tracker))) ∈ g.located := by
      rw [finishedr.eq]
      exact Function.mem_located_rewrite.2 ⟨d, hd, moved_fate hdleft⟩
    rw [Function.resultAt?_substitute hd]
    refine (Function.resultAt?_substitute stands).trans ?_
    rw [Instruction.result_mapOperands, same]
  case bound =>
    intro x hx v hv
    obtain ⟨d, hd, rfl, hrole⟩ := exists_of_mem_candidates decides hx
    rw [Function.resultAt?_substitute hd] at hv
    exact binds d.2 (Function.mem_instructions.2 ⟨d.1, hd⟩) v (binds_of_role hrole hv)
  case reads =>
    intro gone gone' mirrors v hv
    exact reads_after_results decidesr finishedr nodup holdsr disjoint binds apart beside honors
      known instructions exits start bindsr (fun d hd hdleft => mirrors d.1 ⟨d, hd, rfl, hdleft⟩) hv

/-- **What it makes of the function.** -/
theorem lower_after_results :
    (lower sole s' g).function =
      f.rewrite (fate ((f.substitute (address? (lower sole s f).stock.tracker)).removable
          (candidates (plan sole s f).decisions) ++ goner) (ResultLowering.replaced dr)
        (Lowering.address? (lower sole s f).stock.tracker tr.tracker))
        (Operand.substitute (Lowering.address? (lower sole s f).stock.tracker tr.tracker)) := by
  have hl' : (plan sole s' g).failure = none := by
    rw [(follows_plan decidesr finishedr nodup holdsr disjoint binds apart beside honors).failure,
      ← lower_failure, hl]
  rw [lower_function hl', ← lower_stock]
  exact erase_after_results decidesr finishedr nodup holdsr disjoint binds apart beside honors known
    instructions exits fun e he hleft => removable_after_results decidesr finishedr nodup holdsr
      disjoint binds apart beside honors known instructions exits start bindsr hl he hleft

end AfterResults

end QubitLowering

end QuantumLowering
