import QuantumLowering.Proofs.Execution.Simulation
import QuantumLowering.Proofs.Lowering.Qubits
import QuantumLowering.Proofs.Lowering.Results
/-!
# The table explains what lowering does

Lowering leaves a table of values, and the table explains what became of
each instruction (`QubitLowering.explained`, `ResultLowering.explained`):
an instruction that goes has an address in the table for its value, and
one that stays has none. What a visit finds of an operand is still there
at the end, so it does not matter that the table is filled on the way.
-/


namespace QuantumLowering

open Execution Lowering

/-- Whether an instruction acquires an array of qubits, names an element of
one or releases one. -/
def Instruction.managesArrays (i : Instruction) : Bool :=
  i.isCallTo Intrinsics.acquireArray || i.isCallTo Intrinsics.arrayElement ||
    i.isCallTo Intrinsics.releaseArray

@[simp] theorem Instruction.isCallTo_call (result : Option ValueId) (ty : Ty) (callee : String)
    (args : List Operand) (name : String) :
    Instruction.isCallTo ⟨result, ty, .call callee args⟩ name = (callee == name) := rfl

@[simp] theorem Instruction.managesQubits_call (result : Option ValueId) (ty : Ty)
    (callee : String) (args : List Operand) :
    Instruction.managesQubits ⟨result, ty, .call callee args⟩ =
      Intrinsics.isQubitManagement callee := rfl

/-- What stands in place of an operand that stands for one resource. -/
theorem Operand.substitute_of_resolveAs? {T : ValueId → Option Operand} {t : Tracker}
    {kind : ResourceKind} {h : Handle}
    (hT : ∀ v, t.resolve? v = some (.single kind h) → T v = some (kind.operand h)) {op : Operand}
    (hr : t.resolveAs? kind op = some (.single kind h)) : op.substitute T = kind.operand h := by
  obtain ⟨hr, -⟩ := Tracker.resolveAs?_eq_some_iff.1 hr
  cases op with
  | value v => rw [substitute_value, hT v hr, Option.getD_some]
  | qubit b =>
    cases hr
    rfl
  | result b =>
    cases hr
    rfl
  | _ => cases hr

/-- **The address of a value that stands for what operands stand for**: none
if that is not known, and else the one address of all of them. -/
theorem Lowering.address_of_joined {T : ValueId → Option Operand} {t t' : Tracker}
    {v : ValueId} (kind : ResourceKind) (ops : List Operand)
    (known : ∀ v h, t'.resolve? v = some (.single kind h) → T v = some (kind.operand h))
    (unknown : ∀ v, t'.resolve? v = none → T v = none) (single : t'.All fun r => r.width = 1)
    (stays : ∀ op r, t.resolveAs? kind op = some r → t'.resolveAs? kind op = some r)
    (hv : t'.resolve? v = t.joinAs? kind ops) :
    (t.joinAs? kind ops = none ∧ T v = none) ∨
      ∃ h, (t.joinAs? kind ops).isSome ∧ T v = some (kind.operand h) ∧
        ∀ op ∈ ops, op.substitute T = kind.operand h := by
  cases ho : t.joinAs? kind ops with
  | none => exact .inl ⟨rfl, unknown v (hv.trans ho)⟩
  | some r =>
    obtain ⟨hne, hops⟩ := Tracker.joinAs?_eq_some_iff.1 ho
    have hr : r = .single kind r.handle := by
      obtain ⟨op, hop⟩ := List.exists_mem_of_ne_nil ops hne
      have := (stays op r (hops op hop))
      exact Resource.eq_single (Tracker.resolveAs?_eq_some_iff.1 this).2
        (single.resolveAs? (fun _ => rfl) this)
    refine .inr ⟨r.handle, rfl, known v _ (by rw [hv, ho, ← hr]), fun op hop => ?_⟩
    refine Operand.substitute_of_resolveAs? (fun u => known u r.handle) ?_
    rw [← hr]
    exact stays op r (hops op hop)

/-- **A value that stands for what operands stand for** goes if that is
known, and stays without an address otherwise. -/
theorem Lowering.becomes_of_joined {T : ValueId → Option Operand} {a : Addresses}
    {i : Instruction} {v : ValueId} {o : Option Resource} {kind : ResourceKind}
    {ops : List Operand} {went : Prop} [Decidable went]
    (joined : (o = none ∧ T v = none) ∨ ∃ h, o.isSome ∧ T v = some (kind.operand h) ∧
      ∀ op ∈ ops, op.substitute T = kind.operand h)
    (hi : i.result = some v) (ha : a.qubit v = none ∧ a.result v = none)
    (kept : o = none → ¬ went)
    (goes : o.isSome → (∀ u, i.result = some u → (T u).isSome) → went)
    (gone : ∀ h, T v = some (kind.operand h) →
      (∀ op ∈ ops, op.substitute T = kind.operand h) → Becomes T a i none) :
    Becomes T a i (if went then none else some (i.mapOperands (Operand.substitute T))) := by
  rcases joined with ⟨ho, hT⟩ | ⟨h, ho, hT, hops⟩
  · rw [if_neg (kept ho)]
    refine .kept fun u hu => ?_
    obtain rfl := Option.some.inj (hi.symm.trans hu)
    exact ⟨hT, ha⟩
  · have hwent : went := by
      refine goes ho fun u hu => ?_
      obtain rfl := Option.some.inj (hi.symm.trans hu)
      simp [hT]
    rw [if_pos hwent]
    exact gone h hT hops

/-! ## Qubits -/

namespace QubitLowering

variable {honored sole : Bool} {s s' : Stock} {i : Instruction} {d : Decision} {f : Function}
variable {a : Addresses}

/-- Without arrays every known value stands for one qubit. -/
theorem Judges.all_qubits (h : Judges honored s i s' d) (hi : i.managesArrays = false)
    (ht : s.tracker.All fun r => r.kind = .qubit ∧ r.width = 1) :
    s'.tracker.All fun r => r.kind = .qubit ∧ r.width = 1 := by
  cases h with
  | acquire _ hset =>
    refine hset.all ht fun r hr => ?_
    cases hr
    exact ⟨rfl, rfl⟩
  | acquireArray => cases hi
  | unsized => cases hi
  | project => cases hi
  | release _ _ hset => exact hset ▸ ht
  | unresolved => exact ht
  | copy _ _ hset => exact hset.all ht fun r hr => ht.resolveAs? (fun _ => ⟨rfl, rfl⟩) hr
  | phi _ _ hset => exact hset.all ht fun r hr => ht.joinAs? (fun _ => ⟨rfl, rfl⟩) hr
  | other => exact ht

theorem all_qubits_of_decides {ds : List (Site × Decision)}
    (h : Decides (judge honored) s f.visited ds s')
    (arrays : ∀ i ∈ f.instructions, i.managesArrays = false)
    (ht : s.tracker.All fun r => r.kind = .qubit ∧ r.width = 1) :
    s'.tracker.All fun r => r.kind = .qubit ∧ r.width = 1 := by
  refine h.invariant (P := fun s => s.tracker.All _) ht fun e he s s' d hs hstep => ?_
  have hmem := Function.mem_instructions.2 ⟨e.1, Function.mem_visited.1 he⟩
  exact (judges_of_judge hstep).all_qubits (arrays e.2 hmem) hs

theorem all_qubits_lower (h : (lower sole s f).failure = none)
    (arrays : ∀ i ∈ f.instructions, i.managesArrays = false)
    (ht : s.tracker.All fun r => r.kind = .qubit ∧ r.width = 1) :
    (lower sole s f).stock.tracker.All fun r => r.kind = .qubit ∧ r.width = 1 := by
  obtain ⟨ds, gone, decides, -⟩ := exists_lowered h
  exact all_qubits_of_decides decides arrays ht

/-- The addresses of a function are those that the table has for its
acquisitions. -/
def Assigns (t : Tracker) (f : Function) (a : Addresses) : Prop :=
  ∀ e ∈ f.located, ∀ v, e.2.result = some v → a.result v = none ∧
    a.qubit v = if e.2.isCallTo Intrinsics.acquireQubit then (t.resolve? v).map Resource.handle
      else none

/-- **The table explains what became of an instruction.** -/
theorem becomes {ds : List (Site × Decision)} {gone : List Site} {g : Function}
    (decides : Decides (judge honored) s f.visited ds s')
    (finished : Finished (address? s'.tracker) Prod.snd
      ((ds.filter fun d => d.2.isDroppable).map Prod.fst) f g gone)
    (nodup : f.definedValues.Nodup) (new : ∀ v ∈ f.definedValues, s.tracker.resolve? v = none)
    (single : s'.tracker.All fun r => r.width = 1)
    (arrays : ∀ i ∈ f.instructions, i.managesArrays = false)
    (assigns : Assigns s'.tracker f a) {x : Site} (he : (x, i) ∈ f.located) :
    Becomes (address? s'.tracker) a i (if x ∈ gone then none
      else some (i.mapOperands (Operand.substitute (address? s'.tracker)))) := by
  obtain ⟨s₁, s₂, d, visit⟩ := decides.exists_visit frames_judge nodup he
  have kept : d.isDroppable = false → x ∉ gone :=
    finished.not_mem_gone (P := Decision.isDroppable) visit
  have goes : d.isDroppable = true →
      (∀ v, i.result = some v → (address? s'.tracker v).isSome) → x ∈ gone :=
    finished.mem_gone (P := Decision.isDroppable) visit he
  have joined := fun v ops => address_of_joined (v := v) .qubit ops
    (fun v h => address?_of_single) (fun v => address?_of_none) single
    (fun op r => visit.resolveAs?_eq fun u hu => by
      simp [Tracker.resolveAs?, Tracker.resolveOperand?_value, new u hu])
  have hi := arrays i (Function.mem_instructions.2 ⟨x, he⟩)
  have hmem := fun v => Function.result_mem_definedValues (v := v) he
  have ha := assigns (x, i) he
  have hnew := visit.new
  have hresult := visit.result
  simp only at ha hmem hnew hresult
  cases judges_of_judge visit.step with
  | @acquire v ty args h _ _ hset =>
    -- the acquisition may go, and its value has the address that the pool gave
    have hv : s'.tracker.resolve? v = some (.single .qubit h) := (hresult v rfl).trans hset.self
    have hT := address?_of_single hv
    have hq : a.qubit v = some h := by
      rw [(ha v rfl).2, hv]
      rfl
    rw [if_pos (goes rfl (by simp [hT]))]
    exact .acquired hq hT
  | acquireArray => cases hi
  | unsized => cases hi
  | project => cases hi
  | release hcallee =>
    rcases hcallee with rfl | rfl
    · rw [if_pos (goes rfl (by simp))]
      exact .released
    · cases hi
  | unresolved =>
    rw [if_neg (kept rfl)]
    exact .kept fun v hv => by cases hv
  | @copy v ty source _ _ _ hset =>
    rw [← Tracker.joinAs?_singleton] at hset kept goes
    refine becomes_of_joined (joined v [source] ((hresult v rfl).trans hset.self)) rfl
      ⟨(ha v rfl).2, (ha v rfl).1⟩ (fun ho => kept (by rw [ho]; rfl))
      (fun ho => goes (by rw [derived_of_isSome ho]; rfl)) fun h hT hops => ?_
    exact .copied hT (hops source (List.mem_singleton_self source))
  | @phi v ty incoming _ _ _ hset =>
    refine becomes_of_joined (joined v _ ((hresult v rfl).trans hset.self)) rfl
      ⟨(ha v rfl).2, (ha v rfl).1⟩ (fun ho => kept (by rw [ho]; rfl))
      (fun ho => goes (by rw [derived_of_isSome ho]; rfl)) fun h hT hops => ?_
    exact .joined hT fun e he => hops e.2 (List.mem_map_of_mem he)
  | other =>
    rw [if_neg (kept rfl)]
    refine .kept fun v hv => ?_
    -- no step looks at the value, and nothing was known of it
    have hT : s'.tracker.resolve? v = none := by
      rw [hresult v hv, hnew v hv, new v (hmem v hv)]
    refine ⟨address?_of_none hT, ?_, (ha v hv).1⟩
    rw [(ha v hv).2, hT]
    split <;> rfl

/-- **The table explains what lowering makes of a function**, if the
function has no arrays and nothing was known of its values. -/
theorem explained (h : (lower sole s f).failure = none) (nodup : f.definedValues.Nodup)
    (new : ∀ v ∈ f.definedValues, s.tracker.resolve? v = none)
    (qubits : s.tracker.All fun r => r.kind = .qubit ∧ r.width = 1)
    (arrays : ∀ i ∈ f.instructions, i.managesArrays = false)
    (assigns : Assigns (lower sole s f).stock.tracker f a) :
    Explained a f (lower sole s f).function := by
  obtain ⟨ds, gone, decides, finished⟩ := exists_lowered h
  have single := (all_qubits_of_decides decides arrays qubits).imp fun r hr => hr.2
  refine ⟨_, _, ⟨fun v o => address?_isConstant, fun v hv => ?_, fun e he => ?_⟩, finished.eq⟩
  · exact address?_of_none ((decides.frame_params frames_judge nodup hv).trans
      (new v (List.mem_append_left _ hv)))
  · exact becomes decides finished nodup new single arrays assigns he

end QubitLowering

/-! ## Results -/

namespace ResultLowering

variable {s s' : Stock} {i : Instruction} {d : Decision} {f : Function} {a : Addresses}

/-- Lowering results never makes a value stand for a block. -/
theorem Judges.all_single (h : Judges s i s' d) (ht : s.tracker.All fun r => r.width = 1) :
    s'.tracker.All fun r => r.width = 1 := by
  cases h with
  | measure _ hset =>
    refine hset.all ht fun r hr => ?_
    cases hr
    rfl
  | copy _ hset => exact hset.all ht fun r hr => ht.resolveAs? (fun _ => rfl) hr
  | phi _ hset => exact hset.all ht fun r hr => ht.joinAs? (fun _ => rfl) hr
  | other => exact ht

theorem all_single_of_decides {ds : List (Site × Decision)} (h : Decides judge s f.visited ds s')
    (ht : s.tracker.All fun r => r.width = 1) : s'.tracker.All fun r => r.width = 1 :=
  h.invariant (P := fun s => s.tracker.All _) ht fun _ _ _ _ _ hs hstep =>
    (judges_of_judge hstep).all_single hs

theorem all_single_lower (h : (lower s f).failure = none)
    (ht : s.tracker.All fun r => r.width = 1) :
    (lower s f).stock.tracker.All fun r => r.width = 1 := by
  obtain ⟨ds, gone, decides, -⟩ := exists_lowered h
  exact all_single_of_decides decides ht

/-- The addresses of a function are those that the table has for its
measurements. -/
def Assigns (t : Tracker) (f : Function) (a : Addresses) : Prop :=
  ∀ e ∈ f.located, ∀ v, e.2.result = some v → a.qubit v = none ∧
    a.result v = if isMeasurement e.2 then (t.resolve? v).map Resource.handle else none

/-- **The table explains what became of an instruction.** -/
theorem becomes {ds : List (Site × Decision)} {gone : List Site} {g : Function}
    (decides : Decides judge s f.visited ds s')
    (finished : Finished (address? s'.tracker) (replaced ds)
      ((ds.filter fun d => d.2 = .known).map Prod.fst) f g gone)
    (nodup : f.definedValues.Nodup)
    (new : ∀ v ∈ f.definedValues, s.tracker.resolveAs? .result (.value v) = none)
    (single : s'.tracker.All fun r => r.width = 1) (assigns : Assigns s'.tracker f a) {x : Site}
    (he : (x, i) ∈ f.located) :
    Becomes (address? s'.tracker) a i (if x ∈ gone then none
      else some ((replaced ds (x, i)).mapOperands (Operand.substitute (address? s'.tracker)))) := by
  obtain ⟨s₁, s₂, d, visit⟩ := decides.exists_visit frames_judge nodup he
  have hreplaced : replaced ds (x, i) = d.replacement?.getD i := replaced_eq visit.decision
  have kept : d ≠ .known → x ∉ gone := fun hd =>
    finished.not_mem_gone (P := fun d => d = .known) visit (by simpa using hd)
  have goes : d = .known → (∀ v, i.result = some v → (address? s'.tracker v).isSome) →
      x ∈ gone := by
    rintro rfl hv
    exact finished.mem_gone (P := fun d => d = .known) visit he (by simp) (by rwa [hreplaced])
  have joined := fun v ops => address_of_joined (v := v) .result ops
    (fun v h => address?_of_single) (fun v hv => address?_of_none (by
      simp [Tracker.resolveAs?, Tracker.resolveOperand?_value, hv])) single
    (fun op r => visit.resolveAs?_eq new)
  have hmem := fun v => Function.result_mem_definedValues (v := v) he
  have ha := assigns (x, i) he
  have hnew := visit.new
  have hresult := visit.result
  simp only at ha hmem hnew hresult
  cases judges_of_judge visit.step with
  | @measure v qubit h _ _ hset =>
    have hv : s'.tracker.resolve? v = some (.single .result h) := (hresult v rfl).trans hset.self
    have hr : a.result v = some h := by
      rw [(ha v rfl).2, hv]
      rfl
    rw [if_neg (kept (by simp)), hreplaced]
    exact .measured (ha v rfl).1 hr (address?_of_single hv)
  | @copy v source _ _ hset =>
    rw [← Tracker.joinAs?_singleton] at hset kept goes
    rw [hreplaced, replacement?_derived, Option.getD_none]
    refine becomes_of_joined (joined v [source] ((hresult v rfl).trans hset.self)) rfl (ha v rfl)
      (fun ho => kept (by simp [ho])) (fun ho => goes (derived_of_isSome ho)) fun h hT hops => ?_
    exact .copied hT (hops source (List.mem_singleton_self source))
  | @phi v incoming _ _ hset =>
    rw [hreplaced, replacement?_derived, Option.getD_none]
    refine becomes_of_joined (joined v _ ((hresult v rfl).trans hset.self)) rfl (ha v rfl)
      (fun ho => kept (by simp [ho])) (fun ho => goes (derived_of_isSome ho)) fun h hT hops => ?_
    exact .joined hT fun e he => hops e.2 (List.mem_map_of_mem he)
  | other hrole =>
    rw [if_neg (kept (by simp)), hreplaced]
    refine .kept fun v hv => ?_
    -- no step looks at the value, and it stood for no result before
    have hT : s'.tracker.resolveAs? .result (.value v) = none := by
      rw [← new v (hmem v hv)]
      exact Tracker.resolveAs?_value_congr ((hresult v hv).trans (hnew v hv))
    exact ⟨address?_of_none hT, (ha v hv).1, by simp [(ha v hv).2, isMeasurement, hrole]⟩

/-- **The table explains what lowering makes of a function**, if none of
its values was known to stand for a result. -/
theorem explained (h : (lower s f).failure = none) (nodup : f.definedValues.Nodup)
    (new : ∀ v ∈ f.definedValues, s.tracker.resolveAs? .result (.value v) = none)
    (single : s.tracker.All fun r => r.width = 1)
    (assigns : Assigns (lower s f).stock.tracker f a) :
    Explained a f (lower s f).function := by
  obtain ⟨ds, gone, decides, finished⟩ := exists_lowered h
  have single' := all_single_of_decides decides single
  refine ⟨_, _, ⟨fun v o => address?_isConstant, fun v hv => ?_, fun e he => ?_⟩, finished.eq⟩
  · refine address?_of_none ?_
    rw [← new v (List.mem_append_left _ hv)]
    exact Tracker.resolveAs?_value_congr (decides.frame_params frames_judge nodup hv)
  · exact becomes decides finished nodup new single' assigns he

end ResultLowering

end QuantumLowering
