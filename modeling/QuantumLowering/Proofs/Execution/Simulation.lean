import QuantumLowering.Proofs.Execution.Basic
import QuantumLowering.Proofs.Lowering.Removal
/-!
# Executing a lowered function

A lowered function makes the calls of the function it comes from, with
addresses in place of what was acquired. The condition on the instructions
is `Execution.Becomes`, local to each of them: a table of addresses
explains what became of it. What carries the proof is that the table is
right about every value of an execution (`Execution.Agrees`), on whatever
walk it was computed.
-/


namespace QuantumLowering

/-- The addresses given to acquisitions and to measurements. -/
structure Addresses where
  /-- The addresses of acquired qubits. -/
  qubit : ValueId → Option Handle
  /-- The addresses of results. -/
  result : ValueId → Option Handle

namespace Execution

/-- Whether a call acquires a qubit or releases one. -/
def Event.managesQubits (e : Event) : Bool :=
  (e.callee = Intrinsics.acquireQubit && e.result.isSome) ||
    (e.callee = Intrinsics.releaseQubit && e.result.isNone)

end Execution

namespace Addresses

open Execution

/-- What a datum becomes: what was acquired becomes its address. -/
def relocate (a : Addresses) : Datum → Datum
  | .computed v n =>
    match a.qubit v, a.result v with
    | some h, _ => .constant (.qubit h)
    | none, some h => .constant (.result h)
    | none, none => .computed v n
  | d => d

/-- What a call becomes: a measurement into a result, if it has one, and
else the same call. -/
def relocateEvent (a : Addresses) (e : Event) : Event :=
  match e.result.bind a.result with
  | some h => ⟨Intrinsics.measureInto, e.args.map a.relocate ++ [.constant (.result h)], none⟩
  | none => ⟨e.callee, e.args.map a.relocate, e.result⟩

/-- **Calls follow others** if they are what these become, except that some
that manage qubits are not made any more. -/
inductive Follows (a : Addresses) : List Event → List Event → Prop
  /-- No call. -/
  | nil : Follows a [] []
  /-- A call becomes another one. -/
  | keep {e : Event} {es es' : List Event} :
    (a.relocateEvent e).managesQubits = e.managesQubits → Follows a es es' →
      Follows a (e :: es) (a.relocateEvent e :: es')
  /-- A call that manages qubits is not made any more. -/
  | drop {e : Event} {es es' : List Event} :
    e.managesQubits → Follows a es es' → Follows a (e :: es) es'

namespace Follows

variable {a : Addresses} {es es' fs fs' : List Event}

theorem append (h : a.Follows es es') (k : a.Follows fs fs') :
    a.Follows (es ++ fs) (es' ++ fs') := by
  induction h with
  | nil => exact k
  | keep he _ ih => exact .keep he ih
  | drop he _ ih => exact .drop he ih

theorem sublist (h : a.Follows es es') : es'.Sublist (es.map a.relocateEvent) := by
  induction h with
  | nil => exact .slnil
  | keep _ _ ih => exact ih.cons_cons _
  | drop _ _ ih => exact ih.cons _

/-- But for the calls that manage qubits, they are the same. -/
theorem filter_eq (h : a.Follows es es') :
    es'.filter (fun e => !e.managesQubits) =
      (es.filter fun e => !e.managesQubits).map a.relocateEvent := by
  induction h with
  | nil => rfl
  | @keep e _ _ he _ ih => cases hm : e.managesQubits <;> simp [he, hm, ih]
  | drop he _ ih => simp [he, ih]

end Follows

end Addresses

namespace Execution

variable {T : ValueId → Option Operand} {a : Addresses}

/-! ## What may become of an instruction -/

/-- **What may become of an instruction**, given a table of addresses for
values and the addresses of acquisitions and measurements. -/
inductive Becomes (T : ValueId → Option Operand) (a : Addresses) :
    Instruction → Option Instruction → Prop
  /-- It stays, with addresses in place of values. -/
  | kept {i : Instruction} :
    (∀ v, i.result = some v → T v = none ∧ a.qubit v = none ∧ a.result v = none) →
      Becomes T a i (some (i.mapOperands (Operand.substitute T)))
  /-- An acquisition has an address. -/
  | acquired {v : ValueId} {ty : Ty} {args : List Operand} {h : Handle} :
    a.qubit v = some h → T v = some (.qubit h) →
      Becomes T a ⟨some v, ty, .call Intrinsics.acquireQubit args⟩ none
  /-- A release is not needed. -/
  | released {ty : Ty} {args : List Operand} :
    Becomes T a ⟨none, ty, .call Intrinsics.releaseQubit args⟩ none
  /-- A copy has the address of its source. -/
  | copied {v : ValueId} {ty : Ty} {source o : Operand} :
    T v = some o → source.substitute T = o → Becomes T a ⟨some v, ty, .copy source⟩ none
  /-- A phi has the address of all its sources. -/
  | joined {v : ValueId} {ty : Ty} {incoming : List (BlockId × Operand)} {o : Operand} :
    T v = some o → (∀ e ∈ incoming, e.2.substitute T = o) →
      Becomes T a ⟨some v, ty, .phi incoming⟩ none
  /-- A measurement has an address for its result. -/
  | measured {v : ValueId} {qubit : Operand} {h : Handle} :
    a.qubit v = none → a.result v = some h → T v = some (.result h) →
      Becomes T a ⟨some v, .result, .call Intrinsics.measure [qubit]⟩
        (some (.call Intrinsics.measureInto [qubit.substitute T, .result h]))

/-! ## Values -/

/-- **The table is right about values**: one that has an address stands for
it, and one that has none stands for the same in the lowered function. -/
def Agrees (T : ValueId → Option Operand) (a : Addresses) (values values' : Values) : Prop :=
  ∀ v d, values v = some d →
    (∀ o, T v = some o → a.relocate d = .constant o) ∧
      (T v = none → values' v = some (a.relocate d))

theorem eval_constant {values : Values} {o : Operand} (ho : o.isConstant) :
    eval values o = some (.constant o) := by
  cases o <;> first | rfl | simp [Operand.isConstant, Operand.value?] at ho

section Operands

variable {values values' : Values}

/-- Operands stand for the same, relocated. -/
theorem Agrees.eval (hc : ∀ v o, T v = some o → o.isConstant) (h : Agrees T a values values')
    {o : Operand} {d : Datum} (hd : eval values o = some d) :
    Execution.eval values' (o.substitute T) = some (a.relocate d) := by
  cases o with
  | value v =>
    obtain ⟨known, unknown⟩ := h v d hd
    rw [Operand.substitute_value]
    cases hv : T v with
    | none => exact unknown hv
    | some c =>
      rw [known c hv]
      exact eval_constant (hc v c hv)
  | _ =>
    cases hd
    rfl

/-- An operand that has an address stands for it. -/
theorem Agrees.relocate_eq (hc : ∀ v o, T v = some o → o.isConstant)
    (h : Agrees T a values values') {o c : Operand} {d : Datum}
    (hd : Execution.eval values o = some d) (ho : o.substitute T = c) (hconst : c.isConstant) :
    a.relocate d = .constant c := by
  have := h.eval hc hd
  rw [ho, eval_constant hconst] at this
  exact (Option.some.inj this).symm

/-- Several operands stand for the same, relocated. -/
theorem Agrees.mapM_eval (hc : ∀ v o, T v = some o → o.isConstant) (h : Agrees T a values values')
    {ops : List Operand} {ds : List Datum} (hd : ops.mapM (Execution.eval values) = some ds) :
    (ops.map (Operand.substitute T)).mapM (Execution.eval values') =
      some (ds.map a.relocate) := by
  induction ops generalizing ds with
  | nil =>
    cases hd
    rfl
  | cons o ops ih =>
    simp only [List.mapM_cons, Option.pure_def, Option.bind_eq_bind, Option.bind_eq_some_iff,
      Option.some.injEq] at hd
    obtain ⟨d, ho, ds', hops, rfl⟩ := hd
    simp only [List.map_cons, List.mapM_cons, h.eval hc ho, ih hops]
    rfl

end Operands

/-! ## Steps -/

/-- **Two executions correspond**: of a function and of what it was lowered
to. -/
structure Simulates (T : ValueId → Option Operand) (a : Addresses) (s s' : State) : Prop where
  /-- The table is right about values. -/
  values : Agrees T a s.values s'.values
  /-- The calls follow. -/
  events : a.Follows s.events s'.events

variable {s s' s₁ : State} {i : Instruction} {at₀ at₁ : Arrival}

/-- A value that has an address is computed only by the function lowering
comes from. -/
theorem Simulates.set_left (h : Simulates T a s s') {v : ValueId} {o : Operand}
    {d : ValueId → Datum} (hv : T v = some o) (hd : a.relocate (d v) = .constant o) :
    Simulates T a (s.set (some v) d) s' where
  values u e hu := by
    by_cases huv : u = v
    · subst huv
      obtain rfl : d u = e := by simpa [State.set] using hu
      exact ⟨fun o' ho' => by rw [hd, Option.some.inj (hv.symm.trans ho')],
        fun hn => by simp [hv] at hn⟩
    · exact h.values u e (by simpa [State.set, huv] using hu)
  events := h.events

/-- A value that has no address is computed by both. -/
theorem Simulates.set_both (h : Simulates T a s s') {result : Option ValueId}
    {d d' : ValueId → Datum} (hv : ∀ v, result = some v → T v = none ∧ a.relocate (d v) = d' v) :
    Simulates T a (s.set result d) (s'.set result d') := by
  cases result with
  | none => exact h
  | some v =>
    obtain ⟨hT, hd⟩ := hv v rfl
    refine ⟨fun u e hu => ?_, h.events⟩
    by_cases huv : u = v
    · subst huv
      obtain rfl : d u = e := by simpa [State.set] using hu
      exact ⟨fun o ho => by simp [hT] at ho, fun _ => by simp [State.set, hd]⟩
    · obtain ⟨known, unknown⟩ := h.values u e (by simpa [State.set, huv] using hu)
      exact ⟨known, fun hn => by simpa [State.set, huv] using unknown hn⟩

/-- A call that manages qubits is made by the function lowering comes from
only. -/
theorem Simulates.event_left (h : Simulates T a s s') {e : Event} (he : e.managesQubits) :
    Simulates T a (s.record e) s' := by
  refine ⟨h.values, ?_⟩
  simpa [State.record] using h.events.append (.drop he .nil)

/-- A call is made by both. -/
theorem Simulates.event_both (h : Simulates T a s s') {e e' : Event}
    (he : a.relocateEvent e = e') (hm : e'.managesQubits = e.managesQubits) :
    Simulates T a (s.record e) (s'.record e') := by
  subst he
  exact ⟨h.values, h.events.append (.keep hm .nil)⟩

variable {values' : Values}

theorem mem_of_lookup {α β : Type} [BEq α] [LawfulBEq α] {k : α} {b : β} {l : List (α × β)}
    (h : l.lookup k = some b) : (k, b) ∈ l := by
  obtain ⟨l₁, l₂, rfl, -⟩ := List.lookup_eq_some_iff.1 h
  simp

/-- An instruction that goes did nothing but manage qubits and compute what
has an address. -/
theorem Becomes.step_none (hc : ∀ v o, T v = some o → o.isConstant) (hb : Becomes T a i none)
    (h : Simulates T a s s') (ha : Agrees T a at₀.values values')
    (hs : step at₀ s i = some s₁) : Simulates T a s₁ s' := by
  cases hb with
  | @acquired v ty args address hq hT =>
    obtain ⟨ds, -, rfl⟩ := Option.map_eq_some_iff.1 hs
    -- what is acquired has its address on every visit, so it need not be computed
    have hd : a.relocate (.computed v at₀.visit) = .constant (.qubit address) := by
      simp [Addresses.relocate, hq]
    exact (h.set_left hT hd).event_left rfl
  | released =>
    obtain ⟨ds, -, rfl⟩ := Option.map_eq_some_iff.1 hs
    exact h.event_left rfl
  | copied hT ho =>
    obtain ⟨d, hd, rfl⟩ := Option.map_eq_some_iff.1 hs
    exact h.set_left hT (h.values.relocate_eq hc hd ho (hc _ _ hT))
  | joined hT ho =>
    obtain ⟨d, hd, rfl⟩ := Option.map_eq_some_iff.1 hs
    -- whichever block control came from, what it brings has the address
    obtain ⟨source, hsource, hd⟩ := Option.bind_eq_some_iff.1 hd
    obtain ⟨b, -, hb⟩ := Option.bind_eq_some_iff.1 hsource
    exact h.set_left hT (ha.relocate_eq hc hd (ho _ (mem_of_lookup hb)) (hc _ _ hT))

/-- What stays of a phi reads from the same block. -/
theorem lookup_map_snd {α β γ : Type} [BEq α] (g : β → γ) (k : α) (l : List (α × β)) :
    (l.map fun e => (e.1, g e.2)).lookup k = (l.lookup k).map g := by
  induction l with
  | nil => rfl
  | cons e l ih =>
    obtain ⟨b, c⟩ := e
    simp only [List.map_cons, List.lookup_cons]
    cases k == b with
    | true => rfl
    | false => exact ih

/-- An instruction that stays does the same. -/
theorem step_kept (hc : ∀ v o, T v = some o → o.isConstant)
    (hr : ∀ v, i.result = some v → T v = none ∧ a.qubit v = none ∧ a.result v = none)
    (h : Simulates T a s s') (ha : Agrees T a at₀.values values') (hs : step at₀ s i = some s₁) :
    ∃ s₁', step { at₀ with values := values' } s' (i.mapOperands (Operand.substitute T)) =
      some s₁' ∧ Simulates T a s₁ s₁' := by
  obtain ⟨result, ty, operation⟩ := i
  cases operation with
  | call callee args =>
    obtain ⟨ds, hds, rfl⟩ := Option.map_eq_some_iff.1 hs
    refine ⟨_, Option.map_eq_some_iff.2 ⟨_, h.values.mapM_eval hc hds, rfl⟩, ?_⟩
    have hset : Simulates T a (s.set result fun v => .computed v at₀.visit)
        (s'.set result fun v => .computed v at₀.visit) := by
      refine h.set_both fun v hv => ?_
      obtain ⟨hT, hq, hm⟩ := hr v hv
      exact ⟨hT, by simp [Addresses.relocate, hq, hm]⟩
    refine hset.event_both ?_ rfl
    cases result with
    | none => rfl
    | some v => simp [Addresses.relocateEvent, (hr v rfl).2.2]
  | copy source =>
    obtain ⟨d, hd, rfl⟩ := Option.map_eq_some_iff.1 hs
    refine ⟨_, Option.map_eq_some_iff.2 ⟨_, h.values.eval hc hd, rfl⟩, ?_⟩
    exact h.set_both fun v hv => ⟨(hr v hv).1, rfl⟩
  | phi incoming =>
    obtain ⟨d, hd, rfl⟩ := Option.map_eq_some_iff.1 hs
    obtain ⟨source, hsource, hd⟩ := Option.bind_eq_some_iff.1 hd
    obtain ⟨b, hb, hlookup⟩ := Option.bind_eq_some_iff.1 hsource
    refine ⟨s'.set result fun _ => a.relocate d, ?_, h.set_both fun v hv => ⟨(hr v hv).1, rfl⟩⟩
    simp [step, Instruction.mapOperands, Operation.mapOperands, hb, lookup_map_snd, hlookup,
      ha.eval hc hd]

/-- An instruction that stays in some form does the same in that form. -/
theorem Becomes.step_some (hc : ∀ v o, T v = some o → o.isConstant) {j : Instruction}
    (hb : Becomes T a i (some j)) (h : Simulates T a s s') (ha : Agrees T a at₀.values values')
    (hs : step at₀ s i = some s₁) :
    ∃ s₁', step { at₀ with values := values' } s' j = some s₁' ∧ Simulates T a s₁ s₁' := by
  cases hb with
  | kept hr => exact step_kept hc hr h ha hs
  | @measured v qubit address hq hr hT =>
    obtain ⟨ds, hds, rfl⟩ := Option.map_eq_some_iff.1 hs
    have hd : a.relocate (.computed v at₀.visit) = .constant (.result address) := by
      simp [Addresses.relocate, hq, hr]
    have hset : Simulates T a (s.set (some v) fun v => .computed v at₀.visit) s' :=
      h.set_left hT hd
    -- the qubit is read as before, and where the result goes is a constant
    have hargs : [qubit.substitute T, .result address].mapM (eval s'.values) =
        some (ds.map a.relocate ++ [.constant (.result address)]) := by
      have := h.values.mapM_eval hc hds
      simp only [List.map_cons, List.map_nil, List.mapM_cons, List.mapM_nil, Option.pure_def,
        Option.bind_eq_bind, Option.bind_eq_some_iff, Option.some.injEq] at this ⊢
      obtain ⟨d, hd, ds', rfl, hds'⟩ := this
      exact ⟨d, hd, _, ⟨.constant (.result address), rfl, [], rfl, rfl⟩, by rw [← hds']; rfl⟩
    refine ⟨_, Option.map_eq_some_iff.2 ⟨_, hargs, rfl⟩, ?_⟩
    refine hset.event_both ?_ ?_
    · simp [Addresses.relocateEvent, hr, Instruction.call]
    · simp [Event.managesQubits, Instruction.call, Intrinsics.measureInto, Intrinsics.measure,
        Intrinsics.acquireQubit, Intrinsics.releaseQubit]

/-! ## Walks -/

/-- A block of a lowered function does what the block does. -/
theorem foldlM_simulates (hc : ∀ v o, T v = some o → o.isConstant)
    {fate : Site × Instruction → Option Instruction} {l : List (Site × Instruction)}
    (hl : ∀ e ∈ l, Becomes T a e.2 (fate e)) (ha : Agrees T a at₀.values values')
    (h : Simulates T a s s') (hs : (l.map Prod.snd).foldlM (step at₀) s = some s₁) :
    ∃ s₁', (l.filterMap fate).foldlM (step { at₀ with values := values' }) s' = some s₁' ∧
      Simulates T a s₁ s₁' := by
  induction l generalizing s s' with
  | nil =>
    cases hs
    exact ⟨s', rfl, h⟩
  | cons e l ih =>
    rw [List.map_cons, List.foldlM_cons] at hs
    obtain ⟨s₂, hstep, hs⟩ := Option.bind_eq_some_iff.1 hs
    have he := hl e List.mem_cons_self
    have hl := fun d hd => hl d (List.mem_cons_of_mem e hd)
    cases hf : fate e with
    | none =>
      rw [List.filterMap_cons_none hf]
      exact ih hl (Becomes.step_none hc (hf ▸ he) h ha hstep) hs
    | some j =>
      obtain ⟨s₂', hstep', h₂⟩ := Becomes.step_some hc (hf ▸ he) h ha hstep
      obtain ⟨s₁', hs', h₁⟩ := ih hl h₂ hs
      rw [List.filterMap_cons_some hf, List.foldlM_cons]
      exact ⟨s₁', by simp [hstep', hs'], h₁⟩

/-- Control comes to a block of a changed function from the same block. -/
theorem arrival_rewrite {f : Function} {fate : Site × Instruction → Option Instruction}
    {σ : Operand → Operand} (w : List ℕ) (s s' : State) :
    (f.rewrite fate σ).arrival w s' = { f.arrival w s with values := s'.values } := by
  have : (f.rewrite fate σ).idAt? = f.idAt? := by
    funext k
    rw [Function.idAt?, Function.getElem?_blocks_rewrite, Option.map_map]
    rfl
  rw [Function.arrival, Function.arrival, this]

/-- **A function that a table of addresses explains**: what became of its
instructions, and that parameters have no address. -/
structure Explains (T : ValueId → Option Operand) (a : Addresses) (f : Function)
    (fate : Site × Instruction → Option Instruction) : Prop where
  /-- Addresses are constants. -/
  constant : ∀ v o, T v = some o → o.isConstant
  /-- Parameters have none. -/
  params : ∀ v ∈ f.params.map Param.value, T v = none
  /-- What became of an instruction. -/
  becomes : ∀ e ∈ f.located, Becomes T a e.2 (fate e)

/-- **A lowered function corresponds on every walk.** -/
theorem Explains.execute {f : Function} {fate : Site × Instruction → Option Instruction}
    (ex : Explains T a f fate) (w : List ℕ) {s : State} (h : f.execute w = some s) :
    ∃ s', (f.rewrite fate (Operand.substitute T)).execute w = some s' ∧ Simulates T a s s' := by
  induction w generalizing s with
  | nil =>
    cases h
    -- only parameters have values at the start, and they have no address
    refine ⟨_, rfl, fun v d hv => ?_, .nil⟩
    simp only [Function.start] at hv ⊢
    split at hv
    · rename_i hp
      cases hv
      refine ⟨fun o ho => by simp [ex.params v hp] at ho, fun _ => ?_⟩
      exact if_pos hp
    · cases hv
  | cons k w ih =>
    obtain ⟨s₀, h₀, h⟩ := Option.bind_eq_some_iff.1 h
    obtain ⟨b, hb, h⟩ := Option.bind_eq_some_iff.1 h
    -- phis read what the walk so far has left, which corresponds by induction
    obtain ⟨s₀', h₀', sim⟩ := ih h₀
    rw [← Block.map_snd_located (k := k)] at h
    obtain ⟨s', hs', sim'⟩ := foldlM_simulates ex.constant
      (fun e he => ex.becomes e (Function.mem_located_of_block hb he)) sim.values sim h
    refine ⟨s', ?_, sim'⟩
    simp only [Function.execute, h₀', Function.getElem?_blocks_rewrite, hb, Option.map_some,
      Option.bind_some]
    rw [arrival_rewrite w s₀ s₀']
    exact hs'

/-! ## Functions -/

/-- **A function corresponds to a lowered one**: on each of its walks that
can be executed, the lowered function makes the calls that follow, and its
terminators read the same, relocated. -/
structure Corresponds (a : Addresses) (f g : Function) : Prop where
  /-- The walks of the function are walks of the lowered one. -/
  walk : ∀ w, f.Walk w → g.Walk w
  /-- They can be executed there if they can be executed at all. -/
  execute : ∀ w s, f.execute w = some s → ∃ s', g.execute w = some s' ∧
    a.Follows s.events s'.events ∧
      ∀ ds, f.exitData w s = some ds → g.exitData w s' = some (ds.map a.relocate)

theorem Explains.corresponds {f : Function} {fate : Site × Instruction → Option Instruction}
    (ex : Explains T a f fate) :
    Corresponds a f (f.rewrite fate (Operand.substitute T)) where
  walk _ h := h.congr Function.shape_rewrite
  execute w s h := by
    obtain ⟨s', hs', sim⟩ := ex.execute w h
    refine ⟨s', hs', sim.events, fun ds hds => ?_⟩
    obtain ⟨b, hb, hds⟩ := Option.bind_eq_some_iff.1 hds
    obtain ⟨k, hk, hb⟩ := Option.bind_eq_some_iff.1 hb
    simp only [Function.exitData, hk, Option.bind_some, Function.getElem?_blocks_rewrite, hb,
      Option.map_some, Block.exitOperands_rewrite]
    exact sim.values.mapM_eval ex.constant hds

/-- **A function lowers to another as a table explains.** -/
def Explained (a : Addresses) (f g : Function) : Prop :=
  ∃ T fate, Explains T a f fate ∧ g = f.rewrite fate (Operand.substitute T)

namespace Explained

variable {f g : Function}

/-- No addresses are needed where nothing changes. -/
theorem refl (f : Function) : Explained ⟨fun _ => none, fun _ => none⟩ f f := by
  have hσ : Operand.substitute (fun _ => none) = id := by
    funext o
    cases o <;> rfl
  refine ⟨fun _ => none, fun e => some e.2, ⟨fun v o h => (by cases h), fun _ _ => rfl, ?_⟩, ?_⟩
  · intro e _
    have kept : Becomes (fun _ => none) ⟨fun _ => none, fun _ => none⟩ e.2
        (some (e.2.mapOperands (Operand.substitute fun _ => none))) :=
      .kept fun _ _ => ⟨rfl, rfl, rfl⟩
    rwa [hσ, Instruction.mapOperands_id] at kept
  · rw [hσ, Function.rewrite_id]

theorem corresponds (h : Explained a f g) : Corresponds a f g := by
  obtain ⟨T, fate, ex, rfl⟩ := h
  exact ex.corresponds

theorem name (h : Explained a f g) : g.name = f.name := by
  obtain ⟨T, fate, ex, rfl⟩ := h
  rfl

/-- An instruction that still computes a value did so before, and the value
has no address. -/
theorem exists_of_result (h : Explained a f g) {j : Instruction} (hj : j ∈ g.instructions)
    {v : ValueId} (hv : j.result = some v) :
    ∃ i ∈ f.instructions, (∃ σ, j = i.mapOperands σ) ∧ i.result = some v ∧
      a.qubit v = none ∧ a.result v = none := by
  obtain ⟨T, fate, ex, rfl⟩ := h
  obtain ⟨⟨x, i⟩, he, hfate⟩ := Function.mem_instructions_rewrite.1 hj
  have hb := ex.becomes _ he
  rw [hfate] at hb
  cases hb with
  | kept hr => exact ⟨i, Function.mem_instructions.2 ⟨x, he⟩, ⟨_, rfl⟩, hv, (hr v hv).2⟩
  | measured => cases hv

/-- A measurement without an address stays. -/
theorem exists_of_measures (h : Explained a f g) {i : Instruction} (hi : i ∈ f.instructions)
    (hm : i.isCallTo Intrinsics.measure) {v : ValueId} (hv : i.result = some v)
    (hr : a.result v = none) : ∃ σ, i.mapOperands σ ∈ g.instructions := by
  obtain ⟨T, fate, ex, rfl⟩ := h
  obtain ⟨x, hx⟩ := Function.mem_instructions.1 hi
  have hb := ex.becomes _ hx
  have stays : ∀ j, fate (x, i) = some j →
      j ∈ (f.rewrite fate (Operand.substitute T)).instructions :=
    fun j hj => Function.mem_instructions_rewrite.2 ⟨_, hx, hj⟩
  generalize fate (x, i) = o at hb stays
  cases hb with
  | kept => exact ⟨_, stays _ rfl⟩
  | measured _ hm' =>
    obtain rfl := Option.some.inj hv
    rw [hr] at hm'
    cases hm'
  | released => cases hv
  | _ => cases hm

end Explained

/-! ## One lowering after another -/

section Compose

variable {q r : ValueId → Option Handle}

/-- Addresses of qubits and then of results are addresses of both. -/
theorem relocate_relocate (d : Datum) :
    Addresses.relocate ⟨fun _ => none, r⟩ (Addresses.relocate ⟨q, fun _ => none⟩ d) =
      Addresses.relocate ⟨q, r⟩ d := by
  cases d with
  | computed v n => cases hq : q v <;> simp [Addresses.relocate, hq]
  | _ => rfl

theorem relocateEvent_relocateEvent (e : Event) :
    Addresses.relocateEvent ⟨fun _ => none, r⟩ (Addresses.relocateEvent ⟨q, fun _ => none⟩ e) =
      Addresses.relocateEvent ⟨q, r⟩ e := by
  obtain ⟨callee, args, result⟩ := e
  have hargs : (args.map (Addresses.relocate ⟨q, fun _ => none⟩)).map
      (Addresses.relocate ⟨fun _ => none, r⟩) = args.map (Addresses.relocate ⟨q, r⟩) := by
    rw [List.map_map]
    exact List.map_congr_left fun d _ => relocate_relocate d
  have hfirst : Addresses.relocateEvent ⟨q, fun _ => none⟩ ⟨callee, args, result⟩ =
      ⟨callee, args.map (Addresses.relocate ⟨q, fun _ => none⟩), result⟩ := by
    cases result <;> rfl
  rw [hfirst]
  simp only [Addresses.relocateEvent, hargs]

theorem follows_trans {es es' es'' : List Event}
    (h : Addresses.Follows ⟨q, fun _ => none⟩ es es')
    (k : Addresses.Follows ⟨fun _ => none, r⟩ es' es'') :
    Addresses.Follows ⟨q, r⟩ es es'' := by
  induction h generalizing es'' with
  | nil =>
    cases k
    exact .nil
  | @keep e _ _ hm _ ih =>
    cases k with
    | keep hm' k =>
      rw [relocateEvent_relocateEvent] at hm' ⊢
      exact .keep (hm'.trans hm) (ih k)
    | drop hm' k => exact .drop (hm ▸ hm') (ih k)
  | drop hm _ ih => exact .drop hm (ih k)

/-- **Lowering qubits and then results.** -/
theorem Corresponds.trans {f g g' : Function} (h : Corresponds ⟨q, fun _ => none⟩ f g)
    (k : Corresponds ⟨fun _ => none, r⟩ g g') : Corresponds ⟨q, r⟩ f g' where
  walk w hw := k.walk w (h.walk w hw)
  execute w s hs := by
    obtain ⟨s', hs', follows, exits⟩ := h.execute w s hs
    obtain ⟨s'', hs'', follows', exits'⟩ := k.execute w s' hs'
    refine ⟨s'', hs'', follows_trans follows follows', fun ds hds => ?_⟩
    rw [exits' _ (exits ds hds), List.map_map]
    exact congrArg some (List.map_congr_left fun d _ => relocate_relocate d)

end Compose

end Execution

end QuantumLowering
