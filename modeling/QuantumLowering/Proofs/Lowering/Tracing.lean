import QuantumLowering.Proofs.Lowering.Dominance
import QuantumLowering.Proofs.Lowering.Qubits
import QuantumLowering.Proofs.Lowering.Results
/-!
# Values that trace back to a source

A value traces back to an acquisition or a measurement if copies and phis
of its type lead there from it, and all lead to the same. Where
instructions are visited in order, lowering finds what such a value stands
for (`Lowering.Visit.standsFor`): whatever an operand stands for in the
end, it stood for already when it was read.
-/


namespace QuantumLowering

/-- **A value traces back to a source**, an instruction of a function that
computes another value. -/
inductive Function.TracesTo (f : Function) (kind : ResourceKind) (isSource : Instruction → Bool)
    (v : ValueId) : ValueId → Prop
  /-- The source computes it. -/
  | source {i : Instruction} :
    i ∈ f.instructions → isSource i → i.result = some v → TracesTo f kind isSource v v
  /-- It is a copy of one that does. -/
  | copy {u w : ValueId} :
    ⟨some u, kind.valueType, .copy (.value w)⟩ ∈ f.instructions →
      TracesTo f kind isSource v w → TracesTo f kind isSource v u
  /-- It joins some that do. -/
  | phi {u : ValueId} {incoming : List (BlockId × Operand)} {ws : List ValueId} :
    ⟨some u, kind.valueType, .phi incoming⟩ ∈ f.instructions →
    incoming.map Prod.snd = ws.map Operand.value → ws ≠ [] →
    (∀ w ∈ ws, TracesTo f kind isSource v w) → TracesTo f kind isSource v u

/-- Whatever traces back to a source leads to one. -/
theorem Function.TracesTo.exists_source {f : Function} {kind : ResourceKind}
    {isSource : Instruction → Bool} {v u : ValueId} (h : f.TracesTo kind isSource v u) :
    ∃ i ∈ f.instructions, isSource i ∧ i.result = some v := by
  induction h with
  | source hi hs hv => exact ⟨_, hi, hs, hv⟩
  | copy _ _ ih => exact ih
  | @phi _ _ ws _ _ hne _ ih =>
    obtain ⟨w, hw⟩ := List.exists_mem_of_ne_nil ws hne
    exact ih w hw

namespace Lowering

variable {α : Type} {step : Stock → Instruction → Draw α} {kind : ResourceKind}
variable {isSource : Instruction → Bool} {s s' : Stock} {f : Function} {ds : List (Site × α)}

/-! ## What was read stays -/

namespace Decides.Visit

variable {e : Site × Instruction} {s₁ s₂ : Stock} {a : α}

/-- Where instructions are in order, an operand stood for the same when it
was read as in the end. -/
theorem resolveAs?_operand (kind : ResourceKind) (visit : Visit step s f ds s' e s₁ s₂ a)
    (inOrder : f.InOrder) {op : Operand} (hop : op ∈ e.2.operands) :
    s₁.tracker.resolveAs? kind op = s'.tracker.resolveAs? kind op := by
  obtain ⟨l₁, l₂, hl, stays⟩ := visit.stays
  have he : e ∈ f.located := Function.mem_visited.1 (by simp [hl])
  have later := inOrder.later
  rw [hl] at later
  refine Tracker.resolveAs?_congr fun u hu => (stays u fun d hd hdu => ?_).symm
  -- whatever is visited from here on does not compute what the instruction reads
  have reads : e.2.ReadsFrom d.2 := ⟨u, mem_readValues.2 (hu ▸ hop), hdu⟩
  rcases List.mem_cons.1 hd with rfl | hd
  · exact inOrder.itself d he reads
  · exact (List.pairwise_cons.1 (List.pairwise_append.1 later).2.1).1 d hd reads

theorem joinAs?_operands (visit : Visit step s f ds s' e s₁ s₂ a) (inOrder : f.InOrder)
    {ops : List Operand} (hops : ops ⊆ e.2.operands) :
    s₁.tracker.joinAs? kind ops = s'.tracker.joinAs? kind ops := by
  refine Option.ext fun r => ?_
  rw [Tracker.joinAs?_eq_some_iff, Tracker.joinAs?_eq_some_iff]
  refine and_congr_right fun _ => forall₂_congr fun op hop => ?_
  rw [visit.resolveAs?_operand kind inOrder (hops hop)]

end Decides.Visit

/-! ## What values stand for -/

/-- **A lowering derives values**: a source gets an address, a copy stands
for what its operand stands for, and a phi for what all of its operands
do. -/
structure Derives (kind : ResourceKind) (isSource : Instruction → Bool)
    (step : Stock → Instruction → Draw α) : Prop where
  /-- A source gets an address. -/
  source : ∀ s i s' a, step s i = (s', .ok a) → isSource i → ∀ v, i.result = some v →
    ∃ h, s'.tracker.resolve? v = some (.single kind h)
  /-- A copy stands for what its operand stands for. -/
  copy : ∀ s v o s' a, step s ⟨some v, kind.valueType, .copy o⟩ = (s', .ok a) →
    s'.tracker.resolve? v = s.tracker.resolveAs? kind o
  /-- A phi stands for what all of its operands stand for. -/
  phi : ∀ s v incoming s' a, step s ⟨some v, kind.valueType, .phi incoming⟩ = (s', .ok a) →
    s'.tracker.resolve? v = s.tracker.joinAs? kind (incoming.map Prod.snd)

theorem resolveAs?_of_single {t : Tracker} {v : ValueId} {h : Handle}
    (hv : t.resolve? v = some (.single kind h)) :
    t.resolveAs? kind (.value v) = some (.single kind h) :=
  Tracker.resolveAs?_eq_some_iff.2 ⟨hv, rfl⟩

/-- **What traces back to a source stands for its address.** -/
theorem Decides.standsFor (h : Decides step s f.visited ds s') (frames : Frames step)
    (derives : Derives kind isSource step) (nodup : f.definedValues.Nodup) (inOrder : f.InOrder)
    {v u : ValueId} (traces : f.TracesTo kind isSource v u) :
    ∃ handle, s'.tracker.resolve? v = some (.single kind handle) ∧
      s'.tracker.resolve? u = some (.single kind handle) := by
  induction traces with
  | source hi hs hv =>
    obtain ⟨x, he⟩ := Function.mem_instructions.1 hi
    obtain ⟨s₁, s₂, a, visit⟩ := h.exists_visit frames nodup he
    obtain ⟨handle, hh⟩ := derives.source _ _ _ _ visit.step hs v hv
    exact ⟨handle, (visit.result v hv).trans hh, (visit.result v hv).trans hh⟩
  | @copy u w hi _ ih =>
    obtain ⟨x, he⟩ := Function.mem_instructions.1 hi
    obtain ⟨s₁, s₂, a, visit⟩ := h.exists_visit frames nodup he
    obtain ⟨handle, hv, hw⟩ := ih
    refine ⟨handle, hv, ?_⟩
    rw [visit.result u rfl, derives.copy _ _ _ _ _ visit.step,
      visit.resolveAs?_operand kind inOrder (List.mem_singleton_self _)]
    exact resolveAs?_of_single hw
  | @phi u incoming ws hi hops hne _ ih =>
    obtain ⟨x, he⟩ := Function.mem_instructions.1 hi
    obtain ⟨s₁, s₂, a, visit⟩ := h.exists_visit frames nodup he
    -- all operands trace back to one source, so any of them tells the address of all
    obtain ⟨w₀, hw₀⟩ := List.exists_mem_of_ne_nil ws hne
    obtain ⟨handle, hv, -⟩ := ih w₀ hw₀
    refine ⟨handle, hv, ?_⟩
    have all : incoming.map Prod.snd ⊆
        Instruction.operands ⟨some u, kind.valueType, .phi incoming⟩ := List.Subset.refl _
    rw [visit.result u rfl, derives.phi _ _ _ _ _ visit.step, visit.joinAs?_operands inOrder all,
      Tracker.joinAs?_eq_some_iff, hops]
    refine ⟨by simpa using hne, fun op hop => ?_⟩
    obtain ⟨w, hw, rfl⟩ := List.mem_map.1 hop
    obtain ⟨handle', hv', hw'⟩ := ih w hw
    obtain rfl : handle' = handle := by simpa [hv, Resource.single] using hv'.symm
    exact resolveAs?_of_single hw'

end Lowering

/-! ## Qubits -/

/-- Whether an instruction acquires a qubit and names it. -/
def Instruction.acquiresQubit (i : Instruction) : Bool :=
  i.isCallTo Intrinsics.acquireQubit && i.result.isSome && i.type = .qubit

namespace QubitLowering

theorem acquiresQubit_iff {i : Instruction} :
    i.acquiresQubit ↔ ∃ v args, i = ⟨some v, .qubit, .call Intrinsics.acquireQubit args⟩ := by
  constructor
  · intro h
    obtain ⟨result, ty, operation⟩ := i
    obtain ⟨⟨hcall, hresult⟩, hty⟩ : (Instruction.isCallTo ⟨result, ty, operation⟩
        Intrinsics.acquireQubit ∧ result.isSome) ∧ ty = .qubit := by
      simpa [Instruction.acquiresQubit] using h
    obtain ⟨v, rfl⟩ := Option.isSome_iff_exists.1 hresult
    subst hty
    cases operation with
    | call callee args =>
      obtain rfl : callee = Intrinsics.acquireQubit := by
        simpa [Instruction.isCallTo, Instruction.callee?] using hcall
      exact ⟨v, args, rfl⟩
    | _ => cases hcall
  · rintro ⟨v, args, rfl⟩
    simp [Instruction.acquiresQubit, Instruction.isCallTo, Instruction.callee?]

/-- Lowering qubits derives values of qubits. -/
theorem derives_judge {honored : Bool} :
    Lowering.Derives .qubit Instruction.acquiresQubit (judge honored) where
  source s i s' d h hi v hv := by
    cases judges_of_judge h with
    | acquire _ hset =>
      obtain rfl := Option.some.inj hv
      exact ⟨_, hset.self⟩
    | release => cases hv
    | unresolved => cases hv
    | other hrole =>
      obtain ⟨u, args, rfl⟩ := acquiresQubit_iff.1 hi
      cases hrole
    | _ => cases hi
  copy s v o s' d h := by
    cases judges_of_judge h with
    | copy _ _ hset => exact hset.self
    | other hrole => cases hrole
  phi s v incoming s' d h := by
    cases judges_of_judge h with
    | phi _ _ hset => exact hset.self
    | other hrole => cases hrole

end QubitLowering

/-! ## Results -/

/-- Lowering results derives values of results. -/
theorem ResultLowering.derives_judge :
    Lowering.Derives .result ResultLowering.isMeasurement ResultLowering.judge where
  source s i s' d h hi v hv := by
    cases judges_of_judge h with
    | measure _ hset =>
      obtain rfl := Option.some.inj hv
      exact ⟨_, hset.self⟩
    | other hrole => simp [isMeasurement, hrole] at hi
    | _ => cases hi
  copy s v o s' d h := by
    cases judges_of_judge h with
    | copy _ hset => exact hset.self
    | other hrole => cases hrole
  phi s v incoming s' d h := by
    cases judges_of_judge h with
    | phi _ hset => exact hset.self
    | other hrole => cases hrole

end QuantumLowering
