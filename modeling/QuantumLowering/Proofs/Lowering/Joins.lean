import QuantumLowering.Proofs.Lowering.Tracing
/-!
# Copies and phis of one qubit

Lowering looks at each instruction once. So a copy of a qubit that has an
address goes, and so does a phi all of whose operands have the same
address, if each of them was computed before the phi was visited. A phi
that reads ahead stays as if its operands differed, even if they all get
one address later (`QubitLowering.copies_and_joins`). It reads ahead only
along edges on cycles.
-/


namespace QuantumLowering

open ControlFlow Lowering

/-- **A phi reads ahead** if one of its operands is not computed before the phi is
visited. -/
def Function.ReadsAhead (f : Function) (x : Site) (incoming : List (BlockId × Operand)) : Prop :=
  ∃ b u, (b, .value u) ∈ incoming ∧ ∃ d ∈ f.located, d.2.result = some u ∧
    ¬ f.VisitedBefore d.1 x

namespace QubitLowering

/-- **Copies and phis of one qubit are lowered**, but for phis that read ahead. -/
structure JoinsLowered (f g : Function) : Prop where
  /-- No copy of an address is left. -/
  copies : ∀ i ∈ g.instructions, i.type = .qubit → ∀ h, i.operation ≠ .copy (.qubit h)
  /-- A phi that is left with one address for all of its operands read ahead. -/
  phis : ∀ v l h, ⟨some v, .qubit, .phi l⟩ ∈ g.instructions → l ≠ [] →
    (∀ s ∈ l, s.2 = .qubit h) →
      ∃ x l', (x, ⟨some v, .qubit, .phi l'⟩) ∈ f.located ∧ f.ReadsAhead x l'
  /-- Every phi that reads ahead is left. -/
  ahead : ∀ x v l, (x, ⟨some v, .qubit, .phi l⟩) ∈ f.located → f.ReadsAhead x l →
    ∃ l', ⟨some v, .qubit, .phi l'⟩ ∈ g.instructions
  /-- Phis read ahead along edges on cycles. -/
  cycles : ∀ x v l, (x, ⟨some v, .qubit, .phi l⟩) ∈ f.located → f.ReadsAhead x l →
    ∃ b o k, (b, o) ∈ l ∧ f.position? b = some k ∧ Edge f.edges k x.block ∧
      Reaches f.edges x.block k

variable {honored : Bool} {s s' : Stock} {f g : Function} {ds : List (Site × Decision)}
variable {gone : List Site} {x : Site} {v : ValueId} {h : Handle}

/-- What becomes an address stood for it. -/
theorem resolveAs?_of_substitute {t : Tracker} {op : Operand}
    (ho : op.substitute (address? t) = .qubit h) :
    t.resolveAs? .qubit op = some (.single .qubit h) := by
  cases op with
  | value v =>
    rw [Operand.substitute_value] at ho
    cases ha : address? t v with
    | none => simp [ha] at ho
    | some o =>
      obtain rfl : o = .qubit h := by simpa [ha] using ho
      obtain ⟨r, hr, hop⟩ := Option.bind_eq_some_iff.1 ha
      have handle : ResourceKind.qubit.handle? (.qubit h) = some h := rfl
      obtain rfl := Resource.eq_single_of_operand? hop handle
      exact resolveAs?_of_single hr
  | _ => cases ho <;> rfl

section Function

variable (decides : Decides (judge honored) s f.visited ds s') (nodup : f.definedValues.Nodup)
variable (finished : Finished (address? s'.tracker) Prod.snd
  ((ds.filter fun d => d.2.isDroppable).map Prod.fst) f g gone)

include finished

/-- What is known to stand for one qubit goes. -/
theorem mem_gone_of_known {e : Site × Instruction} {s₁ s₂ : Stock}
    (visit : Decides.Visit (judge honored) s f ds s' e s₁ s₂ .known) (he : e ∈ f.located)
    (hv : e.2.result = some v) (known : s₂.tracker.resolve? v = some (.single .qubit h)) :
    e.1 ∈ gone := by
  refine finished.mem_gone (P := Decision.isDroppable) visit he rfl fun u hu => ?_
  obtain rfl := Option.some.inj (hv.symm.trans hu)
  rw [address?_of_single ((visit.result v hv).trans known)]
  rfl

include decides nodup

/-- **A copy of a qubit goes.** -/
theorem mem_gone_of_copy (reachable : ∀ k < f.blocks.length, f.Reachable k)
    (dominated : f.UsesDominated) {o : Operand}
    (hx : (x, ⟨some v, .qubit, .copy o⟩) ∈ f.located)
    (ho : o.substitute (address? s'.tracker) = .qubit h) : x ∈ gone := by
  obtain ⟨s₁, s₂, d, visit⟩ := decides.exists_visit frames_judge nodup hx
  have known : s₁.tracker.resolveAs? .qubit o = some (.single .qubit h) := by
    rw [Function.resolveAs?_eq_of_operand reachable dominated .qubit visit hx rfl
      (List.mem_singleton_self o), resolveAs?_of_substitute ho]
  cases judges_of_judge visit.step with
  | copy _ _ hset =>
    rw [known] at visit
    exact mem_gone_of_known finished visit hx rfl (hset.self.trans known)
  | other hrole => cases hrole

/-- **A phi of one qubit goes**, unless it reads ahead. -/
theorem mem_gone_of_phi {l : List (BlockId × Operand)}
    (hx : (x, ⟨some v, .qubit, .phi l⟩) ∈ f.located) (hne : l ≠ [])
    (hl : ∀ s ∈ l, s.2.substitute (address? s'.tracker) = .qubit h)
    (behind : ¬ f.ReadsAhead x l) : x ∈ gone := by
  obtain ⟨s₁, s₂, d, visit⟩ := decides.exists_visit frames_judge nodup hx
  have known : s₁.tracker.joinAs? .qubit (l.map Prod.snd) = some (.single .qubit h) := by
    refine Tracker.joinAs?_eq_some_iff.2 ⟨by simpa using hne, List.forall_mem_map.2 fun s hs => ?_⟩
    have before : ∀ u, s.2 = .value u → ∀ d ∈ f.located, d.2.result = some u →
        f.VisitedBefore d.1 x := fun u hu d hd hdu =>
      by_contra fun unmet => behind ⟨s.1, u, hu ▸ hs, d, hd, hdu, unmet⟩
    rw [visit.resolveAs?_eq_of_visitedBefore before, resolveAs?_of_substitute (hl s hs)]
  cases judges_of_judge visit.step with
  | phi _ _ hset =>
    rw [known] at visit
    exact mem_gone_of_known finished visit hx rfl (hset.self.trans known)
  | other hrole => cases hrole

/-- **A phi that reads ahead stays.** -/
theorem not_mem_gone_of_readsAhead (new : ∀ u ∈ f.definedValues, s.tracker.resolve? u = none)
    {l : List (BlockId × Operand)} (hx : (x, ⟨some v, .qubit, .phi l⟩) ∈ f.located)
    (ahead : f.ReadsAhead x l) : x ∉ gone := by
  obtain ⟨s₁, s₂, d, visit, unmet⟩ := decides.exists_visit_unmet frames_judge nodup hx
  obtain ⟨b, u, hb, c, hc, hcu, hcx⟩ := ahead
  have unknown : s₁.tracker.resolveAs? .qubit (.value u) = none := by
    rw [Tracker.resolveAs?, Tracker.resolveOperand?_value, unmet c hc u hcu hcx,
      new u (Function.result_mem_definedValues hc hcu)]
    rfl
  have divergent : s₁.tracker.joinAs? .qubit (l.map Prod.snd) = none := by
    refine Option.eq_none_iff_forall_ne_some.2 fun r hr => ?_
    have := (Tracker.joinAs?_eq_some_iff.1 hr).2 (.value u) (List.mem_map_of_mem hb)
    rw [unknown] at this
    cases this
  cases judges_of_judge visit.step with
  | phi _ _ hset =>
    rw [divergent] at visit
    exact finished.not_mem_gone (P := Decision.isDroppable) visit rfl
  | other hrole => cases hrole

/-- **So the copies and phis of a function are lowered.** -/
theorem joinsLowered_of_finished {p : Program} (wf : f.WellFormed p)
    (reachable : ∀ k < f.blocks.length, f.Reachable k) (dominated : f.UsesDominated)
    (new : ∀ u ∈ f.definedValues, s.tracker.resolve? u = none) : JoinsLowered f g where
  copies j hj hty h hop := by
    obtain ⟨⟨x, result, ty, operation⟩, he, hstays, rfl⟩ := finished.mem_instructions_iff.1 hj
    obtain ⟨o, rfl, ho⟩ := Operation.mapOperands_eq_copy_iff.1 hop
    obtain rfl : ty = .qubit := hty
    -- what has a type computes a value
    obtain ⟨b, hb, hi⟩ := Function.exists_block_of_located he
    have typed := ((wf.blocks b (List.mem_of_getElem? hb)).instructions _
      (List.mem_of_getElem? hi)).typed
    obtain ⟨v, rfl⟩ := Option.isSome_iff_exists.1 (typed.2 (by simp))
    exact hstays (mem_gone_of_copy decides nodup finished reachable dominated he ho)
  phis v l h hj hne hl := by
    obtain ⟨⟨x, result, ty, operation⟩, he, hstays, heq⟩ := finished.mem_instructions_iff.1 hj
    obtain ⟨l', rfl, rfl⟩ :=
      Operation.mapOperands_eq_phi_iff.1 (congrArg Instruction.operation heq)
    obtain rfl : result = some v := congrArg Instruction.result heq
    obtain rfl : ty = .qubit := congrArg Instruction.type heq
    refine ⟨x, l', he, by_contra fun behind => hstays ?_⟩
    exact mem_gone_of_phi decides nodup finished he (by simpa using hne)
      (List.forall_mem_map.1 hl) behind
  ahead x v l hx ahead := by
    have stays := not_mem_gone_of_readsAhead decides nodup finished new hx ahead
    exact ⟨_, finished.mem_instructions_iff.2 ⟨_, hx, stays, rfl⟩⟩
  cycles x v l hx := by
    rintro ⟨b, u, hb, d, hd, hdu, unmet⟩
    obtain ⟨k, hk, edge, back⟩ := (Function.visitedBefore_or_reaches_of_incoming wf reachable
      dominated hd hx hdu rfl hb).resolve_left unmet
    exact ⟨b, _, k, hb, hk, edge, back⟩

end Function

/-! ## Programs -/

/-- **Copies of qubits become static, and so do phis of one qubit that do not read
ahead**, where uses are dominated and all blocks can be reached. Away from cycles no
phi reads ahead. -/
theorem copies_and_joins (p : Program) (hp : p.verify = .ok ()) (c : Context)
    (hc : c.tracker = .empty)
    (placed : ∀ f ∈ p.definitions,
      (∀ k < f.blocks.length, f.Reachable k) ∧ f.UsesDominated)
    (h : (run p c).failure = none) :
    List.Forall₂ JoinsLowered p.definitions (run p c).program.definitions := by
  have wf := Program.verify_eq_ok_iff.1 hp
  rw [run_failure] at h
  rw [run_program]
  obtain ⟨s', -, -, turns⟩ := exists_turns frames_lower (fun _ _ => isDeclaration_lower) wf.values h
  refine forall₂_imp_of_mem turns fun f hf g ⟨s, turn⟩ => ?_
  have new : ∀ u ∈ f.definedValues, s.tracker.resolve? u = none := fun u hu => by
    rw [turn.new u hu]
    exact congrArg (Tracker.resolve? · u) hc
  obtain ⟨ds, gone, decides, finished⟩ := exists_lowered turn.failure
  rw [← turn.function] at finished
  exact joinsLowered_of_finished decides (wf.nodup_definedValues hf) finished
    (wf.definitions f hf) (placed f hf).1 (placed f hf).2 new

/-! ## A qubit that goes round a loop -/

/-- A qubit goes round a loop, in which it is copied. One phi carries on the qubit and
one its copy. -/
def carriedMain : Function where
  name := "main"
  params := []
  signature := []
  returnType := .void
  blocks := [
    ⟨⟨0⟩, "entry", [⟨some ⟨0⟩, .qubit, .call Intrinsics.acquireQubit []⟩], some (.branch ⟨1⟩)⟩,
    ⟨⟨1⟩, "header", [
      ⟨some ⟨1⟩, .qubit, .phi [(⟨0⟩, .value ⟨0⟩), (⟨2⟩, .value ⟨0⟩)]⟩,
      ⟨some ⟨2⟩, .qubit, .phi [(⟨0⟩, .value ⟨0⟩), (⟨2⟩, .value ⟨3⟩)]⟩,
      .call "__quantum__qis__h__body" [.value ⟨1⟩],
      .call "__quantum__qis__h__body" [.value ⟨2⟩]],
      some (.condBranch (.bool true) ⟨2⟩ ⟨3⟩)⟩,
    ⟨⟨2⟩, "body", [⟨some ⟨3⟩, .qubit, .copy (.value ⟨0⟩)⟩], some (.branch ⟨1⟩)⟩,
    ⟨⟨3⟩, "exit", [], some (.ret none)⟩]
  attributes := .empty

/-- The program of that function alone. -/
def carried : Program where
  name := "carried"
  functions := [carriedMain]
  flags := .empty
  nextValue := 4

theorem reachable_carriedMain :
    ∀ k < carriedMain.blocks.length, carriedMain.Reachable k := by
  have edges : ∀ e ∈ [(0, 1), (1, 2), (1, 3)], e ∈ carriedMain.edges := by decide
  have start : carriedMain.Walk [0] := .start (by decide)
  have header : carriedMain.Walk [1, 0] := .step start (edges (0, 1) (by decide))
  intro k hk
  have hk : k < 4 := hk
  obtain rfl | rfl | rfl | rfl : k = 0 ∨ k = 1 ∨ k = 2 ∨ k = 3 := by omega
  · exact ⟨[], start⟩
  · exact ⟨[0], header⟩
  · exact ⟨[1, 0], .step header (edges (1, 2) (by decide))⟩
  · exact ⟨[1, 0], .step header (edges (1, 3) (by decide))⟩

theorem dominated_carriedMain : carriedMain.UsesDominated :=
  Function.usesDominated_of_first (k := 0) (by decide) (by decide) (by decide)

theorem failure_carried : (run carried .default).failure = none := by
  rw [(run_eq_plan (f := carriedMain) rfl rfl .default).1]
  decide

theorem copies_and_joins_carried :
    carried.verify = .ok () ∧ Context.default.tracker = .empty ∧
      (∀ f ∈ carried.definitions,
        (∀ k < f.blocks.length, f.Reachable k) ∧ f.UsesDominated) ∧
      (run carried .default).failure = none ∧
      ∃ g ∈ (run carried .default).program.definitions,
        (∀ h, ⟨some ⟨3⟩, .qubit, .copy (.qubit h)⟩ ∉ g.instructions) ∧
          (∀ h, ⟨some ⟨1⟩, .qubit, .phi [(⟨0⟩, .qubit h), (⟨2⟩, .qubit h)]⟩ ∉ g.instructions) ∧
          ∃ l, ⟨some ⟨2⟩, .qubit, .phi l⟩ ∈ g.instructions := by
  have verified : carried.verify = .ok () := by decide
  have placed : ∀ f ∈ carried.definitions,
      (∀ k < f.blocks.length, f.Reachable k) ∧ f.UsesDominated := by
    intro f hf
    obtain rfl := List.mem_singleton.1 hf
    exact ⟨reachable_carriedMain, dominated_carriedMain⟩
  obtain ⟨g, hg, lowered⟩ := exists_right_of_forall₂
    (copies_and_joins carried verified .default rfl placed failure_carried)
    (List.mem_singleton_self carriedMain)
  have order : carriedMain.reversePostOrder = [0, 1, 3, 2] := by decide
  refine ⟨verified, rfl, placed, failure_carried, g, hg,
    fun h hj => lowered.copies _ hj rfl h rfl, fun h hj => ?_, ?_⟩
  · obtain ⟨x, l, hx, b, u, hb, d, hd, hdu, unmet⟩ := lowered.phis _ _ h hj (by simp) (by simp)
    have phi : ∀ e ∈ carriedMain.located, e.2.result = some ⟨1⟩ →
        e = (⟨1, 0⟩, ⟨some ⟨1⟩, .qubit, .phi [(⟨0⟩, .value ⟨0⟩), (⟨2⟩, .value ⟨0⟩)]⟩) := by decide
    have acquired : ∀ d ∈ carriedMain.located, d.2.result = some ⟨0⟩ → d.1 = ⟨0, 0⟩ := by decide
    cases phi _ hx rfl
    obtain rfl : u = ⟨0⟩ := by rcases List.mem_pair.1 hb with hb | hb <;> cases hb <;> rfl
    rw [acquired d hd hdu] at unmet
    exact unmet (.inr (order ▸ ⟨by decide, by decide, by decide⟩))
  · have copied : (⟨2, 0⟩, ⟨some ⟨3⟩, .qubit, .copy (.value ⟨0⟩)⟩) ∈ carriedMain.located := by
      decide
    refine lowered.ahead ⟨1, 1⟩ ⟨2⟩ [(⟨0⟩, .value ⟨0⟩), (⟨2⟩, .value ⟨3⟩)] (by decide)
      ⟨⟨2⟩, ⟨3⟩, by decide, _, copied, rfl, ?_⟩
    rintro (⟨same, -⟩ | before)
    · cases same
    · exact absurd (order ▸ before.2.2) (by decide)

/-- **A phi of one qubit can stay**, if the qubit is copied further on in the loop. -/
theorem carried_half_static :
    carried.verify = .ok () ∧
      (∀ f ∈ carried.definitions,
        (∀ k < f.blocks.length, f.Reachable k) ∧ f.UsesDominated) ∧
      Context.default.tracker = .empty ∧ (run carried .default).failure = none ∧
      (run carried .default).program.functions.map Function.instructions = [[
        ⟨some ⟨2⟩, .qubit, .phi [(⟨0⟩, .qubit 0), (⟨2⟩, .qubit 0)]⟩,
        .call "__quantum__qis__h__body" [.qubit 0],
        .call "__quantum__qis__h__body" [.value ⟨2⟩]]] := by
  refine ⟨by decide, fun f hf => ?_, rfl, failure_carried, ?_⟩
  · obtain rfl := List.mem_singleton.1 hf
    exact ⟨reachable_carriedMain, dominated_carriedMain⟩
  · decide

end QubitLowering

end QuantumLowering
