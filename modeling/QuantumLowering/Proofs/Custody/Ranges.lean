import QuantumLowering.Proofs.Custody.Basic
import QuantumLowering.Proofs.Execution.Lowering
import QuantumLowering.Proofs.Resource.Live
/-!
# What is handed out and never given back

Where releases do not count, lowering only ever takes from the pool, so
everything it hands out is apart (`Pool.HandsOut.apart`), whatever the
control flow: what is handed out was not live, and what is live stays so.
-/


namespace QuantumLowering

open Lowering

/-! ## Handing out -/

namespace Pool

/-- **Resources are handed out** to values one after another, and nothing is
given back. -/
inductive HandsOut : Pool → List (ValueId × Resource) → Pool → Prop
  /-- Nothing is handed out. -/
  | nil (p : Pool) : HandsOut p [] p
  /-- A resource is handed out, and then others are. -/
  | cons {p p₁ p' : Pool} {v : ValueId} {r : Resource} {given : List (ValueId × Resource)} :
    p.Takes r p₁ → HandsOut p₁ given p' → HandsOut p ((v, r) :: given) p'

namespace HandsOut

variable {p p₁ p' : Pool} {given given' : List (ValueId × Resource)}

theorem append (h : p.HandsOut given p₁) (k : p₁.HandsOut given' p') :
    p.HandsOut (given ++ given') p' := by
  induction h with
  | nil => exact k
  | cons ht _ ih => exact .cons ht (ih k)

theorem issued (h : p.HandsOut given p') (hp : p.Issued) : p'.Issued := by
  induction h with
  | nil => exact hp
  | cons ht _ ih => exact ih ht.issued

theorem policy (h : p.HandsOut given p') : p'.policy = p.policy := by
  induction h with
  | nil => rfl
  | cons ht _ ih => exact ih.trans ht.policy

/-- What is live stays live. -/
theorem live (h : p.HandsOut given p') {x : Handle} (hx : p.Live x) : p'.Live x := by
  induction h with
  | nil => exact hx
  | cons ht _ ih => exact ih ((ht.live x).2 (.inl hx))

/-- What is handed out was not live. -/
theorem new (h : p.HandsOut given p') : ∀ a ∈ given, ∀ x ∈ a.2.addresses, ¬ p.Live x := by
  induction h with
  | nil =>
    intro a ha
    cases ha
  | cons ht _ ih =>
    intro a ha x hx hlive
    rcases List.mem_cons.1 ha with rfl | ha
    · exact ht.new x hx hlive
    · exact ih a ha x hx ((ht.live x).2 (.inl hlive))

/-- **What is handed out is apart.** -/
theorem apart (h : p.HandsOut given p') :
    given.Pairwise fun a b => List.Disjoint a.2.addresses b.2.addresses := by
  induction h with
  | nil => exact .nil
  | cons ht h ih =>
    refine .cons (fun b hb x hx hxb => ?_) ih
    exact h.new b hb x hxb ((ht.live x).2 (.inr hx))

end HandsOut

end Pool

/-! ## Lowering -/

namespace QubitLowering

variable {honored sole : Bool} {s s' : Stock} {i : Instruction} {d : Decision}

/-- What a decision hands out. -/
def Decision.given? : Decision → Option (ValueId × Resource)
  | acquired v h => some (v, .single .qubit h)
  | acquiredArray v base size => some (v, .block .qubit base size)
  | unsized _ | released _ | known | divergent _ | stays => none

theorem given?_derived {o : Option Resource} {otherwise : Decision}
    (h : otherwise.given? = none) : (derived o otherwise).given? = none := by
  unfold derived
  split
  · rfl
  · exact h

/-- A step that gives nothing back hands out what it decides. -/
theorem Judges.handsOut (h : Judges honored s i s' d) (issued : s.pool.Issued)
    (keeps : honored = false ∨ i.managesQubits = false) :
    s.pool.HandsOut d.given?.toList s'.pool := by
  have same : ∀ {d : Decision}, s'.pool = s.pool → d.given? = none →
      s.pool.HandsOut d.given?.toList s'.pool := by
    intro d hp hd
    rw [hd, hp]
    exact .nil _
  cases h with
  | acquire hp => exact .cons (Pool.takes_allocate issued hp .qubit) (.nil _)
  | acquireArray _ hp => exact .cons (Pool.takes_allocateBlock issued hp .qubit) (.nil _)
  | unsized _ hp => exact same hp rfl
  | project hp => exact same hp (given?_derived rfl)
  | release hc _ _ _ hp =>
    refine same (hp (keeps.resolve_right fun hm => ?_)) rfl
    rw [Instruction.managesQubits_call] at hm
    rcases hc with rfl | rfl
    · exact absurd hm (by decide)
    · exact absurd hm (by decide)
  | unresolved => exact .nil _
  | copy _ hp => exact same hp (given?_derived rfl)
  | phi _ hp => exact same hp (given?_derived rfl)
  | other => exact .nil _

/-- Every step keeps the pool sound. -/
theorem Judges.sound (h : Judges honored s i s' d) (sound : s.pool.Sound) : s'.pool.Sound := by
  have same : s'.pool = s.pool → s'.pool.Sound := fun hp => hp ▸ sound
  cases h with
  | acquire hp =>
    have taken := sound.allocate
    rwa [hp] at taken
  | @acquireArray _ _ _ size _ _ _ hp =>
    have taken := sound.allocateBlock size
    rwa [hp] at taken
  | @release _ _ _ _ r _ _ _ _ hp hn =>
    cases honored with
    | true =>
      have returned := sound.releaseBlock r.handle r.count
      rwa [hp rfl] at returned
    | false => exact same (hn rfl)
  | unsized _ hp | project hp | copy _ hp | phi _ hp => exact same hp
  | unresolved | other => exact sound

theorem handsOut_of_decides {l : List (Site × Instruction)} {ds : List (Site × Decision)}
    (h : Decides (judge honored) s l ds s') (issued : s.pool.Issued)
    (keeps : honored = false ∨ ∀ e ∈ l, e.2.managesQubits = false) :
    s.pool.HandsOut (ds.filterMap fun d => d.2.given?) s'.pool := by
  induction h with
  | nil => exact .nil _
  | @cons _ _ _ x i a _ ds hs _ ih =>
    have first := (judges_of_judge hs).handsOut issued
      (keeps.imp_right fun hk => hk (x, i) List.mem_cons_self)
    have rest := ih (first.issued issued)
      (keeps.imp_right fun hk e he => hk e (List.mem_cons_of_mem _ he))
    have hcons : ((x, a) :: ds).filterMap (fun d => d.2.given?) =
        a.given?.toList ++ ds.filterMap fun d => d.2.given? := by
      cases ha : a.given? <;> simp [ha]
    rw [hcons]
    exact first.append rest

/-- The qubits that a value names have the handles of its resource. -/
theorem Judges.of_acquires (h : Judges honored s i s' d) {v : ValueId} {held : Holding}
    (ha : i.acquires? = some (v, held)) :
    ∃ base, d.given? = some (v, .block .qubit base held.qubits.length) ∧
      s'.tracker.resolve? v = some (.block .qubit base held.qubits.length) := by
  cases h with
  | @acquire u _ args h _ _ hset =>
    obtain ⟨rfl, rfl⟩ : u = v ∧ .qubit ⟨u, 0⟩ = held := by simpa using ha
    exact ⟨h, rfl, hset.self⟩
  | @acquireArray u _ args size base _ hsize _ hset =>
    obtain ⟨rfl, rfl⟩ : u = v ∧ .array u size = held := by simpa [hsize] using ha
    have hlen : (Holding.array u size).qubits.length = size := by simp [Holding.qubits]
    rw [hlen]
    exact ⟨base, rfl, hset.self⟩
  | unsized hsize => simp [hsize] at ha
  | project => simp at ha
  | other hrole =>
    rcases Instruction.acquires?_eq_some ha with ⟨_, _, rfl, -⟩ | ⟨_, _, _, rfl, -⟩ <;> cases hrole
  | _ => simp [Instruction.acquires?] at ha

/-- Every acquisition of a function is handed something. -/
theorem exists_given {f : Function} {ds : List (Site × Decision)}
    (decides : Decides (judge honored) s f.visited ds s') (nodup : f.definedValues.Nodup)
    (hi : i ∈ f.instructions) {v : ValueId} {held : Holding}
    (ha : i.acquires? = some (v, held)) :
    ∃ base, (v, .block .qubit base held.qubits.length) ∈ ds.filterMap (fun d => d.2.given?) ∧
      s'.tracker.resolve? v = some (.block .qubit base held.qubits.length) := by
  obtain ⟨x, he⟩ := Function.mem_instructions.1 hi
  obtain ⟨s₁, s₂, d, visit⟩ := decides.exists_visit frames_judge nodup he
  obtain ⟨base, hd, hv⟩ := (judges_of_judge visit.step).of_acquires ha
  refine ⟨base, List.mem_filterMap.2 ⟨(x, d), (visit.decision d).2 rfl, hd⟩, ?_⟩
  rw [visit.result v (Instruction.result_of_acquires ha), hv]

/-! ## Programs -/

/-- **Where releases do not count, what is handed out is apart**, and every
acquisition is handed something. -/
theorem exists_handsOut {fs gs : List Function} (h : Sweeps (lower sole) s fs gs s')
    (nodup : (definedBy fs).Nodup) (issued : s.pool.Issued)
    (keeps : ∀ f ∈ fs, ¬ f.isDeclaration → ∀ pool : Pool, pool.policy = s.pool.policy →
      honors sole pool f = false ∨ ∀ i ∈ f.instructions, i.managesQubits = false) :
    ∃ given, s.pool.HandsOut given s'.pool ∧
      ∀ f ∈ fs, ¬ f.isDeclaration → ∀ i ∈ f.instructions, ∀ v held,
        i.acquires? = some (v, held) → ∃ base,
          (v, .block .qubit base held.qubits.length) ∈ given ∧
          s'.tracker.resolve? v = some (.block .qubit base held.qubits.length) := by
  induction h with
  | nil s => exact ⟨[], .nil _, fun f hf => by cases hf⟩
  | @declaration s s' f fs gs hd h ih =>
    rw [definedBy_cons_declaration hd] at nodup
    obtain ⟨given, hgiven, hacq⟩ := ih nodup issued fun g hg => keeps g (List.mem_cons_of_mem f hg)
    refine ⟨given, hgiven, fun g hg hgd => ?_⟩
    rcases List.mem_cons.1 hg with rfl | hg
    · exact absurd hd hgd
    · exact hacq g hg hgd
  | @definition s s' f fs gs hd hl h ih =>
    rw [definedBy_cons hd] at nodup
    obtain ⟨inside, nodup', apart⟩ := List.nodup_append.1 nodup
    obtain ⟨ds, gone, decides, -⟩ := exists_lowered hl
    have first := handsOut_of_decides decides issued
      ((keeps f List.mem_cons_self hd s.pool rfl).imp_right fun hk e he =>
        hk e.2 (Function.mem_instructions.2 ⟨e.1, Function.mem_visited.1 he⟩))
    obtain ⟨given, hgiven, hacq⟩ := ih nodup' (first.issued issued) fun g hg hgd pool hp =>
      keeps g (List.mem_cons_of_mem f hg) hgd pool (hp.trans first.policy)
    refine ⟨_, first.append hgiven, fun g hg hgd i hi v held ha => ?_⟩
    rcases List.mem_cons.1 hg with rfl | hg
    · obtain ⟨base, hmem, hv⟩ := exists_given decides inside hi ha
      obtain ⟨x, he⟩ := Function.mem_instructions.1 hi
      have hdef := Function.result_mem_definedValues he (Instruction.result_of_acquires ha)
      -- the functions that follow leave the value alone
      refine ⟨base, List.mem_append_left _ hmem, ?_⟩
      rw [h.frame frames_lower fun hmem => apart v hdef v hmem rfl, hv]
    · obtain ⟨base, hmem, hv⟩ := hacq g hg hgd i hi v held ha
      exact ⟨base, List.mem_append_right _ hmem, hv⟩

end QubitLowering

end QuantumLowering
