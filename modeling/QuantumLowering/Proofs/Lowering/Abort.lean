import QuantumLowering.Proofs.Demand.Steps
/-!
# Lowering that fails

Lowering a program can fail at any instruction of any definition, when
pools and table were drawn on and definitions were changed already. The
definition it fails at then stays as it is, with those behind it. A
`Lowering.Procedure` holds the steps that are taken at a definition;
`Lowering.Aborted` says where such steps were taken, one by one, and that
nothing else became of the program and the context.
-/


namespace QuantumLowering

/-! ## Draws -/

/-- **A draw that forgets no handle**: the pool that it leaves, also where it fails, has
handed out as many as before, or more. -/
def Draw.Grows {α : Type} (s : Stock) (d : Draw α) : Prop :=
  s.pool.highWater ≤ d.1.pool.highWater

namespace Draw.Grows

variable {α β : Type} {s : Stock}

theorem map {d : Draw α} (h : d.Grows s) (g : α → β) : (d.map g).Grows s := h

theorem still {x : Except Failure α} : Draw.Grows s (s, x) := Nat.le_refl _

theorem acquire {kind : ResourceKind} {v : ValueId} : (s.acquire kind v).Grows s := by
  rw [Draw.Grows, Stock.acquire, Stock.pool_keep]
  exact s.pool.highWater_le_allocate

theorem acquireBlock {kind : ResourceKind} {v : ValueId} {size : ℕ} :
    (s.acquireBlock kind v size).Grows s := by
  rw [Draw.Grows, Stock.acquireBlock, Stock.pool_keep]
  exact s.pool.highWater_le_allocateBlock size

theorem derive {v : ValueId} {o : Option Resource} : (s.derive v o).Grows s := by
  unfold Stock.derive
  split <;> exact Nat.le_refl _

theorem release {r : Resource} : (s.release r).Grows s := by
  rw [Draw.Grows, Stock.pool_release, Pool.highWater_releaseBlock]

/-- No step forgets a handle. -/
theorem of_effect {kind : ResourceKind} {gives : Resource → Prop}
    {asks : Option (ValueId × ℕ)} {binds : Option ValueId} {d : Draw α}
    (h : s.Effect kind gives asks binds d) : d.Grows s := by
  cases h with
  | acquire g => exact acquire.map g
  | acquireBlock g => exact acquireBlock.map g
  | derive g => exact derive.map g
  | release g => exact release.map g
  | still => exact still

end Draw.Grows

theorem QubitLowering.grows_judge (honored : Bool) (s : Stock) (i : Instruction) :
    (judge honored s i).Grows s :=
  .of_effect (effect_judge honored s i)

theorem ResultLowering.grows_judge (s : Stock) (i : Instruction) : (judge s i).Grows s :=
  .of_effect (effect_judge s i)

namespace Context

variable {c : Context} {kind k : ResourceKind} {s : Stock}

/-- The pool that is put back is that of its kind. -/
theorem pool_withStock_self : (c.withStock kind s).pool kind = s.pool := by
  cases kind <;> rfl

theorem pool_withStock_of_ne (h : k ≠ kind) : (c.withStock kind s).pool k = c.pool k := by
  cases kind <;> cases k <;> first | rfl | exact absurd rfl h

theorem properties_withStock : (c.withStock kind s).properties = c.properties := by
  cases kind <;> rfl

end Context

namespace Lowering

variable {α : Type}

/-! ## How far a run comes -/

/-- **A run over instructions stops**: it decides those in front of one, each from the
stock that the one before leaves, and fails at that. -/
def Stops (step : Stock → Instruction → Draw α) (s : Stock) (l : List (Site × Instruction))
    (e : Failure) (s' : Stock) : Prop :=
  ∃ before failing after ds s₁, l = before ++ failing :: after ∧ Decides step s before ds s₁ ∧
    step s₁ failing.2 = (s', .error e)

theorem stops_decideAll {step : Stock → Instruction → Draw α} {s : Stock}
    {l : List (Site × Instruction)} {e : Failure} (h : (decideAll step s l).failure = some e) :
    Stops step s l e (decideAll step s l).stock := by
  induction l generalizing s with
  | nil => cases h
  | cons i l ih =>
    obtain ⟨x, i⟩ := i
    unfold decideAll at h ⊢
    cases hs : step s i with
    | mk s₁ r =>
      cases r with
      | error e' =>
        simp only [hs] at h ⊢
        cases h
        exact ⟨[], (x, i), l, [], s, rfl, .nil s, hs⟩
      | ok a =>
        simp only [hs] at h ⊢
        obtain ⟨before, failing, after, ds, s₂, rfl, decides, fails⟩ := ih h
        exact ⟨(x, i) :: before, failing, after, (x, a) :: ds, s₂, rfl, .cons hs decides, fails⟩

/-- **A run over functions that fails** does so at a definition: those in front were
lowered, and it stays with those behind it. -/
theorem exists_sweeps_of_failure {lower : Stock → Function → Lowered} {s : Stock}
    {fs : List Function} {e : Failure} (h : (sweep lower s fs).failure = some e) :
    ∃ before f after gs s₁, fs = before ++ f :: after ∧ ¬ f.isDeclaration ∧
      Sweeps lower s before gs s₁ ∧ (lower s₁ f).failure = some e ∧
      (sweep lower s fs).functions = gs ++ f :: after ∧
      (sweep lower s fs).stock = (lower s₁ f).stock := by
  induction fs generalizing s with
  | nil => cases h
  | cons f fs ih =>
    unfold sweep at h ⊢
    by_cases hd : f.isDeclaration
    · simp only [hd, if_true] at h ⊢
      obtain ⟨before, g, after, gs, s₁, rfl, hg, sweeps, fails, functions, stock⟩ := ih h
      exact ⟨f :: before, g, after, f :: gs, s₁, rfl, hg, .declaration hd sweeps, fails,
        by rw [functions, List.cons_append], stock⟩
    · simp only [hd] at h ⊢
      cases hl : (lower s f).failure with
      | some e' =>
        simp only [hl, Bool.false_eq_true, if_false] at h ⊢
        cases h
        exact ⟨[], f, fs, [], s, rfl, hd, .nil s, hl, rfl, rfl⟩
      | none =>
        simp only [hl] at h ⊢
        obtain ⟨before, g, after, gs, s₁, rfl, hg, sweeps, fails, functions, stock⟩ := ih h
        exact ⟨f :: before, g, after, (lower s f).function :: gs, s₁, rfl, hg,
          .definition hd hl sweeps, fails, by simp [functions], by simpa using stock⟩

/-! ## The steps at a definition -/

/-- **The steps that are taken at a definition.** -/
structure Procedure (α : Type) where
  /-- An instruction is decided, in a definition whose turn starts from a stock. -/
  judge : Stock → Function → Stock → Instruction → Draw α
  /-- The definition is changed by the decisions and the table that they leave. -/
  finish : List (Site × α) → Tracker → Function → Function

namespace Procedure

variable {m : Procedure α} {s s' : Stock} {f g : Function} {fs gs : List Function} {e : Failure}

/-- **All steps are taken at a definition**: every instruction is decided, in the order of
visits, and the definition is changed by all of the decisions. -/
def Completes (m : Procedure α) (s : Stock) (f g : Function) (s' : Stock) : Prop :=
  ∃ ds, Decides (m.judge s f) s f.visited ds s' ∧ g = m.finish ds s'.tracker f

/-- **All steps are taken at each of some definitions**, in order, each time from the stock
that the definition before leaves. -/
inductive CompletesEach (m : Procedure α) : Stock → List Function → List Function → Stock → Prop
  /-- Every function had its turn. -/
  | nil (s : Stock) : CompletesEach m s [] [] s
  /-- A declaration stays. -/
  | declaration {s s' : Stock} {f : Function} {fs gs : List Function} :
    f.isDeclaration → CompletesEach m s fs gs s' → CompletesEach m s (f :: fs) (f :: gs) s'
  /-- A definition goes through all steps. -/
  | definition {s s₁ s' : Stock} {f g : Function} {fs gs : List Function} :
    ¬ f.isDeclaration → m.Completes s f g s₁ → CompletesEach m s₁ fs gs s' →
      CompletesEach m s (f :: fs) (g :: gs) s'

/-- There are as many functions afterwards. -/
theorem CompletesEach.length_eq (h : m.CompletesEach s fs gs s') : gs.length = fs.length := by
  induction h with
  | nil => rfl
  | declaration _ _ ih => rw [List.length_cons, List.length_cons, ih]
  | definition _ _ _ ih => rw [List.length_cons, List.length_cons, ih]

/-- No decision forgets a handle. -/
def Grows (m : Procedure α) : Prop := ∀ s f s₁ i, (m.judge s f s₁ i).Grows s₁

theorem Grows.decides (h : m.Grows) {l : List (Site × Instruction)} {s₀ s₁ : Stock}
    {ds : List (Site × α)} (decides : Decides (m.judge s f) s₀ l ds s₁) :
    s₀.pool.highWater ≤ s₁.pool.highWater := by
  refine decides.invariant (P := fun s₁ => s₀.pool.highWater ≤ s₁.pool.highWater)
    (Nat.le_refl _) fun d _ s₁ s₂ a grown hstep => grown.trans ?_
  have step := h s f s₁ d.2
  rwa [hstep] at step

theorem Grows.completesEach (h : m.Grows) (each : m.CompletesEach s fs gs s') :
    s.pool.highWater ≤ s'.pool.highWater := by
  induction each with
  | nil => exact Nat.le_refl _
  | declaration _ _ ih => exact ih
  | definition _ completes _ ih =>
    obtain ⟨ds, decides, -⟩ := completes
    exact (h.decides decides).trans ih

theorem Grows.stops (h : m.Grows) (stops : Stops (m.judge s f) s f.visited e s') :
    s.pool.highWater ≤ s'.pool.highWater := by
  obtain ⟨before, failing, after, ds, s₁, -, decides, fails⟩ := stops
  have step := h s f s₁ failing.2
  rw [fails] at step
  exact (h.decides decides).trans step

/-- **Lowering a definition is taking steps**, all of them where it does not fail. -/
structure Makes (m : Procedure α) (lower : Stock → Function → Lowered) : Prop where
  /-- It fails where a decision does. -/
  failure : ∀ s f, (lower s f).failure = (decideAll (m.judge s f) s f.visited).failure
  /-- It leaves what the decisions leave. -/
  stock : ∀ s f, (lower s f).stock = (decideAll (m.judge s f) s f.visited).stock
  /-- It ends with the change of the definition. -/
  function : ∀ s f, (lower s f).failure = none → (lower s f).function =
    m.finish (decideAll (m.judge s f) s f.visited).decisions (lower s f).stock.tracker f

namespace Makes

variable {lower : Stock → Function → Lowered}

theorem completes (h : m.Makes lower) (hf : (lower s f).failure = none) :
    m.Completes s f (lower s f).function (lower s f).stock := by
  refine ⟨_, ?_, h.function s f hf⟩
  rw [h.stock]
  exact decides_decideAll ((h.failure s f).symm.trans hf)

theorem stops (h : m.Makes lower) (hf : (lower s f).failure = some e) :
    Stops (m.judge s f) s f.visited e (lower s f).stock := by
  rw [h.stock]
  exact stops_decideAll ((h.failure s f).symm.trans hf)

theorem completesEach (h : m.Makes lower) (sweeps : Sweeps lower s fs gs s') :
    m.CompletesEach s fs gs s' := by
  induction sweeps with
  | nil s => exact .nil s
  | declaration hd _ ih => exact .declaration hd ih
  | definition hd hl _ ih => exact .definition hd (h.completes hl) ih

end Makes

end Procedure

/-! ## Programs -/

/-- **A pass was aborted** with a failure, at an instruction of a definition: what it left of
a program and a context. -/
structure Aborted (kind : ResourceKind) (m : Procedure α) (e : Failure) (p : Program)
    (c : Context) (q : Program) (d : Context) : Prop where
  /-- There is a definition such that all steps were taken at each of those in front of it,
  in order from the stock of the context. Its own instructions were decided up to one at
  which that failed. It and the functions behind it are as they were, and the context
  holds what the decisions left. -/
  functions : ∃ before f after gs s s', p.functions = before ++ f :: after ∧ ¬ f.isDeclaration ∧
    m.CompletesEach (c.stock kind) before gs s ∧ Stops (m.judge s f) s f.visited e s' ∧
    q.functions = gs ++ f :: after ∧ d = c.withStock kind s'
  /-- There is no other function. -/
  length : q.functions.length = p.functions.length
  /-- Nothing but functions changed in the program. -/
  program : q = { p with functions := q.functions }
  /-- No pool has handed out less than before. -/
  highWater : ∀ k, (c.pool k).highWater ≤ (d.pool k).highWater
  /-- A pool of another kind is as it was. -/
  pool : ∀ k, k ≠ kind → d.pool k = c.pool k
  /-- So is what passes leave for later ones. -/
  properties : d.properties = c.properties

/-- **Lowering that fails is aborted** where it takes the steps of a procedure. -/
theorem Procedure.Makes.aborted {m : Procedure α} {lower : Stock → Function → Lowered}
    {kind : ResourceKind} {e : Failure} {p : Program} {c : Context} (h : m.Makes lower)
    (grows : m.Grows) (hf : (run kind lower p c).failure = some e) :
    Aborted kind m e p c (run kind lower p c).program (run kind lower p c).context := by
  obtain ⟨before, f, after, gs, s, split, hd, sweeps, fails, functions, stock⟩ :=
    exists_sweeps_of_failure hf
  have each := h.completesEach sweeps
  have stops := h.stops fails
  have context : (run kind lower p c).context = c.withStock kind (lower s f).stock :=
    congrArg (c.withStock kind) stock
  refine ⟨⟨before, f, after, gs, s, _, split, hd, each, stops, functions, context⟩, ?_, rfl,
    fun k => ?_, fun k hk => ?_, ?_⟩
  · change (sweep lower (c.stock kind) p.functions).functions.length = p.functions.length
    rw [functions, split, List.length_append, List.length_append, each.length_eq]
  · rw [context]
    by_cases hk : k = kind
    · rw [hk, Context.pool_withStock_self]
      exact (grows.completesEach each).trans (grows.stops stops)
    · rw [Context.pool_withStock_of_ne hk]
  · rw [context, Context.pool_withStock_of_ne hk]
  · rw [context, Context.properties_withStock]

end Lowering

/-! ## The two passes -/

/-- The steps of the lowering of qubits at a definition: addresses stand in place of
values, and what is then unused goes. -/
def QubitLowering.procedure (sole : Bool) : Lowering.Procedure Decision where
  judge s f := judge (honors sole s.pool f)
  finish ds t f := (f.substitute (address? t)).removeUnused
    ((ds.filter fun d => d.2.isDroppable).map Prod.fst)

theorem QubitLowering.makes_procedure (sole : Bool) : (procedure sole).Makes (lower sole) where
  failure := lower_failure sole
  stock := lower_stock sole
  function s f h := by
    rw [lower_failure] at h
    rw [lower_function h, lower_stock]
    rfl

/-- The steps of the lowering of results at a definition: measurements are replaced,
addresses stand in place of values, and what is then unused goes. -/
def ResultLowering.procedure : Lowering.Procedure Decision where
  judge _ _ := judge
  finish ds t f := ((f.replaceAt (replacements ds)).substitute (address? t)).removeUnused
    ((ds.filter fun d => d.2 = .known).map Prod.fst)

theorem ResultLowering.makes_procedure : procedure.Makes lower where
  failure := lower_failure
  stock := lower_stock
  function s f h := by
    rw [lower_failure] at h
    simp only [lower, h]
    rfl

/-- **A pass that fails leaves no definition half lowered.** It was aborted at one: those in
front of it went through every step, and it and whatever comes behind it through none. -/
theorem Pass.aborted_of_failure (p : Program) (c : Context) :
    (∀ e, (qubitLowering.run p c).failure = some e →
      Lowering.Aborted .qubit (QubitLowering.procedure (QubitLowering.managers p ≤ 1)) e p c
        (qubitLowering.run p c).program (qubitLowering.run p c).context) ∧
    ∀ e, (resultLowering.run p c).failure = some e →
      Lowering.Aborted .result ResultLowering.procedure e p c
        (resultLowering.run p c).program (resultLowering.run p c).context := by
  constructor
  · intro e h
    change (QubitLowering.run p c).failure = some e at h
    change Lowering.Aborted _ _ e p c (QubitLowering.run p c).program _
    rw [QubitLowering.run_failure] at h
    rw [QubitLowering.run_program]
    change Lowering.Aborted _ _ e p c _ (QubitLowering.run p c).context
    rw [QubitLowering.run_context]
    exact (QubitLowering.makes_procedure _).aborted
      (fun _ _ => QubitLowering.grows_judge _) h
  · intro e h
    change (ResultLowering.run p c).failure = some e at h
    have aborted := ResultLowering.run_eq_of_failure h
    change Lowering.Aborted _ _ e p c (ResultLowering.run p c).program
      (ResultLowering.run p c).context
    rw [aborted] at h ⊢
    exact ResultLowering.makes_procedure.aborted (fun _ _ => ResultLowering.grows_judge) h

/-- A function that acquires and measures a qubit. -/
def measuring (name : String) (qubit result : ValueId) : Function where
  name := name
  params := []
  signature := []
  returnType := .void
  blocks := [⟨⟨0⟩, "entry", [
    ⟨some qubit, .qubit, .call Intrinsics.acquireQubit []⟩,
    ⟨some result, .result, .call Intrinsics.measure [.value qubit]⟩], some (.ret none)⟩]
  attributes := .empty

/-- Two such functions. -/
def measuringTwice : Program where
  name := "twice"
  functions := [measuring "first" ⟨0⟩ ⟨1⟩, measuring "second" ⟨2⟩ ⟨3⟩]
  flags := .empty
  nextValue := 4

/-- A context with pools that hold one handle each. -/
def oneEach : Context := .start (.fresh .noReuse (some 1)) (.fresh .noReuse (some 1)) .empty

/-- Either pass lowers the first function and fails at the second. -/
theorem Pass.aborted_measuringTwice :
    measuringTwice.verify = .ok () ∧
      (qubitLowering.run measuringTwice oneEach).failure =
        some (.allocation .qubit (.exhausted 1)) ∧
      (qubitLowering.run measuringTwice oneEach).program.functions =
        [{ measuring "first" ⟨0⟩ ⟨1⟩ with blocks := [⟨⟨0⟩, "entry", [
          ⟨some ⟨1⟩, .result, .call Intrinsics.measure [.qubit 0]⟩], some (.ret none)⟩] },
          measuring "second" ⟨2⟩ ⟨3⟩] ∧
      Lowering.Aborted .qubit
        (QubitLowering.procedure (QubitLowering.managers measuringTwice ≤ 1))
        (.allocation .qubit (.exhausted 1)) measuringTwice oneEach
        (qubitLowering.run measuringTwice oneEach).program
        (qubitLowering.run measuringTwice oneEach).context ∧
      (resultLowering.run measuringTwice oneEach).failure =
        some (.allocation .result (.exhausted 1)) ∧
      Lowering.Aborted .result ResultLowering.procedure (.allocation .result (.exhausted 1))
        measuringTwice oneEach (resultLowering.run measuringTwice oneEach).program
        (resultLowering.run measuringTwice oneEach).context :=
  ⟨by decide, rfl, rfl, (aborted_of_failure measuringTwice oneEach).1 _ rfl, rfl,
    (aborted_of_failure measuringTwice oneEach).2 _ rfl⟩

end QuantumLowering
