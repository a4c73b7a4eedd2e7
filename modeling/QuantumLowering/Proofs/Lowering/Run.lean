import Mathlib.Data.List.Nodup
import QuantumLowering.Lowering.Sweep
import QuantumLowering.Proofs.Program.Functions
import QuantumLowering.Proofs.Resource.Table
/-!
# Runs of lowering

A run that ends without a failure, told step by step: `Lowering.Decides`
for the instructions of a function and `Lowering.Sweeps` for the functions
of a program. Where a step sets at most the value that its instruction
computes, what a step finds or leaves in the table stays there to the end
of the run (`Decides.exists_visit`).
-/


namespace QuantumLowering

namespace Lowering

variable {α : Type} {step : Stock → Instruction → Draw α}

/-! ## Instructions -/

/-- **A run over instructions** with its decisions. -/
inductive Decides (step : Stock → Instruction → Draw α) :
    Stock → List (Site × Instruction) → List (Site × α) → Stock → Prop
  /-- It ends. -/
  | nil (s : Stock) : Decides step s [] [] s
  /-- It decides an instruction and goes on. -/
  | cons {s s₁ s' : Stock} {x : Site} {i : Instruction} {a : α}
      {l : List (Site × Instruction)} {ds : List (Site × α)} :
    step s i = (s₁, .ok a) → Decides step s₁ l ds s' →
      Decides step s ((x, i) :: l) ((x, a) :: ds) s'

theorem decides_decideAll {s : Stock} {l : List (Site × Instruction)}
    (h : (decideAll step s l).failure = none) :
    Decides step s l (decideAll step s l).decisions (decideAll step s l).stock := by
  induction l generalizing s with
  | nil => exact .nil s
  | cons e l ih =>
    obtain ⟨x, i⟩ := e
    unfold decideAll at h ⊢
    cases hs : step s i with
    | mk s₁ r =>
      cases r with
      | error e => simp [hs] at h
      | ok a =>
        simp only [hs] at h ⊢
        exact .cons hs (ih h)

namespace Decides

variable {s s' : Stock} {l : List (Site × Instruction)} {ds : List (Site × α)}

/-- The decisions of a run are those that were decided. -/
theorem decisions_decideAll (h : Decides step s l ds s') : (decideAll step s l).decisions = ds := by
  induction h with
  | nil => rfl
  | cons hs _ ih => simp only [decideAll, hs, ih]

/-- There is a decision for every site, in order. -/
theorem map_fst (h : Decides step s l ds s') : ds.map Prod.fst = l.map Prod.fst := by
  induction h with
  | nil => rfl
  | cons _ _ ih => simp [ih]

/-- A run over a longer list goes through the stock of the shorter one. -/
theorem exists_append {l₁ l₂ : List (Site × Instruction)} (h : Decides step s (l₁ ++ l₂) ds s') :
    ∃ ds₁ ds₂ s₁, ds = ds₁ ++ ds₂ ∧ Decides step s l₁ ds₁ s₁ ∧ Decides step s₁ l₂ ds₂ s' := by
  induction l₁ generalizing s ds with
  | nil => exact ⟨[], ds, s, rfl, .nil s, h⟩
  | cons e l₁ ih =>
    cases h with
    | cons hs h =>
      obtain ⟨ds₁, ds₂, s₁, rfl, h₁, h₂⟩ := ih h
      exact ⟨_ :: ds₁, ds₂, s₁, rfl, .cons hs h₁, h₂⟩

/-- A step sets at most the value that its instruction computes. -/
def Frames (step : Stock → Instruction → Draw α) : Prop :=
  ∀ s i s' a, step s i = (s', .ok a) → ∀ u, i.result ≠ some u →
    s'.tracker.resolve? u = s.tracker.resolve? u

/-- A run sets at most the values that its instructions compute. -/
theorem frame (hf : Frames step) (h : Decides step s l ds s') {u : ValueId}
    (hu : ∀ e ∈ l, e.2.result ≠ some u) : s'.tracker.resolve? u = s.tracker.resolve? u := by
  induction h with
  | nil => rfl
  | cons hs _ ih =>
    rw [ih fun e he => hu e (List.mem_cons_of_mem _ he)]
    exact hf _ _ _ _ hs u (hu _ List.mem_cons_self)

/-- Where values are told apart, those of later instructions are new. -/
theorem result_ne_of_nodup {l₁ l₂ : List (Site × Instruction)} {u : ValueId}
    (nodup : ((l₁ ++ l₂).filterMap fun e => e.2.result).Nodup) {d : Site × Instruction}
    (hd : d ∈ l₁) (hu : d.2.result = some u) : ∀ e ∈ l₂, e.2.result ≠ some u := by
  intro e he heu
  rw [List.filterMap_append, List.nodup_append] at nodup
  exact nodup.2.2 u (List.mem_filterMap.2 ⟨d, hd, hu⟩) u (List.mem_filterMap.2 ⟨e, he, heu⟩) rfl

/-- Where sites are told apart, each has one decision. -/
theorem decision_unique (h : Decides step s l ds s') (nodup : (l.map Prod.fst).Nodup)
    {x : Site} {a b : α} (ha : (x, a) ∈ ds) (hb : (x, b) ∈ ds) : a = b := by
  rw [← h.map_fst] at nodup
  have := List.inj_on_of_nodup_map nodup ha hb rfl
  exact (Prod.mk.inj this).2

/-- What steps keep, a run keeps. -/
theorem invariant {P : Stock → Prop} (h : Decides step s l ds s') (hs : P s)
    (hstep : ∀ e ∈ l, ∀ s s' a, P s → step s e.2 = (s', .ok a) → P s') : P s' := by
  induction h with
  | nil => exact hs
  | cons hst _ ih =>
    exact ih (hstep _ List.mem_cons_self _ _ _ hs hst) fun e he =>
      hstep e (List.mem_cons_of_mem _ he)

/-- Every decision was made for an instruction, while what steps keep held. -/
theorem exists_step_of_mem {P : Stock → Prop} (h : Decides step s l ds s') (hs : P s)
    (hstep : ∀ e ∈ l, ∀ s s' a, P s → step s e.2 = (s', .ok a) → P s') {x : Site} {a : α}
    (hmem : (x, a) ∈ ds) :
    ∃ i s₁ s₂, (x, i) ∈ l ∧ P s₁ ∧ step s₁ i = (s₂, .ok a) := by
  induction h with
  | nil => cases hmem
  | @cons _ _ _ y i b l _ hi _ ih =>
    rcases List.mem_cons.1 hmem with heq | hmem
    · cases heq
      exact ⟨i, _, _, List.mem_cons_self, hs, hi⟩
    · obtain ⟨j, s₁, s₂, hj, hs₁, hjstep⟩ := ih (hstep _ List.mem_cons_self _ _ _ hs hi)
        (fun e he => hstep e (List.mem_cons_of_mem _ he)) hmem
      exact ⟨j, s₁, s₂, List.mem_cons_of_mem _ hj, hs₁, hjstep⟩

/-- **The visit of an instruction** in a run over a function: the stock
before and after it and the decision. The table at the end agrees with what
the visit left for its own value and with what it found for others, unless
these were as at the start. -/
structure Visit (step : Stock → Instruction → Draw α) (s : Stock) (f : Function)
    (ds : List (Site × α)) (s' : Stock) (e : Site × Instruction) (s₁ s₂ : Stock) (a : α) :
    Prop where
  /-- What it found of a value that neither it nor a later instruction
  computes stays. -/
  stays : ∃ l₁ l₂, f.visited = l₁ ++ e :: l₂ ∧ ∀ u, (∀ d ∈ e :: l₂, d.2.result ≠ some u) →
    s'.tracker.resolve? u = s₁.tracker.resolve? u
  /-- The step that was taken. -/
  step : step s₁ e.2 = (s₂, .ok a)
  /-- It is the decision for the site. -/
  decision : ∀ b, (e.1, b) ∈ ds ↔ b = a
  /-- Its value was not looked at before. -/
  new : ∀ v, e.2.result = some v → s₁.tracker.resolve? v = s.tracker.resolve? v
  /-- Its value is not looked at again. -/
  result : ∀ v, e.2.result = some v → s'.tracker.resolve? v = s₂.tracker.resolve? v
  /-- What it found of a value stays, but for values of the function that
  were not looked at before. -/
  others : ∀ u, (u ∈ f.definedValues ∧ s₁.tracker.resolve? u = s.tracker.resolve? u) ∨
    s'.tracker.resolve? u = s₁.tracker.resolve? u

/-- **Each instruction of a function has its visit**, at which nothing was found yet
of what is not visited before. -/
theorem exists_visit_unmet (hf : Frames step) {f : Function} (h : Decides step s f.visited ds s')
    (nodup : f.definedValues.Nodup) {e : Site × Instruction} (he : e ∈ f.located) :
    ∃ s₁ s₂ a, Visit step s f ds s' e s₁ s₂ a ∧
      ∀ d ∈ f.located, ∀ u, d.2.result = some u → ¬ f.VisitedBefore d.1 e.1 →
        s₁.tracker.resolve? u = s.tracker.resolve? u := by
  obtain ⟨l₁, l₂, hl⟩ := List.append_of_mem (Function.mem_visited.2 he)
  have values := Function.nodup_visited_results nodup
  have sites : (f.visited.map Prod.fst).Nodup := Function.nodup_visited
  have h' := h
  rw [hl] at values h'
  obtain ⟨x, i⟩ := e
  obtain ⟨ds₁, ds₂, s₁, rfl, h₁, h₂⟩ := h'.exists_append
  cases h₂ with
  | @cons _ s₂ _ _ _ a _ _ hs h₂ =>
    have after : (([(x, i)] ++ l₂).filterMap fun e => e.2.result).Nodup := by
      rw [List.filterMap_append] at values
      exact (List.nodup_append.1 values).2.1
    refine ⟨s₁, s₂, a, ⟨⟨l₁, l₂, hl, fun u hu => (Decides.cons hs h₂).frame hf hu⟩, hs,
      fun b => ⟨fun hb => ?_, ?_⟩, ?_, ?_, ?_⟩, ?_⟩
    · exact h.decision_unique sites hb (by simp)
    · rintro rfl
      simp
    · intro v hv
      refine h₁.frame hf fun d hd hdv => ?_
      exact result_ne_of_nodup values hd hdv (x, i) List.mem_cons_self hv
    · intro v hv
      exact h₂.frame hf (result_ne_of_nodup after List.mem_cons_self hv)
    · intro u
      -- a value still to be computed was not set before, and any other is not set again
      by_cases hu : ∃ d ∈ (x, i) :: l₂, d.2.result = some u
      · obtain ⟨d, hd, hdu⟩ := hu
        have hmem : d ∈ f.located := Function.mem_visited.1 (hl ▸ List.mem_append_right l₁ hd)
        refine .inl ⟨Function.result_mem_definedValues hmem hdu, h₁.frame hf fun c hc hcu => ?_⟩
        exact result_ne_of_nodup values hc hcu d hd hdu
      · push Not at hu
        exact .inr ((Decides.cons hs h₂).frame hf hu)
    · intro d hd u hu unmet
      refine h₁.frame hf fun c hc hcu => ?_
      have hcl : c ∈ f.located := Function.mem_visited.1 (hl ▸ List.mem_append_left _ hc)
      obtain rfl := Function.located_eq_of_result nodup hcl hd hcu hu
      exact unmet (Function.visitedBefore_of_mem hl hc)

/-- **Each instruction of a function has its visit.** -/
theorem exists_visit (hf : Frames step) {f : Function} (h : Decides step s f.visited ds s')
    (nodup : f.definedValues.Nodup) {e : Site × Instruction} (he : e ∈ f.located) :
    ∃ s₁ s₂ a, Visit step s f ds s' e s₁ s₂ a := by
  obtain ⟨s₁, s₂, a, visit, -⟩ := h.exists_visit_unmet hf nodup he
  exact ⟨s₁, s₂, a, visit⟩

namespace Visit

variable {f : Function} {e : Site × Instruction} {s₁ s₂ : Stock} {a : α} {kind : ResourceKind}

/-- What an operand stood for at a visit it stands for at the end, where
nothing was known of the values of the function at the start. -/
theorem resolveAs?_eq (visit : Visit step s f ds s' e s₁ s₂ a)
    (new : ∀ u ∈ f.definedValues, s.tracker.resolveAs? kind (.value u) = none) {op : Operand}
    {r : Resource} (h : s₁.tracker.resolveAs? kind op = some r) :
    s'.tracker.resolveAs? kind op = some r := by
  rw [← h]
  refine Tracker.resolveAs?_congr fun u hu => ?_
  subst hu
  rcases visit.others u with ⟨hmem, hu⟩ | hu
  · rw [Tracker.resolveAs?_value_congr hu, new u hmem] at h
    cases h
  · exact hu

/-- What is visited before an instruction was found as it is in the end. -/
theorem resolveAs?_eq_of_visitedBefore (visit : Visit step s f ds s' e s₁ s₂ a) {op : Operand}
    (before : ∀ u, op = .value u → ∀ d ∈ f.located, d.2.result = some u →
      f.VisitedBefore d.1 e.1) :
    s₁.tracker.resolveAs? kind op = s'.tracker.resolveAs? kind op := by
  obtain ⟨l₁, l₂, hl, stays⟩ := visit.stays
  refine Tracker.resolveAs?_congr fun u hu => (stays u fun d hd hdu => ?_).symm
  have hdl : d ∈ f.located := Function.mem_visited.1 (hl ▸ List.mem_append_right _ hd)
  exact Function.not_visitedBefore_of_mem hl hd (before u hu d hdl hdu)

end Visit

/-- Parameters and the values of other functions stay as they were. -/
theorem frame_visited (hf : Frames step) {f : Function} (h : Decides step s f.visited ds s')
    {u : ValueId} (hu : ∀ e ∈ f.located, e.2.result ≠ some u) :
    s'.tracker.resolve? u = s.tracker.resolve? u :=
  h.frame hf fun e he => hu e (Function.mem_visited.1 he)

/-- No instruction computes a parameter. -/
theorem frame_params (hf : Frames step) {f : Function} (h : Decides step s f.visited ds s')
    (nodup : f.definedValues.Nodup) {u : ValueId} (hu : u ∈ f.params.map Param.value) :
    s'.tracker.resolve? u = s.tracker.resolve? u := by
  refine h.frame_visited hf fun e he heu => ?_
  refine (List.nodup_append.1 nodup).2.2 u hu u ?_ rfl
  exact List.mem_filterMap.2 ⟨e.2, Function.mem_instructions.2 ⟨e.1, he⟩, heu⟩

end Decides

/-- A site is among those picked by their decisions if its decision is. -/
theorem mem_picked {ds : List (Site × α)} {x : Site} {a : α} (h : ∀ b, (x, b) ∈ ds ↔ b = a)
    {P : α → Bool} : x ∈ (ds.filter fun d => P d.2).map Prod.fst ↔ P a = true := by
  constructor
  · intro hx
    obtain ⟨⟨y, b⟩, hd, rfl⟩ := List.mem_map.1 hx
    obtain ⟨hd, hb⟩ := List.mem_filter.1 hd
    exact (h b).1 hd ▸ hb
  · intro ha
    exact List.mem_map.2 ⟨(x, a), List.mem_filter.2 ⟨(h a).2 rfl, ha⟩, rfl⟩

/-! ## Functions -/

/-- **A run over functions.** -/
inductive Sweeps (lower : Stock → Function → Lowered) :
    Stock → List Function → List Function → Stock → Prop
  /-- It ends. -/
  | nil (s : Stock) : Sweeps lower s [] [] s
  /-- Declarations stay. -/
  | declaration {s s' : Stock} {f : Function} {fs gs : List Function} :
    f.isDeclaration → Sweeps lower s fs gs s' → Sweeps lower s (f :: fs) (f :: gs) s'
  /-- Definitions are lowered. -/
  | definition {s s' : Stock} {f : Function} {fs gs : List Function} :
    ¬ f.isDeclaration → (lower s f).failure = none → Sweeps lower (lower s f).stock fs gs s' →
      Sweeps lower s (f :: fs) ((lower s f).function :: gs) s'

variable {lower : Stock → Function → Lowered}

theorem sweeps_sweep {s : Stock} {fs : List Function} (h : (sweep lower s fs).failure = none) :
    Sweeps lower s fs (sweep lower s fs).functions (sweep lower s fs).stock := by
  induction fs generalizing s with
  | nil => exact .nil s
  | cons f fs ih =>
    unfold sweep at h ⊢
    by_cases hd : f.isDeclaration
    · simp only [hd, if_true] at h ⊢
      exact .declaration hd (ih h)
    · simp only [hd] at h ⊢
      cases hl : (lower s f).failure with
      | some e => simp [hl] at h
      | none =>
        simp only [hl] at h ⊢
        exact .definition hd hl (ih h)

/-- What lowering does to every definition, a run does to the functions
one by one. -/
theorem Sweeps.forall₂ {R : Function → Function → Prop} {s s' : Stock} {fs gs : List Function}
    (h : Sweeps lower s fs gs s') (declaration : ∀ f ∈ fs, f.isDeclaration → R f f)
    (definition : ∀ s, ∀ f ∈ fs, ¬ f.isDeclaration → (lower s f).failure = none →
      R f (lower s f).function) :
    List.Forall₂ R fs gs := by
  induction h with
  | nil => exact .nil
  | declaration hd _ ih =>
    exact .cons (declaration _ List.mem_cons_self hd)
      (ih (fun f hf => declaration f (List.mem_cons_of_mem _ hf))
        fun s f hf => definition s f (List.mem_cons_of_mem _ hf))
  | definition hd hl _ ih =>
    exact .cons (definition _ _ List.mem_cons_self hd hl)
      (ih (fun f hf => declaration f (List.mem_cons_of_mem _ hf))
        fun s f hf => definition s f (List.mem_cons_of_mem _ hf))

/-- One run after another. -/
theorem Sweeps.append {s s₁ s' : Stock} {fs₁ fs₂ gs₁ gs₂ : List Function}
    (h : Sweeps lower s fs₁ gs₁ s₁) (k : Sweeps lower s₁ fs₂ gs₂ s') :
    Sweeps lower s (fs₁ ++ fs₂) (gs₁ ++ gs₂) s' := by
  induction h with
  | nil => exact k
  | declaration hd _ ih => exact .declaration hd (ih k)
  | definition hd hl _ ih => exact .definition hd hl (ih k)

/-- What lowering every definition keeps, a run keeps. -/
theorem Sweeps.invariant {P : Stock → Prop} {s s' : Stock} {fs gs : List Function}
    (h : Sweeps lower s fs gs s') (hs : P s)
    (step : ∀ f ∈ fs, ¬ f.isDeclaration → ∀ s, P s → (lower s f).failure = none →
      P (lower s f).stock) : P s' := by
  induction h with
  | nil => exact hs
  | declaration _ _ ih => exact ih hs fun f hf => step f (List.mem_cons_of_mem _ hf)
  | definition hd hl _ ih =>
    exact ih (step _ List.mem_cons_self hd _ hs hl) fun f hf => step f (List.mem_cons_of_mem _ hf)

/-- What lowering does to every definition, while it keeps something, a run does
to the functions one by one. -/
theorem Sweeps.forall₂_of_invariant {P : Stock → Prop} {R : Function → Function → Prop}
    {s s' : Stock} {fs gs : List Function} (h : Sweeps lower s fs gs s') (hs : P s)
    (declaration : ∀ f ∈ fs, f.isDeclaration → R f f)
    (definition : ∀ f ∈ fs, ¬ f.isDeclaration → ∀ s, P s → (lower s f).failure = none →
      P (lower s f).stock ∧ R f (lower s f).function) :
    P s' ∧ List.Forall₂ R fs gs := by
  induction h with
  | nil => exact ⟨hs, .nil⟩
  | @declaration _ _ f _ _ hd _ ih =>
    obtain ⟨hs', rest⟩ := ih hs (fun g hg => declaration g (List.mem_cons_of_mem f hg))
      fun g hg => definition g (List.mem_cons_of_mem f hg)
    exact ⟨hs', .cons (declaration f List.mem_cons_self hd) rest⟩
  | @definition _ _ f _ _ hd hl _ ih =>
    obtain ⟨hs₁, hR⟩ := definition f List.mem_cons_self hd _ hs hl
    obtain ⟨hs', rest⟩ := ih hs₁ (fun g hg => declaration g (List.mem_cons_of_mem f hg))
      fun g hg => definition g (List.mem_cons_of_mem f hg)
    exact ⟨hs', .cons hR rest⟩

/-- Lowering a function sets at most the values that the function
defines. -/
def Sweeps.Frames (lower : Stock → Function → Lowered) : Prop :=
  ∀ s f, (lower s f).failure = none → ∀ u, u ∉ f.definedValues →
    (lower s f).stock.tracker.resolve? u = s.tracker.resolve? u

/-- The values that some functions define. -/
def definedBy (fs : List Function) : List ValueId :=
  (fs.filter fun f => !f.isDeclaration).flatMap Function.definedValues

theorem definedBy_cons {f : Function} {fs : List Function} (h : ¬ f.isDeclaration) :
    definedBy (f :: fs) = f.definedValues ++ definedBy fs := by
  simp [definedBy, h]

theorem definedBy_cons_declaration {f : Function} {fs : List Function} (h : f.isDeclaration) :
    definedBy (f :: fs) = definedBy fs := by
  simp [definedBy, h]

/-- A run sets at most the values that its functions define. -/
theorem Sweeps.frame {s s' : Stock} {fs gs : List Function} (hf : Frames lower)
    (h : Sweeps lower s fs gs s') {u : ValueId} (hu : u ∉ definedBy fs) :
    s'.tracker.resolve? u = s.tracker.resolve? u := by
  induction h with
  | nil => rfl
  | declaration hd _ ih =>
    rw [definedBy_cons_declaration hd] at hu
    exact ih hu
  | definition hd hl _ ih =>
    rw [definedBy_cons hd, List.mem_append, not_or] at hu
    rw [ih hu.2, hf _ _ hl u hu.1]

/-- **The turn of a definition** in a run over functions: the stock that
lowering it starts from. On its values the table there is the one from the
start, and the one it leaves stays. -/
structure Sweeps.Turn (lower : Stock → Function → Lowered) (s : Stock) (fs : List Function)
    (s' : Stock) (f g : Function) (s₁ : Stock) : Prop where
  /-- The functions in front of it were lowered before. -/
  before : ∃ fs₁ fs₂ gs₁, fs = fs₁ ++ f :: fs₂ ∧ Sweeps lower s fs₁ gs₁ s₁
  /-- Lowering does not fail. -/
  failure : (lower s₁ f).failure = none
  /-- This is what it makes of the definition. -/
  function : g = (lower s₁ f).function
  /-- The values of the definition were not looked at before. -/
  new : ∀ u ∈ f.definedValues, s₁.tracker.resolve? u = s.tracker.resolve? u
  /-- They are not looked at again. -/
  result : ∀ u ∈ f.definedValues,
    s'.tracker.resolve? u = (lower s₁ f).stock.tracker.resolve? u

/-- **Each definition has its turn.** -/
theorem Sweeps.exists_turn {s s' : Stock} {fs gs : List Function} (hf : Frames lower)
    (h : Sweeps lower s fs gs s') (nodup : (definedBy fs).Nodup) :
    List.Forall₂ (fun f g => f.isDeclaration ∧ g = f ∨
      ¬ f.isDeclaration ∧ ∃ s₁, Turn lower s fs s' f g s₁) fs gs := by
  -- the functions lowered before the remaining ones, which do not define their values
  suffices key : ∀ s₀ fs₀ fs₁ gs₁, fs₀ = fs₁ ++ fs → Sweeps lower s₀ fs₁ gs₁ s →
      (∀ u ∈ definedBy fs, u ∉ definedBy fs₁) →
      List.Forall₂ (fun f g => f.isDeclaration ∧ g = f ∨
        ¬ f.isDeclaration ∧ ∃ s₁, Turn lower s₀ fs₀ s' f g s₁) fs gs from
    key s fs [] [] rfl (.nil s) fun u _ => by simp [definedBy]
  induction h with
  | nil => exact fun _ _ _ _ _ _ _ => .nil
  | @declaration s s' f fs gs hd _ ih =>
    rw [definedBy_cons_declaration hd] at nodup
    intro s₀ fs₀ fs₁ gs₁ hsplit h₁ apart
    rw [definedBy_cons_declaration hd] at apart
    have next : Sweeps lower s₀ (fs₁ ++ [f]) (gs₁ ++ [f]) s :=
      h₁.append (.declaration hd (.nil _))
    refine .cons (.inl ⟨hd, rfl⟩) (ih nodup s₀ fs₀ (fs₁ ++ [f]) _ (by simp [hsplit]) next ?_)
    simpa [definedBy, hd] using apart
  | @definition s s' f fs gs hd hl h ih =>
    rw [definedBy_cons hd] at nodup
    obtain ⟨-, nodup', disjoint⟩ := List.nodup_append.1 nodup
    intro s₀ fs₀ fs₁ gs₁ hsplit h₁ apart
    rw [definedBy_cons hd] at apart
    have next : Sweeps lower s₀ (fs₁ ++ [f]) (gs₁ ++ [(lower s f).function]) (lower s f).stock :=
      h₁.append (.definition hd hl (.nil _))
    refine .cons ?_ (ih nodup' s₀ fs₀ (fs₁ ++ [f]) _ (by simp [hsplit]) next ?_)
    · refine .inr ⟨hd, s, ⟨fs₁, fs, gs₁, hsplit, h₁⟩, hl, rfl, fun u hu => ?_, fun u hu => ?_⟩
      · exact h₁.frame hf (apart u (List.mem_append_left _ hu))
      · exact h.frame hf fun hmem => disjoint u hu u hmem rfl
    · intro u hu hmem
      have hsplit : definedBy (fs₁ ++ [f]) = definedBy fs₁ ++ f.definedValues := by
        simp [definedBy, hd]
      rw [hsplit, List.mem_append] at hmem
      rcases hmem with hmem | hmem
      · exact apart u (List.mem_append_right _ hu) hmem
      · exact disjoint u hmem u hu rfl

/-- What lowering keeps still holds when a definition has its turn. -/
theorem Sweeps.Turn.invariant {P : Stock → Prop} {s s' s₁ : Stock} {fs : List Function}
    {f g : Function} (turn : Turn lower s fs s' f g s₁) (hs : P s)
    (step : ∀ f ∈ fs, ¬ f.isDeclaration → ∀ s, P s → (lower s f).failure = none →
      P (lower s f).stock) : P s₁ := by
  obtain ⟨fs₁, fs₂, gs₁, rfl, before⟩ := turn.before
  exact before.invariant hs fun f hf => step f (List.mem_append_left _ hf)

/-! ## Programs -/

variable {kind : ResourceKind} {p : Program} {c : Context}

/-- A run keeps the names of functions, also where it fails. -/
theorem names_run (hname : ∀ s f, (lower s f).failure = none → (lower s f).function.name = f.name) :
    (run kind lower p c).program.functions.map Function.name = p.functions.map Function.name := by
  change (sweep lower (c.stock kind) p.functions).functions.map Function.name = _
  generalize c.stock kind = s
  induction p.functions generalizing s with
  | nil => rfl
  | cons f fs ih =>
    unfold sweep
    by_cases hd : f.isDeclaration
    · simp [hd, ih]
    · cases hl : (lower s f).failure with
      | some e => simp [hd, hl]
      | none => simp [hd, hl, hname s f hl, ih]

theorem sweeps_run (h : (run kind lower p c).failure = none) :
    ∃ s', Sweeps lower (c.stock kind) p.functions (run kind lower p c).program.functions s' ∧
      (run kind lower p c).context = c.withStock kind s' :=
  ⟨_, sweeps_sweep h, rfl⟩

/-- **Each definition of a program has its turn.** -/
theorem exists_turns (hf : Sweeps.Frames lower)
    (hd : ∀ s f, (lower s f).failure = none → (lower s f).function.isDeclaration = f.isDeclaration)
    (nodup : (p.definitions.flatMap Function.definedValues).Nodup)
    (h : (run kind lower p c).failure = none) :
    ∃ s', (run kind lower p c).context = c.withStock kind s' ∧
      Sweeps lower (c.stock kind) p.functions (run kind lower p c).program.functions s' ∧
      List.Forall₂ (fun f g => ∃ s₁, Sweeps.Turn lower (c.stock kind) p.functions s' f g s₁)
        p.definitions (run kind lower p c).program.definitions := by
  obtain ⟨s', sweeps, hc⟩ := sweeps_run h
  refine ⟨s', hc, sweeps, ?_⟩
  have turns := Program.forall₂_definitions (fun f g hfg => ?_) (sweeps.exists_turn hf nodup)
  · refine forall₂_imp_of_mem turns fun f hf g hfg => ?_
    exact (hfg.resolve_left fun h => (Program.mem_definitions.1 hf).2 h.1).2
  · rcases hfg with ⟨-, rfl⟩ | ⟨-, s₁, turn⟩
    · rfl
    · exact turn.function ▸ hd s₁ f turn.failure

end Lowering

end QuantumLowering
