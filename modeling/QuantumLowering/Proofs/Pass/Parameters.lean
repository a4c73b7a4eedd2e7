import QuantumLowering.Proofs.Pass.Resolution
/-!
# Parameters of pipeline elements

The parameters of an element are for the factory of its pass, and the passes
of this library take none. So if a pipeline can be resolved, parameters can
stand at adaptors only (`Registry.parameters_heeded`). There nobody looks at
them: the pipeline is resolved as if they were not there, and passes that are
listed as parameters of an adaptor are lost without a word.
-/


namespace QuantumLowering

namespace Pipeline

/-! ## Adaptors without parameters -/

mutual

/-- An element without the parameters of adaptors. -/
def Element.bare : Element → Element
  | .mk name params nested =>
    .mk name (if Registry.adaptors.contains name then [] else params) (bare nested)

/-- A pipeline without the parameters of adaptors. -/
def bare : List Element → List Element
  | [] => []
  | e :: es => e.bare :: bare es

end

/-- Where nothing is nested in the elements that are reached, all others are adaptors. -/
theorem filter_everyElement : ∀ {es : List Element}, (∀ e ∈ flatten es, e.nested = []) →
    (everyElement es).filter (fun e => !e.isAdaptor) = flatten es
  | [], _ => rfl
  | .mk name params nested :: es, h => by
    rw [flatten] at h ⊢
    obtain ⟨inside, later⟩ := List.forall_mem_append.1 h
    rw [everyElement_cons, List.filter_cons, List.filter_append, filter_everyElement later]
    unfold Element.isAdaptor Element.name
    unfold Element.flatten at inside ⊢
    cases hn : Registry.adaptors.contains name with
    | true =>
      rw [hn, if_pos rfl] at inside
      simp only [Bool.not_true, Bool.false_eq_true, if_false, if_true]
      rw [← filter_everyElement inside]
      rfl
    | false =>
      rw [hn, if_neg Bool.false_ne_true] at inside
      -- it is reached itself, so nothing is nested in it that could be left out
      have plain : nested = [] := inside _ (List.mem_singleton_self _)
      rw [plain]
      rfl

end Pipeline

namespace Registry

open Pipeline

variable {r : Registry} {e : Element} {pass : Pass} {text : String} {es : List Element}
variable {passes : List Pass}

theorem parse_of_parse (parsed : Pipeline.parse text = .ok es) : r.parse text = r.resolve es := by
  rw [parse, parsed]

/-- **A pass is made for every element but the adaptors**, from its parameters. -/
theorem makes_of_resolve (h : r.resolve es = .ok passes) :
    List.Forall₂ r.Makes ((everyElement es).filter fun e => !e.isAdaptor) passes := by
  have made := resolve_eq_ok_iff.1 h
  rwa [filter_everyElement fun e he => ?_]
  obtain ⟨pass, -, hpass⟩ := exists_right_of_forall₂ made he
  exact hpass.plain

mutual

theorem resolveElement_bare (r : Registry) : ∀ e : Element,
    r.resolveElement e.bare = r.resolveElement e
  | .mk name params nested => by
    rw [Element.bare, resolveElement, resolveElement, resolve_bare r nested]
    have same : (bare nested).isEmpty = nested.isEmpty := by cases nested <;> rfl
    rw [same]
    split <;> rfl

/-- **Nobody looks at the parameters of adaptors.** -/
theorem resolve_bare (r : Registry) : ∀ es : List Element, r.resolve (bare es) = r.resolve es
  | [] => rfl
  | e :: es => by rw [bare, resolve, resolve, resolveElement_bare r e, resolve_bare r es]

end

/-! ## Passes without parameters -/

/-- **No pass takes parameters**: every factory refuses them. -/
def TakesNone (r : Registry) : Prop :=
  ∀ name factory, r.factories.find? name = some factory →
    ∀ params pass, factory params = .ok pass → params = []

theorem takesNone_empty : empty.TakesNone := fun _ _ h => by cases h

/-- A pass without parameters can be added. -/
theorem TakesNone.registerPlain (h : r.TakesNone) (name : String) (pass : Pass) :
    (r.registerPlain name pass).TakesNone := by
  intro other factory hf params made hmade
  rw [Registry.registerPlain, register, SortedMap.find?_insert] at hf
  split at hf
  · obtain rfl := Option.some.inj hf
    cases params with
    | nil => rfl
    | cons param params => cases hmade
  · exact h other factory hf params made hmade

theorem takesNone_builtin : builtin.TakesNone := by
  have added : ∀ (passes : List Pass) (r : Registry), r.TakesNone →
      (passes.foldl (fun r pass => r.registerPlain pass.name pass) r).TakesNone := by
    intro passes
    induction passes with
    | nil => exact fun _ h => h
    | cons pass passes ih => exact fun r h => ih _ (h.registerPlain pass.name pass)
  exact added _ empty takesNone_empty

theorem TakesNone.params (h : r.TakesNone) (made : r.Makes e pass) : e.params = [] := by
  obtain ⟨factory, hf, hmade⟩ := made.made
  exact h e.name factory hf e.params pass hmade

/-! ## What becomes of parameters -/

/-- **Parameters are heeded, but for those of adaptors.** If this library can resolve a
text, no element anywhere in its pipeline has parameters unless it is an adaptor. With any
registry that can resolve it, the factory of every other element has accepted its
parameters. Those of adaptors make no difference, whether the text can be resolved or
not. -/
theorem parameters_heeded (text : String) (es : List Element)
    (parsed : Pipeline.parse text = .ok es) :
    (∀ passes, builtin.parse text = .ok passes →
      ∀ e ∈ everyElement es, e.isAdaptor = false → e.params = []) ∧
    ∀ r : Registry, r.parse text = r.resolve (bare es) ∧
      ∀ passes, r.parse text = .ok passes →
        List.Forall₂ r.Makes ((everyElement es).filter fun e => !e.isAdaptor) passes := by
  have made : ∀ (r : Registry) passes, r.parse text = .ok passes →
      List.Forall₂ r.Makes ((everyElement es).filter fun e => !e.isAdaptor) passes :=
    fun r passes h => makes_of_resolve ((parse_of_parse parsed).symm.trans h)
  refine ⟨fun passes h e he plain => ?_, fun r => ⟨?_, made r⟩⟩
  · have hmem : e ∈ (everyElement es).filter fun e => !e.isAdaptor :=
      List.mem_filter.2 ⟨he, by simp [plain]⟩
    obtain ⟨pass, -, hpass⟩ := exists_right_of_forall₂ (made builtin passes h) hmem
    exact takesNone_builtin.params hpass
  · rw [resolve_bare, parse_of_parse parsed]

theorem parameters_heeded_strict :
    Pipeline.parse "module<strict>(verify,print)" =
        .ok [.mk "module" ["strict"] [.mk "verify" [] [], .mk "print" [] []]] ∧
      builtin.parse "module<strict>(verify,print)" = .ok [.verify, .print] ∧
      (∀ e ∈ everyElement [.mk "module" ["strict"] [.mk "verify" [] [], .mk "print" [] []]],
        e.isAdaptor = false → e.params = []) ∧
      builtin.parse "module<strict>(verify,print)" =
        builtin.resolve [.mk "module" [] [.mk "verify" [] [], .mk "print" [] []]] := by
  have parsed : Pipeline.parse "module<strict>(verify,print)" =
      .ok [.mk "module" ["strict"] [.mk "verify" [] [], .mk "print" [] []]] := rfl
  have verify : builtin.make "verify" [] = .ok .verify := rfl
  have print : builtin.make "print" [] = .ok .print := rfl
  have resolved : builtin.parse "module<strict>(verify,print)" = .ok [.verify, .print] := by
    simp only [parse, parsed, resolve, resolveElement, verify, print]
    rfl
  obtain ⟨heeded, others⟩ := parameters_heeded _ _ parsed
  exact ⟨parsed, resolved, heeded _ resolved, (others builtin).1⟩

/-- **Passes that are listed as parameters of an adaptor are lost**: the text can be
resolved, but there is no pass for it. -/
theorem adaptor_parameters_lost :
    builtin.parse "module<qubit-allocation;result-allocation>" = .ok [] ∧
      ∃ es, Pipeline.parse "module<qubit-allocation;result-allocation>" = .ok es ∧
        ∃ e ∈ everyElement es, e.params = ["qubit-allocation", "result-allocation"] := by
  have parsed : Pipeline.parse "module<qubit-allocation;result-allocation>" =
      .ok [.mk "module" ["qubit-allocation", "result-allocation"] []] := rfl
  refine ⟨?_, _, parsed, _, List.mem_singleton_self _, rfl⟩
  simp only [parse, parsed, resolve, resolveElement]
  rfl

end Registry

end QuantumLowering
