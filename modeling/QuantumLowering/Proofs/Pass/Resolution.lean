import QuantumLowering.Pass.Registry
import QuantumLowering.Proofs.Pass.Soundness
/-!
# Resolving pipelines

Adaptors only group elements: a pipeline stands for the elements that are
reached through them. Resolving it makes a pass for each of these in the order
of the text, or fails with what is wrong with the first that has none
(`Registry.resolve_flattens`).
-/


namespace QuantumLowering

/-! ## Going through a list up to the first failure -/

section Traversal

variable {α β ε : Type} {P Q : α → Prop} {f : α → Except ε β} {l : List α}

/-- The first item of a kind is in front, or it is the first one further on. -/
theorem exists_first_cons {x : α} :
    (∃ before a after, x :: l = before ++ a :: after ∧ (∀ b ∈ before, Q b) ∧ P a) ↔
      P x ∨ Q x ∧ ∃ before a after, l = before ++ a :: after ∧ (∀ b ∈ before, Q b) ∧ P a := by
  constructor
  · rintro ⟨before, a, after, heq, hq, hp⟩
    cases before with
    | nil =>
      obtain ⟨rfl, rfl⟩ := List.cons.inj heq
      exact .inl hp
    | cons y before =>
      obtain ⟨rfl, rfl⟩ := List.cons.inj heq
      obtain ⟨hx, hq⟩ := List.forall_mem_cons.1 hq
      exact .inr ⟨hx, before, a, after, rfl, hq, hp⟩
  · rintro (hp | ⟨hx, before, a, after, rfl, hq, hp⟩)
    · exact ⟨[], x, l, rfl, List.forall_mem_nil _, hp⟩
    · exact ⟨x :: before, a, after, rfl, List.forall_mem_cons.2 ⟨hx, hq⟩, hp⟩

/-- It succeeds if every item does, with their results in order. -/
theorem mapM_eq_ok_iff {bs : List β} :
    l.mapM f = .ok bs ↔ List.Forall₂ (fun a b => f a = .ok b) l bs := by
  induction l generalizing bs with
  | nil => cases bs <;> simp [pure, Except.pure]
  | cons x l ih =>
    rw [List.mapM_cons, List.forall₂_cons_left_iff]
    simp only [← ih]
    cases f x <;> cases l.mapM f <;> simp [bind, Except.bind, pure, Except.pure, eq_comm]

/-- It fails if some item does, with the failure of the first. -/
theorem mapM_eq_error_iff {e : ε} :
    l.mapM f = .error e ↔ ∃ before a after, l = before ++ a :: after ∧
      (∀ b ∈ before, ∃ y, f b = .ok y) ∧ f a = .error e := by
  induction l with
  | nil => simp [pure, Except.pure]
  | cons x l ih =>
    rw [List.mapM_cons, exists_first_cons, ← ih]
    cases f x <;> cases l.mapM f <;> simp [bind, Except.bind, pure, Except.pure]

end Traversal

/-! ## The elements that are reached -/

namespace Pipeline

/-- Whether an element only groups others. -/
def Element.isAdaptor (e : Element) : Bool := Registry.adaptors.contains e.name

/-- **An element is reached through adaptors**: it is none, but whatever it is nested
in is one. -/
inductive Reaches : List Element → Element → Prop
  /-- It is listed. -/
  | listed {es : List Element} {e : Element} : e ∈ es → e.isAdaptor = false → Reaches es e
  /-- It is reached inside an adaptor that is listed. -/
  | nested {es : List Element} {a e : Element} :
      a ∈ es → a.isAdaptor → Reaches a.nested e → Reaches es e

mutual

/-- The elements that an element stands for. -/
def Element.flatten : Element → List Element
  | .mk name params nested =>
    if Registry.adaptors.contains name then flatten nested else [.mk name params nested]

/-- The elements that a pipeline stands for: what is nested in an adaptor takes its
place. -/
def flatten : List Element → List Element
  | [] => []
  | e :: es => e.flatten ++ flatten es

end

/-- An element is listed first, reached inside the first one, or reached further on. -/
theorem reaches_cons {a e : Element} {es : List Element} :
    Reaches (a :: es) e ↔
      (a.isAdaptor = false ∧ e = a) ∨ (a.isAdaptor ∧ Reaches a.nested e) ∨ Reaches es e := by
  constructor
  · rintro (⟨hmem, he⟩ | ⟨hmem, ha, h⟩)
    · rcases List.mem_cons.1 hmem with rfl | hmem
      · exact .inl ⟨he, rfl⟩
      · exact .inr (.inr (.listed hmem he))
    · rcases List.mem_cons.1 hmem with rfl | hmem
      · exact .inr (.inl ⟨ha, h⟩)
      · exact .inr (.inr (.nested hmem ha h))
  · rintro (⟨he, rfl⟩ | ⟨ha, h⟩ | ⟨hmem, he⟩ | ⟨hmem, ha, h⟩)
    · exact .listed List.mem_cons_self he
    · exact .nested List.mem_cons_self ha h
    · exact .listed (List.mem_cons_of_mem a hmem) he
    · exact .nested (List.mem_cons_of_mem a hmem) ha h

mutual

theorem mem_flatten_element : ∀ a e : Element, e ∈ a.flatten ↔
    (a.isAdaptor = false ∧ e = a) ∨ (a.isAdaptor ∧ Reaches a.nested e)
  | .mk name params nested, e => by
    have inside := mem_flatten nested e
    -- an adaptor gives way to what is nested in it, anything else stands for itself
    unfold Element.flatten Element.isAdaptor Element.name Element.nested
    cases Registry.adaptors.contains name <;> simp [inside]

/-- **A pipeline stands for the elements that are reached.** -/
theorem mem_flatten : ∀ (es : List Element) (e : Element), e ∈ flatten es ↔ Reaches es e
  | [], e => by
    refine iff_of_false (by simp [flatten]) fun h => ?_
    rcases h with ⟨hmem, -⟩ | ⟨hmem, -, -⟩ <;> cases hmem
  | a :: es, e => by
    rw [flatten, List.mem_append, mem_flatten_element a e, mem_flatten es e, reaches_cons, or_assoc]

end

theorem flatten_append (xs ys : List Element) : flatten (xs ++ ys) = flatten xs ++ flatten ys := by
  induction xs with
  | nil => rfl
  | cons x xs ih => rw [List.cons_append, flatten, flatten, ih, List.append_assoc]

/-- The elements of a pipeline and those inside them, in the order in which the text
names them. -/
def everyElement (es : List Element) : List Element := (outline 0 es).map Prod.snd

/-- The depth does not matter for that. -/
theorem map_snd_outline : ∀ (es : List Element) (depth : ℕ),
    (outline depth es).map Prod.snd = everyElement es
  | [], _ => rfl
  | .mk name params nested :: es, depth => by
    unfold everyElement
    simp only [outline, outlineElement, List.map_append, List.map_cons,
      map_snd_outline nested (depth + 1), map_snd_outline nested (0 + 1), map_snd_outline es depth,
      map_snd_outline es 0]

theorem everyElement_cons (name : String) (params : List String) (nested es : List Element) :
    everyElement (.mk name params nested :: es) =
      .mk name params nested :: (everyElement nested ++ everyElement es) := by
  unfold everyElement
  simp only [outline, outlineElement, List.map_append, List.map_cons, map_snd_outline]
  rfl

/-- **What a pipeline stands for is in the order of the text.** -/
theorem flatten_sublist : ∀ es : List Element, (flatten es).Sublist (everyElement es)
  | [] => .slnil
  | .mk name params nested :: es => by
    rw [flatten, Element.flatten, everyElement_cons, ← List.cons_append]
    refine List.Sublist.append ?_ (flatten_sublist es)
    split
    · exact (flatten_sublist nested).cons _
    · exact (List.nil_sublist _).cons_cons _

end Pipeline

/-! ## Making the passes -/

namespace Registry

open Pipeline

variable {r : Registry} {e : Element} {pass : Pass} {failure : Failure}

/-- **A registry makes a pass for an element**: nothing is nested in it, and the factory
of its name accepts its parameters. -/
structure Makes (r : Registry) (e : Element) (pass : Pass) : Prop where
  /-- Nothing is nested in it. -/
  plain : e.nested = []
  /-- Its name is known, and the factory makes the pass. -/
  made : ∃ factory, r.factories.find? e.name = some factory ∧ factory e.params = .ok pass

/-- **A registry refuses an element**, for the first reason that there is. -/
inductive Refuses (r : Registry) (e : Element) : Failure → Prop
  /-- Something is nested in it. -/
  | nested : e.nested ≠ [] →
    Refuses r e (.configuration ("pass '" ++ e.name ++ "' cannot contain a nested pipeline"))
  /-- Its name is not known. -/
  | unknown : e.nested = [] → r.factories.find? e.name = none → Refuses r e (.unknownPass e.name)
  /-- The factory of its name does not accept its parameters. -/
  | rejected {factory : PassFactory} {failure : Failure} :
    e.nested = [] → r.factories.find? e.name = some factory →
      factory e.params = .error failure → Refuses r e failure

/-- What a registry answers to an element that is no adaptor. -/
def answer (r : Registry) (e : Element) : Except Failure Pass :=
  if !e.nested.isEmpty then
    .error (.configuration ("pass '" ++ e.name ++ "' cannot contain a nested pipeline"))
  else r.make e.name e.params

theorem answer_of_plain (h : e.nested = []) : r.answer e = r.make e.name e.params := by
  rw [answer, h, List.isEmpty_nil, Bool.not_true, if_neg Bool.false_ne_true]

theorem answer_of_nested (h : e.nested ≠ []) : r.answer e =
    .error (.configuration ("pass '" ++ e.name ++ "' cannot contain a nested pipeline")) := by
  rw [answer, List.isEmpty_eq_false_iff.2 h, Bool.not_false, if_pos rfl]

theorem answer_eq_ok_iff : r.answer e = .ok pass ↔ r.Makes e pass := by
  constructor
  · intro h
    by_cases hn : e.nested = []
    · rw [answer_of_plain hn, make] at h
      cases hf : r.factories.find? e.name with
      | none =>
        rw [hf] at h
        cases h
      | some factory =>
        rw [hf] at h
        exact ⟨hn, factory, hf, h⟩
    · rw [answer_of_nested hn] at h
      cases h
  · rintro ⟨hn, factory, hf, h⟩
    rw [answer_of_plain hn, make, hf]
    exact h

theorem answer_eq_error_iff : r.answer e = .error failure ↔ r.Refuses e failure := by
  constructor
  · intro h
    by_cases hn : e.nested = []
    · rw [answer_of_plain hn, make] at h
      cases hf : r.factories.find? e.name with
      | none =>
        rw [hf] at h
        cases h
        exact .unknown hn hf
      | some factory =>
        rw [hf] at h
        exact .rejected hn hf h
    · rw [answer_of_nested hn] at h
      cases h
      exact .nested hn
  · rintro (hn | ⟨hn, hf⟩ | ⟨hn, hf, h⟩)
    · exact answer_of_nested hn
    · rw [answer_of_plain hn, make, hf]
    · rw [answer_of_plain hn, make, hf]
      exact h

mutual

theorem resolveElement_eq (r : Registry) : ∀ e : Element,
    r.resolveElement e = e.flatten.mapM r.answer
  | .mk name params nested => by
    rw [resolveElement, Element.flatten]
    split
    · exact resolve_eq r nested
    · rw [List.mapM_cons, List.mapM_nil]
      unfold answer Element.nested Element.name Element.params
      split
      · rfl
      · cases r.make name params <;> rfl

/-- **A pipeline is resolved element by element**, adaptors aside. -/
theorem resolve_eq (r : Registry) : ∀ es : List Element,
    r.resolve es = (flatten es).mapM r.answer
  | [] => rfl
  | e :: es => by
    rw [resolve, flatten, List.mapM_append, resolveElement_eq r e, resolve_eq r es]

end

theorem resolve_eq_ok_iff {es : List Element} {passes : List Pass} :
    r.resolve es = .ok passes ↔ List.Forall₂ r.Makes (flatten es) passes := by
  simp only [resolve_eq, mapM_eq_ok_iff, answer_eq_ok_iff]

theorem resolve_eq_error_iff {es : List Element} :
    r.resolve es = .error failure ↔ ∃ before e after, flatten es = before ++ e :: after ∧
      (∀ b ∈ before, ∃ pass, r.Makes b pass) ∧ r.Refuses e failure := by
  simp only [resolve_eq, mapM_eq_error_iff, answer_eq_ok_iff, answer_eq_error_iff]

/-- An element for which a pass is made is not refused. -/
theorem Makes.not_refuses (h : r.Makes e pass) : ¬ r.Refuses e failure := fun refused => by
  have made := answer_eq_ok_iff.2 h
  rw [answer_eq_error_iff.2 refused] at made
  cases made

/-- A pipeline can be resolved if a pass can be made for every element. -/
theorem exists_resolve_eq_ok_iff {es : List Element} :
    (∃ passes, r.resolve es = .ok passes) ↔ ∀ e ∈ flatten es, ∃ pass, r.Makes e pass := by
  constructor
  · rintro ⟨passes, h⟩ e he
    obtain ⟨pass, -, made⟩ := exists_right_of_forall₂ (resolve_eq_ok_iff.1 h) he
    exact ⟨pass, made⟩
  · intro h
    cases hes : r.resolve es with
    | ok passes => exact ⟨passes, rfl⟩
    | error failure =>
      -- the first element that is refused would be one for which a pass is made
      obtain ⟨before, e, after, heq, -, refused⟩ := resolve_eq_error_iff.1 hes
      obtain ⟨pass, made⟩ := h e (by simp [heq])
      exact absurd refused made.not_refuses

/-- **Resolving a pipeline flattens it.** The elements that it stands for are those that
are reached through adaptors, in the order of the text. It can be resolved if and only
if a pass can be made for each of them, and then it comes to these passes in that order.
Otherwise it fails as the first that is refused. Of two pipelines one after the other
the second comes after the first, whose failure comes first. -/
theorem resolve_flattens (r : Registry) (es : List Element) :
    ((flatten es).Sublist (everyElement es) ∧ ∀ e, e ∈ flatten es ↔ Reaches es e) ∧
    ((∃ passes, r.resolve es = .ok passes) ↔ ∀ e, Reaches es e → ∃ pass, r.Makes e pass) ∧
    (∀ passes, r.resolve es = .ok passes ↔ List.Forall₂ r.Makes (flatten es) passes) ∧
    (∀ failure, r.resolve es = .error failure ↔
      ∃ before e after, flatten es = before ++ e :: after ∧
        (∀ b ∈ before, ∃ pass, r.Makes b pass) ∧ r.Refuses e failure) ∧
    ∀ more, r.resolve (es ++ more) =
      match r.resolve es, r.resolve more with
      | .ok passes, .ok others => .ok (passes ++ others)
      | .ok _, .error failure => .error failure
      | .error failure, _ => .error failure := by
  refine ⟨⟨flatten_sublist es, mem_flatten es⟩, ?_, fun _ => resolve_eq_ok_iff,
    fun _ => resolve_eq_error_iff, fun more => ?_⟩
  · simp only [exists_resolve_eq_ok_iff, mem_flatten]
  · simp only [resolve_eq, flatten_append, List.mapM_append]
    cases (flatten es).mapM r.answer <;> cases (flatten more).mapM r.answer <;> rfl

end Registry

end QuantumLowering
