import Mathlib.Data.List.Forall2
import QuantumLowering.Proofs.Lowering.Visit
/-!
# The functions of a program

Passes change the functions of a program one by one, so two programs are
related function by function. Values are told apart in a whole program,
so a value names the instruction that computes it (`computes_eq`).
-/


namespace QuantumLowering

/-! ## Lists item by item -/

section Items

variable {α β γ : Type} {R : α → β → Prop} {S : β → γ → Prop} {l : List α} {m : List β}
variable {n : List γ}

theorem exists_right_of_forall₂ (h : List.Forall₂ R l m) {a : α} (ha : a ∈ l) :
    ∃ b ∈ m, R a b := by
  induction h with
  | nil => cases ha
  | cons hab _ ih =>
    rcases List.mem_cons.1 ha with rfl | ha
    · exact ⟨_, List.mem_cons_self, hab⟩
    · obtain ⟨b, hb, hab⟩ := ih ha
      exact ⟨b, List.mem_cons_of_mem _ hb, hab⟩

theorem exists_left_of_forall₂ (h : List.Forall₂ R l m) {b : β} (hb : b ∈ m) :
    ∃ a ∈ l, R a b :=
  exists_right_of_forall₂ (R := flip R) h.flip hb

/-- One relation after another. -/
theorem forall₂_trans {T : α → γ → Prop} (hRS : ∀ a b c, R a b → S b c → T a c)
    (h : List.Forall₂ R l m) (k : List.Forall₂ S m n) : List.Forall₂ T l n := by
  induction h generalizing n with
  | nil =>
    cases k
    exact .nil
  | cons hab _ ih =>
    cases k with
    | cons hbc k => exact .cons (hRS _ _ _ hab hbc) (ih k)

/-- What is known of the items of the first list may be used. -/
theorem forall₂_imp_of_mem {S : α → β → Prop} (h : List.Forall₂ R l m)
    (hRS : ∀ a ∈ l, ∀ b, R a b → S a b) : List.Forall₂ S l m := by
  induction h with
  | nil => exact .nil
  | cons hab _ ih =>
    exact .cons (hRS _ List.mem_cons_self _ hab)
      (ih fun a ha => hRS a (List.mem_cons_of_mem _ ha))

end Items

namespace Program

variable {p q : Program} {R : Function → Function → Prop}

/-! ## Definitions -/

theorem mem_definitions {f : Function} :
    f ∈ p.definitions ↔ f ∈ p.functions ∧ ¬ f.isDeclaration := by
  simp [definitions, List.mem_filter]

/-- Where definitions stay definitions, they are related one by one. -/
theorem forall₂_definitions (hR : ∀ f g, R f g → g.isDeclaration = f.isDeclaration)
    (h : List.Forall₂ R p.functions q.functions) :
    List.Forall₂ R p.definitions q.definitions := by
  unfold definitions
  refine List.rel_filter (fun f g hfg => ?_) h
  simp [hR f g hfg]

section Declare

variable (name : String) (signature : List Ty) (returnType : Ty)

/-- A declaration is no definition. -/
@[simp] theorem definitions_declare :
    (p.declare name signature returnType).definitions = p.definitions := by
  unfold declare
  cases p.function? name with
  | some g => rfl
  | none => simp [definitions, Function.isDeclaration, Function.declaration]

/-- A function is declared under a name that is not taken. -/
theorem nodup_names_declare (h : (p.functions.map Function.name).Nodup) :
    ((p.declare name signature returnType).functions.map Function.name).Nodup := by
  unfold declare
  cases hnone : p.function? name with
  | some g => exact h
  | none =>
    rw [List.map_append, List.nodup_append]
    refine ⟨h, List.nodup_singleton _, fun n hn n' hn' => ?_⟩
    obtain ⟨f, hf, rfl⟩ := List.mem_map.1 hn
    obtain rfl := List.mem_singleton.1 hn'
    simpa [Function.declaration] using List.find?_eq_none.1 hnone f hf

/-- What is found afterwards was found before, or is the declaration. -/
theorem function?_declare {callee : String} {g : Function}
    (h : (p.declare name signature returnType).function? callee = some g) :
    p.function? callee = some g ∨
      callee = name ∧ g = .declaration name signature returnType := by
  unfold declare at h
  cases hnone : p.function? name with
  | some f =>
    rw [hnone] at h
    exact .inl h
  | none =>
    rw [hnone, function?, List.find?_append, Option.or_eq_some_iff] at h
    rcases h with h | ⟨-, h⟩
    · exact .inl h
    · have hname := List.find?_some h
      obtain rfl := List.mem_singleton.1 (List.mem_of_find?_eq_some h)
      exact .inr ⟨(of_decide_eq_true hname).symm, rfl⟩

end Declare

/-- Changing the entry point changes one function at most. -/
theorem forall₂_updateEntryPoint (refl : ∀ f, R f f) {change : Function → Function}
    (h : ∀ f, R f (change f)) :
    List.Forall₂ R p.functions (p.updateEntryPoint change).functions := by
  unfold updateEntryPoint
  generalize p.functions = fs
  induction fs with
  | nil => exact .nil
  | cons f fs ih =>
    unfold updateFirst
    split
    · exact .cons (h f) (List.forall₂_same.2 fun g _ => refl g)
    · exact .cons (refl f) ih

/-- No instruction of a program meets a condition. -/
theorem any_instructions_eq_false (condition : Instruction → Bool) :
    (p.instructions.any fun e => condition e.2) = false ↔
      ∀ f ∈ p.definitions, ∀ i ∈ f.instructions, condition i = false := by
  simp only [instructions, List.any_eq_false, List.mem_flatMap, List.mem_map, Bool.not_eq_true]
  constructor
  · exact fun h f hf i hi => h (f, i) ⟨f, hf, i, hi, rfl⟩
  · rintro h _ ⟨f, hf, i, hi, rfl⟩
    exact h f hf i hi

/-! ## Values -/

/-- Where values are told apart, one instruction computes a value. -/
theorem instruction_unique (nodup : (p.definitions.flatMap Function.definedValues).Nodup)
    {f g : Function} (hf : f ∈ p.definitions) (hg : g ∈ p.definitions) {i j : Instruction}
    (hi : i ∈ f.instructions) (hj : j ∈ g.instructions) {v : ValueId} (hiv : i.result = some v)
    (hjv : j.result = some v) : i = j := by
  -- values are told apart inside of a definition and between two of them
  obtain ⟨inside, apart⟩ := List.nodup_flatMap.1 nodup
  obtain ⟨s, hs⟩ := Function.mem_instructions.1 hi
  obtain ⟨t, ht⟩ := Function.mem_instructions.1 hj
  have hfv := Function.result_mem_definedValues hs hiv
  have hgv := Function.result_mem_definedValues ht hjv
  by_cases hfg : f = g
  · subst hfg
    exact congrArg Prod.snd (Function.located_eq_of_result (inside f hf) hs ht hiv hjv)
  · have : Std.Symm fun f g : Function => List.Disjoint f.definedValues g.definedValues :=
      ⟨fun _ _ h => h.symm⟩
    exact (apart.forall hf hg hfg hfv hgv).elim

/-- Whether an instruction that meets a condition computes a value. -/
def computes (p : Program) (condition : Instruction → Bool) (v : ValueId) : Bool :=
  p.instructions.any fun e => e.2.result == some v && condition e.2

variable {condition : Instruction → Bool} {v : ValueId}

theorem computes_iff :
    p.computes condition v ↔ ∃ f ∈ p.definitions, ∃ i ∈ f.instructions,
      i.result = some v ∧ condition i := by
  simp only [computes, instructions, List.any_eq_true, List.mem_flatMap, List.mem_map,
    Bool.and_eq_true, beq_iff_eq]
  constructor
  · rintro ⟨_, ⟨f, hf, i, hi, rfl⟩, h⟩
    exact ⟨f, hf, i, hi, h⟩
  · rintro ⟨f, hf, i, hi, h⟩
    exact ⟨(f, i), ⟨f, hf, i, hi, rfl⟩, h⟩

/-- **Where values are told apart, the instruction that computes a value
decides the condition.** -/
theorem computes_eq (nodup : (p.definitions.flatMap Function.definedValues).Nodup)
    {f : Function} (hf : f ∈ p.definitions) {i : Instruction} (hi : i ∈ f.instructions)
    (hv : i.result = some v) : p.computes condition v = condition i := by
  rw [Bool.eq_iff_iff, computes_iff]
  constructor
  · rintro ⟨g, hg, j, hj, hjv, hc⟩
    rwa [instruction_unique nodup hf hg hi hj hv hjv]
  · exact fun hc => ⟨f, hf, i, hi, hv, hc⟩

end Program

end QuantumLowering
