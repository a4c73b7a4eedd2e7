import Mathlib.Data.List.Induction
import Mathlib.Data.List.Nodup
import QuantumLowering.Profile.Builder
/-!
# Assembling validators

Rules are named by a configuration, where a repeated name is passed over, or
in a list of their own, where it is refused. Either way the names are gone
through one by one, up to the first that is refused, and those before it say
which rules there are so far (`foldlM_eq_ok_iff`, `foldlM_eq_error_iff`). So a
configuration makes the validator that the list of its names makes once the
repeats are gone (`Configuration.assembles`).
-/


namespace QuantumLowering

/-! ## Going through a list up to the first refusal -/

section Fold

variable {σ α ε : Type} {step : σ → α → Except ε σ}

theorem foldlM_concat (l : List α) (a : α) (s : σ) :
    (l ++ [a]).foldlM step s = (l.foldlM step s).bind fun t => step t a := by
  simp only [List.foldlM_append, List.foldlM_cons, List.foldlM_nil, bind_pure]
  rfl

/-- **Steps accumulate good lists**: after good items, the next one is accepted if they are
good along with it, and the items accepted say what they lead to. -/
structure Accumulates (step : σ → α → Except ε σ) (state : List α → σ) (Good : List α → Prop) :
    Prop where
  /-- There is nothing bad in no items. -/
  nil : Good []
  /-- Items in front of good ones are good. -/
  closed : ∀ l a, Good (l ++ [a]) → Good l
  /-- After good items, the next one is accepted if they stay good. -/
  accepts : ∀ l a s, Good l →
    (step (state l) a = .ok s ↔ Good (l ++ [a]) ∧ s = state (l ++ [a]))

namespace Accumulates

variable {state : List α → σ} {Good : List α → Prop} {l : List α}

/-- **Good items are gone through**, and no others. -/
theorem foldlM_eq_ok_iff (h : Accumulates step state Good) {s : σ} :
    l.foldlM step (state []) = .ok s ↔ Good l ∧ s = state l := by
  induction l using List.reverseRecOn generalizing s with
  | nil => simp [pure, Except.pure, h.nil, eq_comm]
  | append_singleton l a ih =>
    rw [foldlM_concat]
    cases hl : l.foldlM step (state []) with
    | error e =>
      refine ⟨fun hok => (nomatch hok), fun hgood => ?_⟩
      have := ih.2 ⟨h.closed l a hgood.1, rfl⟩
      rw [hl] at this
      cases this
    | ok t =>
      obtain ⟨good, rfl⟩ := ih.1 hl
      exact h.accepts l a s good

/-- **Others are gone through up to the first that is refused.** -/
theorem foldlM_eq_error_iff (h : Accumulates step state Good) {e : ε} :
    l.foldlM step (state []) = .error e ↔ ∃ before a after, l = before ++ a :: after ∧
      Good before ∧ step (state before) a = .error e := by
  constructor
  · intro hl
    induction l using List.reverseRecOn with
    | nil => cases hl
    | append_singleton l a ih =>
      rw [foldlM_concat] at hl
      cases hrest : l.foldlM step (state []) with
      | error e' =>
        rw [hrest] at hl
        cases hl
        obtain ⟨before, b, after, rfl, good, refused⟩ := ih hrest
        exact ⟨before, b, after ++ [a], by simp, good, refused⟩
      | ok t =>
        obtain ⟨good, rfl⟩ := h.foldlM_eq_ok_iff.1 hrest
        rw [hrest] at hl
        exact ⟨l, a, [], rfl, good, hl⟩
  · rintro ⟨before, a, after, rfl, good, refused⟩
    rw [List.foldlM_append, h.foldlM_eq_ok_iff.2 ⟨good, rfl⟩]
    simp [bind, Except.bind, refused]

end Accumulates

end Fold

/-! ## Repeated items -/

section Repeats

variable {α : Type} [DecidableEq α] (l : List α) (a : α)

/-- An item at the end of a list stays there unless it was in front. -/
theorem eraseDups_concat :
    (l ++ [a]).eraseDups = if a ∈ l then l.eraseDups else l.eraseDups ++ [a] := by
  rw [List.eraseDups_append]
  by_cases ha : a ∈ l <;> simp [List.removeAll, ha, List.eraseDups_cons]

theorem nodup_eraseDups : l.eraseDups.Nodup := by
  induction l using List.reverseRecOn with
  | nil => exact .nil
  | append_singleton l a ih =>
    rw [eraseDups_concat]
    split
    · exact ih
    · rename_i ha
      rw [List.nodup_middle, List.append_nil, List.nodup_cons, List.mem_eraseDups]
      exact ⟨ha, ih⟩

end Repeats

/-! ## Rules by name -/

namespace Rules

/-- A name is that of a rule of the base profile. -/
def Known (name : String) : Prop := name ∈ base.map Rule.name

instance (name : String) : Decidable (Known name) := inferInstanceAs (Decidable (_ ∈ _))

variable {name : String}

theorem find?_eq_none_iff : find? name = none ↔ ¬ Known name := by
  simp only [find?, Known, List.find?_eq_none, decide_eq_true_eq, List.mem_map, not_exists, not_and]

theorem exists_find? (h : Known name) : ∃ r, find? name = some r ∧ r.name = name := by
  cases hr : find? name with
  | none => exact absurd h (find?_eq_none_iff.1 hr)
  | some r => exact ⟨r, rfl, by simpa using List.find?_some hr⟩

end Rules

namespace Validator

/-- The validator with the rules of some names. -/
def named (names : List String) : Validator := ⟨names.filterMap Rules.find?⟩

variable {seen : List String} {name : String}

theorem names_named (known : ∀ n ∈ seen, Rules.Known n) : (named seen).names = seen := by
  induction seen with
  | nil => rfl
  | cons n seen ih =>
    obtain ⟨r, hr, hname⟩ := Rules.exists_find? (known n List.mem_cons_self)
    have rest := ih fun m hm => known m (List.mem_cons_of_mem n hm)
    simp only [named, names] at rest
    simp [named, names, hr, hname, rest]

theorem contains_named (known : ∀ n ∈ seen, Rules.Known n) :
    (named seen).contains name ↔ name ∈ seen := by
  have : (named seen).contains name ↔ name ∈ (named seen).names := by simp [contains, names]
  rw [this, names_named known]

/-- A name is refused if there is no rule of that name, or if it is there already. -/
theorem registerName_named (known : ∀ n ∈ seen, Rules.Known n) (name : String) :
    (named seen).registerName name =
      if Rules.Known name then
        if name ∈ seen then .error (.duplicateRule name) else .ok (named (seen ++ [name]))
      else .error (.unknownRule name) := by
  unfold registerName
  by_cases hname : Rules.Known name
  · obtain ⟨r, hr, rfl⟩ := Rules.exists_find? hname
    have added : named (seen ++ [r.name]) = ⟨(named seen).rules ++ [r]⟩ := by
      simp [named, hr]
    simp only [hr, register, contains_named known, added, if_pos hname]
  · rw [Rules.find?_eq_none_iff.2 hname, if_neg hname]

variable {names : List String} {v : Validator} {e : Failure}

/-! ### A list of names -/

/-- Known names, each once. -/
def Distinct (names : List String) : Prop := (∀ n ∈ names, Rules.Known n) ∧ names.Nodup

theorem distinct_concat_iff :
    Distinct (seen ++ [name]) ↔ Distinct seen ∧ Rules.Known name ∧ name ∉ seen := by
  simp only [Distinct, List.nodup_middle, List.append_nil, List.nodup_cons,
    List.forall_mem_append, List.forall_mem_singleton]
  tauto

/-- Known names are registered one after the other until one stands there again. -/
theorem accumulates : Accumulates registerName named Distinct where
  nil := ⟨List.forall_mem_nil _, .nil⟩
  closed _ _ h := (distinct_concat_iff.1 h).1
  accepts seen name v h := by
    rw [registerName_named h.1, distinct_concat_iff]
    split_ifs <;> simp_all [eq_comm]

/-- **A list makes a validator if each of its names is known and stands there once.** -/
theorem ofNames_eq_ok_iff : ofNames names = .ok v ↔ Distinct names ∧ v = named names :=
  accumulates.foldlM_eq_ok_iff

/-- **Otherwise it is refused for the first name that is unknown or stands there again.** -/
theorem ofNames_eq_error_iff : ofNames names = .error e ↔
    ∃ before name after, names = before ++ name :: after ∧ Distinct before ∧
      (¬ Rules.Known name ∧ e = .unknownRule name ∨
        Rules.Known name ∧ name ∈ before ∧ e = .duplicateRule name) := by
  refine accumulates.foldlM_eq_error_iff.trans ?_
  refine exists₃_congr fun before name after => and_congr_right fun _ => and_congr_right fun h => ?_
  rw [registerName_named h.1]
  split_ifs <;> simp_all [eq_comm]

end Validator

/-! ## A configuration -/

namespace ProfileBuilder

variable {seen names : List String} {name : String} {v : Validator} {e : Failure}

/-- Only an unknown name is refused; one that is there is passed over. -/
theorem addRule_named (known : ∀ n ∈ seen, Rules.Known n) (name : String) :
    (addRule name (.named seen.eraseDups)).1 =
      if Rules.Known name then .ok (.named (seen ++ [name]).eraseDups)
      else .error (.unknownRule name) := by
  have knownOnce : ∀ n ∈ seen.eraseDups, Rules.Known n :=
    fun n hn => known n (List.mem_eraseDups.1 hn)
  have there : (Validator.named seen.eraseDups).contains name ↔ name ∈ seen :=
    (Validator.contains_named knownOnce).trans List.mem_eraseDups
  unfold addRule
  rw [eraseDups_concat]
  by_cases hname : name ∈ seen
  · rw [if_pos (there.2 hname), if_pos (known name hname), if_pos hname]
  · have hnew : name ∉ seen.eraseDups := mt List.mem_eraseDups.1 hname
    rw [if_neg (mt there.1 hname), Validator.registerName_named knownOnce, if_neg hnew,
      if_neg hname]

/-- Known names are added one after the other, each once. -/
theorem accumulates : Accumulates (fun v name => (addRule name v).1)
    (fun names => .named names.eraseDups) (fun names => ∀ n ∈ names, Rules.Known n) where
  nil := List.forall_mem_nil _
  closed _ _ h := (List.forall_mem_append.1 h).1
  accepts seen name v h := by
    rw [addRule_named h, List.forall_mem_append, List.forall_mem_singleton]
    split_ifs <;> simp_all [eq_comm]

theorem addRules_eq_foldlM (v : Validator) (names : List String) :
    (addRules v names).1 = names.foldlM (fun v name => (addRule name v).1) v := by
  induction names generalizing v with
  | nil => rfl
  | cons name names ih =>
    unfold addRules
    rw [List.foldlM_cons]
    rcases addRule name v with ⟨e | v, log⟩
    · rfl
    · exact ih v

/-- **Known names are added**, the first time that they stand there. -/
theorem addRules_eq_ok_iff : (addRules .empty names).1 = .ok v ↔
    (∀ n ∈ names, Rules.Known n) ∧ v = .named names.eraseDups := by
  rw [addRules_eq_foldlM]
  exact accumulates.foldlM_eq_ok_iff

/-- **Otherwise the first unknown name is refused.** -/
theorem addRules_eq_error_iff : (addRules .empty names).1 = .error e ↔
    ∃ before name after, names = before ++ name :: after ∧ (∀ n ∈ before, Rules.Known n) ∧
      ¬ Rules.Known name ∧ e = .unknownRule name := by
  rw [addRules_eq_foldlM]
  refine accumulates.foldlM_eq_error_iff.trans ?_
  refine exists₃_congr fun before name after => and_congr_right fun _ => and_congr_right fun h => ?_
  rw [addRule_named h]
  split_ifs <;> simp_all [eq_comm]

variable {c : Configuration}

/-- A configuration makes the parts of a profile if it makes a validator, which is one of
them. -/
theorem ofConfiguration_eq_ok_iff : (∃ b, (ofConfiguration c).1 = .ok b ∧ b.validator = v) ↔
    (∀ n ∈ c.rules, Rules.Known n) ∧ v = .named c.rules.eraseDups := by
  rw [← addRules_eq_ok_iff]
  unfold ofConfiguration
  rcases addRules .empty c.rules with ⟨e | w, log⟩ <;> simp [Except.map]

/-- Otherwise it fails as the validator does. -/
theorem ofConfiguration_eq_error_iff : (ofConfiguration c).1 = .error e ↔
    ∃ before name after, c.rules = before ++ name :: after ∧ (∀ n ∈ before, Rules.Known n) ∧
      ¬ Rules.Known name ∧ e = .unknownRule name := by
  rw [← addRules_eq_error_iff]
  unfold ofConfiguration
  rcases addRules .empty c.rules with ⟨e' | w, log⟩ <;> simp [Except.map]

end ProfileBuilder

namespace Configuration

/-- **A configuration and a list of names make the same validator.** A configuration makes
one if it names known rules only. Its rules are then those named, without the repeats, and
it reports on every program what the validator of that shorter list does. Otherwise it fails
for the first unknown name. A list makes a validator if besides no name repeats; otherwise it
fails for the first name that is unknown or repeated. -/
theorem assembles (c : Configuration) :
    ((∃ b, (ProfileBuilder.ofConfiguration c).1 = .ok b) ↔ ∀ n ∈ c.rules, Rules.Known n) ∧
      (∀ b, (ProfileBuilder.ofConfiguration c).1 = .ok b →
        b.validator.names = c.rules.eraseDups ∧ ∃ v, Validator.ofNames c.rules.eraseDups = .ok v ∧
          ∀ p, b.validator.run p = v.run p) ∧
      (∀ e, (ProfileBuilder.ofConfiguration c).1 = .error e ↔
        ∃ before name after, c.rules = before ++ name :: after ∧ (∀ n ∈ before, Rules.Known n) ∧
          ¬ Rules.Known name ∧ e = .unknownRule name) ∧
      ((∃ v, Validator.ofNames c.rules = .ok v) ↔
        (∀ n ∈ c.rules, Rules.Known n) ∧ c.rules.Nodup) ∧
      ∀ e, Validator.ofNames c.rules = .error e ↔
        ∃ before name after, c.rules = before ++ name :: after ∧
          ((∀ n ∈ before, Rules.Known n) ∧ before.Nodup) ∧
          (¬ Rules.Known name ∧ e = .unknownRule name ∨
            Rules.Known name ∧ name ∈ before ∧ e = .duplicateRule name) := by
  refine ⟨⟨?_, fun known => ?_⟩, fun b hb => ?_, fun e => ProfileBuilder.ofConfiguration_eq_error_iff,
    ?_, fun e => Validator.ofNames_eq_error_iff⟩
  · rintro ⟨b, hb⟩
    exact (ProfileBuilder.ofConfiguration_eq_ok_iff.1 ⟨b, hb, rfl⟩).1
  · obtain ⟨b, hb, -⟩ := ProfileBuilder.ofConfiguration_eq_ok_iff.2 ⟨known, rfl⟩
    exact ⟨b, hb⟩
  · obtain ⟨known, hv⟩ := ProfileBuilder.ofConfiguration_eq_ok_iff.1 ⟨b, hb, rfl⟩
    have once : Validator.Distinct c.rules.eraseDups :=
      ⟨fun n hn => known n (List.mem_eraseDups.1 hn), nodup_eraseDups c.rules⟩
    refine ⟨?_, _, Validator.ofNames_eq_ok_iff.2 ⟨once, rfl⟩, fun p => by rw [hv]⟩
    rw [hv, Validator.names_named once.1]
  · exact ⟨fun ⟨v, hv⟩ => (Validator.ofNames_eq_ok_iff.1 hv).1,
      fun distinct => ⟨_, Validator.ofNames_eq_ok_iff.2 ⟨distinct, rfl⟩⟩⟩

/-- A configuration that names a rule twice. -/
def repeating : Configuration :=
  { empty with rules := ["module-flags", "single-entry-point", "module-flags"] }

/-- It makes a validator of two rules, while the list of its names is refused. -/
theorem assembles_repeating :
    (∃ b, (ProfileBuilder.ofConfiguration repeating).1 = .ok b ∧
      b.validator.names = ["module-flags", "single-entry-point"] ∧
        ∃ v, Validator.ofNames ["module-flags", "single-entry-point"] = .ok v ∧
          ∀ p, b.validator.run p = v.run p) ∧
      Validator.ofNames repeating.rules = .error (.duplicateRule "module-flags") := by
  obtain ⟨succeeds, validator, -, -, refused⟩ := assembles repeating
  obtain ⟨b, hb⟩ := succeeds.2 (by decide)
  have once : repeating.rules.eraseDups = ["module-flags", "single-entry-point"] := by decide
  refine ⟨⟨b, hb, once ▸ validator b hb⟩, (refused _).2 ?_⟩
  exact ⟨["module-flags", "single-entry-point"], "module-flags", [], rfl, by decide,
    .inr ⟨by decide, by decide, rfl⟩⟩

end Configuration

end QuantumLowering
