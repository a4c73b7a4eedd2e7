import Mathlib.Data.List.Induction
import QuantumLowering.Profile.Builder
/-!
# Pipeline texts and hooks

A builder is given pipeline texts for hooks in any order, and the last text for
a hook counts. Each hook is settled on its own: it gains all the passes of its
text, or none of them and there is one diagnostic for it. So a bad text spoils
no other hook (`ProfileBuilder.hooks_isolated`).
-/


namespace QuantumLowering

theorem Hook.mem_all (hook : Hook) : hook ∈ Hook.all := by cases hook <;> decide

theorem Hook.nodup_all : Hook.all.Nodup := by decide

/-- Of what different items give, one item gives what is filed under it. -/
theorem filter_filterMap_of_nodup {α β : Type} [DecidableEq α] {f : α → Option β} {key : β → α}
    (hf : ∀ a b, f a = some b → key b = a) {l : List α} (nodup : l.Nodup) {a : α} (ha : a ∈ l) :
    (l.filterMap f).filter (fun b => key b = a) = (f a).toList := by
  have others : ∀ m : List α, a ∉ m → (m.filterMap f).filter (fun b => key b = a) = [] := by
    intro m hm
    refine List.filter_eq_nil_iff.2 fun b hb hkey => ?_
    obtain ⟨x, hx, hxb⟩ := List.mem_filterMap.1 hb
    have hkey : key b = a := of_decide_eq_true hkey
    exact hm (hkey ▸ hf x b hxb ▸ hx)
  obtain ⟨before, after, rfl⟩ := List.append_of_mem ha
  obtain ⟨-, hafter, apart⟩ := List.nodup_append.1 nodup
  have hbefore : a ∉ before := fun h => apart a h a List.mem_cons_self rfl
  rw [List.filterMap_append, List.filter_append, others before hbefore, List.nil_append,
    List.filterMap_cons]
  cases hfa : f a with
  | none => simp [others after (List.nodup_cons.1 hafter).1]
  | some b => simp [hf a b hfa, others after (List.nodup_cons.1 hafter).1]

namespace ProfileBuilder

variable {b : ProfileBuilder} {calls : List (Hook × String)} {hook : Hook}

/-! ## The last text counts -/

/-- The parts after some calls, each of which sets the text at a hook. -/
def setPipelines (b : ProfileBuilder) (calls : List (Hook × String)) : ProfileBuilder :=
  calls.foldl (fun b call => b.setPipeline call.1 call.2) b

/-- The calls for a hook. -/
def callsFor (hook : Hook) (calls : List (Hook × String)) : List (Hook × String) :=
  calls.filter fun call => call.1 = hook

/-- **The text at a hook after some calls**: that of the last call for the hook or, without
one, the text that was there. -/
def lastText? (b : ProfileBuilder) (calls : List (Hook × String)) (hook : Hook) : Option String :=
  ((callsFor hook calls).getLast?.map Prod.snd).or (b.pipelines hook)

/-- Calls change nothing but the texts. -/
theorem setPipelines_eq (b : ProfileBuilder) (calls : List (Hook × String)) :
    b.setPipelines calls = { b with pipelines := b.lastText? calls } := by
  -- by induction from the right, as the last call for a hook counts
  induction calls using List.reverseRecOn with
  | nil => rfl
  | append_singleton calls call ih =>
    have last : b.lastText? (calls ++ [call]) =
        fun hook => if hook = call.1 then some call.2 else b.lastText? calls hook := by
      funext hook
      unfold lastText? callsFor
      rw [List.filter_append]
      by_cases h : call.1 = hook
      · simp [h]
      · simp [h, Ne.symm h]
    unfold setPipelines at ih ⊢
    rw [List.foldl_append, ih, last]
    rfl

/-! ## One hook -/

/-- **How a hook is settled**: what its passes and its diagnostics come to, given the
passes that are installed and the text. -/
inductive Settles (r : Registry) (hook : Hook) (installed : List Pass) :
    Option String → List Pass → List HookDiagnostic → Prop
  /-- Without a text it keeps the passes that are installed. -/
  | unset : Settles r hook installed none installed []
  /-- It gains the passes of its text. -/
  | resolved {text : String} {passes : List Pass} : r.parse text = .ok passes →
    Settles r hook installed (some text) (installed ++ passes) []
  /-- It gains nothing from a bad text, and there is one diagnostic. -/
  | refused {text : String} {failure : Failure} : r.parse text = .error failure →
    Settles r hook installed (some text) installed [⟨hook, text, failure⟩]

/-- A hook is settled in one way. -/
theorem Settles.unique {r : Registry} {installed passes others : List Pass}
    {text? : Option String} {ds es : List HookDiagnostic}
    (h : Settles r hook installed text? passes ds) (k : Settles r hook installed text? others es) :
    others = passes ∧ es = ds := by
  cases h with
  | unset =>
    cases k
    exact ⟨rfl, rfl⟩
  | resolved h =>
    cases k with
    | resolved k =>
      cases h.symm.trans k
      exact ⟨rfl, rfl⟩
    | refused k => cases h.symm.trans k
  | refused h =>
    cases k with
    | resolved k => cases h.symm.trans k
    | refused k =>
      cases h.symm.trans k
      exact ⟨rfl, rfl⟩

theorem hook_of_diagnosticAt? {d : HookDiagnostic} (h : b.diagnosticAt? hook = some d) :
    d.hook = hook := by
  unfold diagnosticAt? at h
  split at h
  · cases h
    rfl
  · cases h

/-- **Building settles every hook** with the text that stands there. -/
theorem settles_profile (b : ProfileBuilder) (hook : Hook) :
    Settles b.registry hook (b.schedule.slots hook) (b.pipelines hook)
      (b.profile.schedule.slots hook) (b.profile.diagnostics.filter fun d => d.hook = hook) := by
  have own : (b.profile.diagnostics.filter fun d => d.hook = hook) =
      (b.diagnosticAt? hook).toList :=
    filter_filterMap_of_nodup (fun _ _ => hook_of_diagnosticAt?) Hook.nodup_all hook.mem_all
  rw [own]
  change Settles b.registry hook _ _ (b.assemble.slots hook) _
  simp only [assemble, diagnosticAt?, passesAt]
  cases b.pipelines hook with
  | none =>
    simp only [List.append_nil]
    exact .unset
  | some text =>
    cases h : b.registry.parse text with
    | ok passes =>
      simp only [h]
      exact .resolved h
    | error failure =>
      simp only [h, List.append_nil]
      exact .refused h

/-- Diagnostics are listed in the order of the hooks. -/
theorem diagnostics_sublist (b : ProfileBuilder) :
    (b.diagnostics.map HookDiagnostic.hook).Sublist Hook.all := by
  unfold diagnostics
  generalize Hook.all = hooks
  induction hooks with
  | nil => exact .slnil
  | cons hook hooks ih =>
    rw [List.filterMap_cons]
    cases h : b.diagnosticAt? hook with
    | none => exact ih.cons hook
    | some d =>
      rw [List.map_cons, hook_of_diagnosticAt? h]
      exact ih.cons_cons hook

/-! ## All hooks -/

/-- **Bad texts are kept to their hooks.** Whatever texts are set, there is a profile to
be applied. Its pipeline lists the passes hook by hook; at each hook it has settled the
last text there, with at most one diagnostic, and the diagnostics are in the order of the
hooks. Nothing else in the profile depends on the texts. How a hook is settled depends on
its last text only, and the order of calls for different hooks does not matter. -/
theorem hooks_isolated (b : ProfileBuilder) (calls : List (Hook × String)) :
    let profile := (b.setPipelines calls).build.1
    profile.stage = .configured ∧
      profile.schedule.pipeline = Hook.all.flatMap (fun hook =>
        (profile.schedule.slots hook).map fun pass => (hook, pass)) ∧
      (∀ hook, Settles b.registry hook (b.schedule.slots hook) (b.lastText? calls hook)
        (profile.schedule.slots hook) (profile.diagnostics.filter fun d => d.hook = hook)) ∧
      (profile.diagnostics.map HookDiagnostic.hook).Sublist Hook.all ∧
      profile = { b.build.1 with
        schedule := { b.build.1.schedule with slots := profile.schedule.slots }
        diagnostics := profile.diagnostics } ∧
      (∀ others hook, b.lastText? others hook = b.lastText? calls hook →
        let other := (b.setPipelines others).build.1
        other.schedule.slots hook = profile.schedule.slots hook ∧
          other.diagnostics.filter (fun d => d.hook = hook) =
            profile.diagnostics.filter fun d => d.hook = hook) ∧
      ∀ others, (∀ hook, callsFor hook others = callsFor hook calls) →
        (b.setPipelines others).build = (b.setPipelines calls).build := by
  have settles : ∀ (calls : List (Hook × String)) (hook : Hook),
      Settles b.registry hook (b.schedule.slots hook) (b.lastText? calls hook)
        ((b.setPipelines calls).profile.schedule.slots hook)
        ((b.setPipelines calls).profile.diagnostics.filter fun d => d.hook = hook) := by
    intro calls hook
    -- the calls leave the registry and the installed passes alone
    have settled := settles_profile (b.setPipelines calls) hook
    rw [setPipelines_eq] at settled ⊢
    exact settled
  refine ⟨rfl, rfl, settles calls, diagnostics_sublist _, ?_, fun others hook same => ?_,
    fun others same => ?_⟩
  · rw [setPipelines_eq]
    rfl
  · have other := settles others hook
    rw [same] at other
    exact (settles calls hook).unique other
  · have texts : b.lastText? others = b.lastText? calls := by
      funext hook
      rw [lastText?, lastText?, same hook]
    rw [setPipelines_eq, setPipelines_eq, texts]

/-- A pass that does not exist spoils the one in front of it, but no other hook. -/
theorem hooks_isolated_badTail :
    let calls := [(Hook.vectorizerStart, "verify,licm"), (.optimizerLast, "verify")]
    let profile := (start.setPipelines calls).build.1
    profile.schedule.slots .vectorizerStart = [] ∧
      (profile.diagnostics.filter fun d => d.hook = .vectorizerStart) =
        [⟨.vectorizerStart, "verify,licm", .unknownPass "licm"⟩] ∧
      profile.schedule.slots .optimizerLast = [.verify] ∧
      (start.setPipelines calls.reverse).build = (start.setPipelines calls).build := by
  intro calls profile
  have bad : Registry.builtin.parse "verify,licm" = .error (.unknownPass "licm") := by
    have elements : Pipeline.parse "verify,licm" =
        .ok [.mk "verify" [] [], .mk "licm" [] []] := rfl
    have verify : Registry.builtin.make "verify" [] = .ok .verify := rfl
    have licm : Registry.builtin.make "licm" [] = .error (.unknownPass "licm") := rfl
    simp only [Registry.parse, elements, Registry.resolve, Registry.resolveElement, verify, licm]
    rfl
  have good : Registry.builtin.parse "verify" = .ok [.verify] := by
    have elements : Pipeline.parse "verify" = .ok [.mk "verify" [] []] := rfl
    have verify : Registry.builtin.make "verify" [] = .ok .verify := rfl
    simp only [Registry.parse, elements, Registry.resolve, Registry.resolveElement, verify]
    rfl
  obtain ⟨-, -, settles, -, -, -, order⟩ := hooks_isolated start calls
  obtain ⟨slots, diagnostics⟩ := (Settles.refused bad).unique (settles .vectorizerStart)
  obtain ⟨others, -⟩ := (Settles.resolved good).unique (settles .optimizerLast)
  exact ⟨slots, diagnostics, others, order _ fun hook => by cases hook <;> rfl⟩

end ProfileBuilder

end QuantumLowering
