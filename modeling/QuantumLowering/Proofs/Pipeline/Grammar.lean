import QuantumLowering.Pipeline.Parser
/-!
# The grammar of pipelines

A `Derivation` is a derivation of an element by the grammar

    pipeline := element (',' element)*
    element  := word ('<' word (';' word)* '>')? ('(' pipeline? ')')?

and a derivation of a pipeline is a list of these that is not empty. A
derivation yields tokens and stands for an element. No two derivations
yield the same tokens (`Derives.unique`): where an element ends, what
follows is a comma, a closing parenthesis or the end of the text, and
none of these can go on with the element.
-/


namespace QuantumLowering

namespace Pipeline

/-- A derivation of an element. -/
inductive Derivation where
  /-- An element with its name, its parameters, none when it has no angle
  brackets, and the pipeline between its parentheses, if it has them. -/
  | mk (name : String) (params : List String) (nested : Option (List Derivation))

/-- The tokens of the parameters after the first. -/
def moreParams : List String → List Token
  | [] => []
  | p :: ps => .semicolon :: .word p :: moreParams ps

/-- The tokens of parameters and of the brackets around them. -/
def paramTokens : List String → List Token
  | [] => []
  | p :: ps => .leftAngle :: .word p :: (moreParams ps ++ [.rightAngle])

mutual

/-- The tokens that the derivation of an element yields. -/
def Derivation.tokens : Derivation → List Token
  | .mk name params nested => .word name :: (paramTokens params ++ nestedTokens nested)

/-- The tokens of a nested pipeline and of the parentheses around it. -/
def nestedTokens : Option (List Derivation) → List Token
  | none => []
  | some ds => .leftParen :: (pipelineTokens ds ++ [.rightParen])

/-- The tokens that the derivation of a pipeline yields. -/
def pipelineTokens : List Derivation → List Token
  | [] => []
  | d :: ds => d.tokens ++ moreTokens ds

/-- The tokens of the elements of a pipeline after the first. -/
def moreTokens : List Derivation → List Token
  | [] => []
  | d :: ds => .comma :: (d.tokens ++ moreTokens ds)

end

mutual

/-- The element that a derivation stands for. -/
def Derivation.element : Derivation → Element
  | .mk name params nested => .mk name params (nestedElements nested)

/-- The elements of a nested pipeline. -/
def nestedElements : Option (List Derivation) → List Element
  | none => []
  | some ds => elements ds

/-- The elements of a pipeline. -/
def elements : List Derivation → List Element
  | [] => []
  | d :: ds => d.element :: elements ds

end

/-- These tokens are derived as a pipeline. -/
def Derives (ds : List Derivation) (ts : List Token) : Prop := ds ≠ [] ∧ pipelineTokens ds = ts

/-- Some pipeline begins with these tokens. -/
def Begins (ts : List Token) : Prop := ∃ more ds, Derives ds (ts ++ more)

/-! ## No two derivations yield the same tokens -/

/-- After an element. -/
def FollowsElement (rest : List Token) : Prop :=
  ∀ t ∈ rest.head?, t = .comma ∨ t = .rightParen

/-- After a pipeline. -/
def FollowsPipeline (rest : List Token) : Prop := ∀ t ∈ rest.head?, t = .rightParen

theorem followsPipeline_nil : FollowsPipeline [] := by simp [FollowsPipeline]

theorem followsPipeline_rightParen (rest : List Token) :
    FollowsPipeline (.rightParen :: rest) := by simp [FollowsPipeline]

/-- After an element come more elements or what follows the pipeline. -/
theorem FollowsPipeline.moreTokens {rest : List Token} (h : FollowsPipeline rest)
    (ds : List Derivation) : FollowsElement (moreTokens ds ++ rest) := by
  cases ds with
  | nil => exact fun t ht => .inr (h t ht)
  | cons d ds => simp [Pipeline.moreTokens, FollowsElement]

/-- What follows an element opens no angle bracket, nor does a nested
pipeline. -/
theorem FollowsElement.head?_nestedTokens {rest : List Token} (h : FollowsElement rest)
    (nested : Option (List Derivation)) :
    (nestedTokens nested ++ rest).head? ≠ some .leftAngle := by
  cases nested with
  | none =>
    intro ht
    have := h _ ht
    simp at this
  | some ds => simp [nestedTokens]

/-- More parameters end at the closing bracket. -/
theorem moreParams_inj : ∀ {ps ps' : List String} {rest rest' : List Token},
    moreParams ps ++ .rightAngle :: rest = moreParams ps' ++ .rightAngle :: rest' →
      ps = ps' ∧ rest = rest'
  | [], [], _, _, h => by simpa [moreParams] using h
  | [], _ :: _, _, _, h => by simp [moreParams] at h
  | _ :: _, [], _, _, h => by simp [moreParams] at h
  | p :: ps, p' :: ps', rest, rest', h => by
    simp only [moreParams, List.cons_append, List.cons.injEq, Token.word.injEq, true_and] at h
    obtain ⟨rfl, rfl⟩ := moreParams_inj h.2
    exact ⟨by rw [h.1], rfl⟩

/-- Parameters can be told from what follows them. -/
theorem paramTokens_inj {ps ps' : List String} {rest rest' : List Token}
    (hr : rest.head? ≠ some .leftAngle) (hr' : rest'.head? ≠ some .leftAngle)
    (h : paramTokens ps ++ rest = paramTokens ps' ++ rest') : ps = ps' ∧ rest = rest' := by
  rcases ps with - | ⟨p, ps⟩ <;> rcases ps' with - | ⟨p', ps'⟩
  · exact ⟨rfl, h⟩
  · rw [show rest = _ from h] at hr
    simp [paramTokens] at hr
  · rw [show rest' = _ from h.symm] at hr'
    simp [paramTokens] at hr'
  · simp only [paramTokens, List.cons_append, List.append_assoc, List.nil_append,
      List.cons.injEq, Token.word.injEq, true_and] at h
    obtain ⟨rfl, rfl⟩ := moreParams_inj h.2
    exact ⟨by rw [h.1], rfl⟩

mutual

/-- A derivation can be told from what follows the element. -/
theorem Derivation.tokens_inj : ∀ {d d' : Derivation} {rest rest' : List Token},
    FollowsElement rest → FollowsElement rest' → d.tokens ++ rest = d'.tokens ++ rest' →
      d = d' ∧ rest = rest'
  | .mk name params nested, .mk name' params' nested', rest, rest', hr, hr', h => by
    simp only [Derivation.tokens, List.cons_append, List.append_assoc, List.cons.injEq,
      Token.word.injEq] at h
    obtain ⟨rfl, hparams⟩ := h
    obtain ⟨rfl, hnested⟩ := paramTokens_inj (hr.head?_nestedTokens nested)
      (hr'.head?_nestedTokens nested') hparams
    obtain ⟨rfl, rfl⟩ := nestedTokens_inj hr hr' hnested
    exact ⟨rfl, rfl⟩

/-- So can what stands between the parentheses. -/
theorem nestedTokens_inj : ∀ {nested nested' : Option (List Derivation)}
    {rest rest' : List Token}, FollowsElement rest → FollowsElement rest' →
      nestedTokens nested ++ rest = nestedTokens nested' ++ rest' →
        nested = nested' ∧ rest = rest'
  | none, none, _, _, _, _, h => ⟨rfl, h⟩
  | none, some ds, rest, rest', hr, _, h => by
    have := hr .leftParen (by simp [show rest = _ from h, nestedTokens])
    simp at this
  | some ds, none, rest, rest', _, hr', h => by
    have := hr' .leftParen (by simp [show rest' = _ from h.symm, nestedTokens])
    simp at this
  | some ds, some ds', rest, rest', _, _, h => by
    simp only [nestedTokens, List.cons_append, List.append_assoc, List.nil_append,
      List.cons.injEq, true_and] at h
    obtain ⟨rfl, hrest⟩ := pipelineTokens_inj (followsPipeline_rightParen rest)
      (followsPipeline_rightParen rest') h
    exact ⟨rfl, (List.cons.inj hrest).2⟩

/-- So can the derivation of a pipeline. -/
theorem pipelineTokens_inj : ∀ {ds ds' : List Derivation} {rest rest' : List Token},
    FollowsPipeline rest → FollowsPipeline rest' →
      pipelineTokens ds ++ rest = pipelineTokens ds' ++ rest' → ds = ds' ∧ rest = rest'
  | [], [], _, _, _, _, h => ⟨rfl, h⟩
  | [], .mk name params nested :: ds, rest, rest', hr, _, h => by
    have := hr (.word name) (by simp [show rest = _ from h, pipelineTokens, Derivation.tokens])
    simp at this
  | .mk name params nested :: ds, [], rest, rest', _, hr', h => by
    have := hr' (.word name)
      (by simp [show rest' = _ from h.symm, pipelineTokens, Derivation.tokens])
    simp at this
  | d :: ds, d' :: ds', rest, rest', hr, hr', h => by
    simp only [pipelineTokens, List.append_assoc] at h
    obtain ⟨rfl, hmore⟩ := Derivation.tokens_inj (hr.moreTokens ds) (hr'.moreTokens ds') h
    obtain ⟨rfl, rfl⟩ := moreTokens_inj hr hr' hmore
    exact ⟨rfl, rfl⟩

/-- And so can its elements after the first. -/
theorem moreTokens_inj : ∀ {ds ds' : List Derivation} {rest rest' : List Token},
    FollowsPipeline rest → FollowsPipeline rest' →
      moreTokens ds ++ rest = moreTokens ds' ++ rest' → ds = ds' ∧ rest = rest'
  | [], [], _, _, _, _, h => ⟨rfl, h⟩
  | [], d :: ds, rest, rest', hr, _, h => by
    have := hr .comma (by simp [show rest = _ from h, moreTokens])
    simp at this
  | d :: ds, [], rest, rest', _, hr', h => by
    have := hr' .comma (by simp [show rest' = _ from h.symm, moreTokens])
    simp at this
  | d :: ds, d' :: ds', rest, rest', hr, hr', h => by
    simp only [moreTokens, List.cons_append, List.append_assoc, List.cons.injEq, true_and] at h
    obtain ⟨rfl, hmore⟩ := Derivation.tokens_inj (hr.moreTokens ds) (hr'.moreTokens ds') h
    obtain ⟨rfl, rfl⟩ := moreTokens_inj hr hr' hmore
    exact ⟨rfl, rfl⟩

end

/-- **Tokens are derived in one way only.** -/
theorem Derives.unique {ds ds' : List Derivation} {ts : List Token} (h : Derives ds ts)
    (h' : Derives ds' ts) : ds = ds' := by
  have heq : pipelineTokens ds ++ [] = pipelineTokens ds' ++ [] := by rw [h.2, h'.2]
  exact (pipelineTokens_inj followsPipeline_nil followsPipeline_nil heq).1

end Pipeline

end QuantumLowering
