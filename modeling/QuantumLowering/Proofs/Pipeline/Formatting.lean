import Mathlib.Data.List.Chain
import QuantumLowering.Proofs.Pipeline.Parsing
/-!
# Writing pipelines and reading them back

The text of a pipeline spells the tokens of a derivation one after the
other, and no word comes right after a word. So reading finds these tokens
again (`exists_splits`) and with them the pipeline (`parse_format`). An
empty nested pipeline has no parentheses in the text; one that was read
with parentheses is written without.
-/


namespace QuantumLowering

namespace Pipeline

/-! ## Words -/

/-- A word of the grammar. -/
def IsWord (w : String) : Prop := Spelling (.word w) w.toList

/-- What spells a word is a word. -/
theorem Spelling.isWord {w : String} {u : List Char} (h : Spelling (.word w) u) : IsWord w := by
  have hu : w.toList = u := by
    cases h
    exact String.toList_ofList
  rw [IsWord, hu]
  exact h

mutual

/-- The names and the parameters of an element are words, at any depth. -/
def Element.Worded : Element → Prop
  | .mk name params nested => IsWord name ∧ (∀ p ∈ params, IsWord p) ∧ EachWorded nested

/-- Those of each element of a pipeline are. -/
def EachWorded : List Element → Prop
  | [] => True
  | e :: es => e.Worded ∧ EachWorded es

end

/-- The words among some tokens are words of the grammar. -/
def Proper (ts : List Token) : Prop := ∀ w, .word w ∈ ts → IsWord w

/-! ## Tokens side by side -/

namespace Token

/-- How a token is spelled. -/
def chars : Token → List Char
  | word w => w.toList
  | comma => [',']
  | semicolon => [';']
  | leftParen => ['(']
  | rightParen => [')']
  | leftAngle => ['<']
  | rightAngle => ['>']

/-- Whether a token is a word. -/
def isWord : Token → Bool
  | word _ => true
  | _ => false

/-- Two tokens can stand side by side without a blank between them. -/
def Apart (t u : Token) : Prop := t.isWord → u.isWord = false

end Token

/-- A token that is no word is spelled with its mark. -/
theorem exists_mark? {t : Token} (h : t.isWord = false) :
    ∃ c, t.chars = [c] ∧ mark? c = some t := by
  cases t with
  | word w => cases h
  | _ => exact ⟨_, rfl, rfl⟩

/-- No word goes on with a mark. -/
theorem isWordPart_of_mark? {c : Char} {t : Token} (h : mark? c = some t) :
    isWordPart c = false := by
  unfold mark? at h
  split at h <;> first | rfl | cases h

/-- Where no character of a word follows, a word ends. -/
theorem longest_of_isWord {w : String} (h : IsWord w) {rest : List Char}
    (ends : ∀ c ∈ rest.head?, isWordPart c = false) : Longest (.word w) w.toList rest := by
  have none_left : rest.takeWhile isWordPart = [] ∧ rest.dropWhile isWordPart = rest := by
    cases rest with
    | nil => exact ⟨rfl, rfl⟩
    | cons c cs =>
      have hc : isWordPart c = false := ends c rfl
      simp [hc]
  unfold IsWord at h
  generalize w.toList = u at h ⊢
  cases h with
  | @word c cs start parts =>
    have longest := longest_word start (cs ++ rest)
    rwa [List.takeWhile_append_of_pos parts, List.dropWhile_append_of_pos parts, none_left.1,
      none_left.2, List.append_nil] at longest

/-- **Tokens that are spelled one after the other are found again**, where no
word comes right after a word. -/
theorem exists_scans_of_apart {ts : List Token} (proper : Proper ts) (apart : List.IsChain Token.Apart ts)
    (p : ℕ) : ∃ tokens q, tokens.map Prod.snd = ts ∧
      Scans p (ts.flatMap Token.chars) tokens q [] := by
  induction ts generalizing p with
  | nil => exact ⟨[], p, rfl, .stop⟩
  | cons t ts ih =>
    have longest : Longest t t.chars (ts.flatMap Token.chars) := by
      cases ht : t.isWord with
      | false =>
        obtain ⟨c, hc, hm⟩ := exists_mark? ht
        rw [hc]
        exact longest_mark hm _
      | true =>
        cases t with
        | word w =>
          refine longest_of_isWord (proper w List.mem_cons_self) fun c hc => ?_
          -- what follows is a mark
          cases ts with
          | nil => cases hc
          | cons u ts =>
            obtain ⟨d, hd, hm⟩ := exists_mark? ((List.isChain_cons_cons.1 apart).1 ht)
            simp only [List.flatMap_cons, hd, List.singleton_append, List.head?_cons,
              Option.mem_some_iff] at hc
            exact hc ▸ isWordPart_of_mark? hm
        | _ => cases ht
    obtain ⟨tokens, q, rfl, scans⟩ := ih (fun w hw => proper w (List.mem_cons_of_mem t hw))
      apart.tail (p + bytes t.chars)
    exact ⟨(p, t) :: tokens, q, rfl, .token longest scans⟩

/-- So the text splits into them. -/
theorem exists_splits {text : String} {ts : List Token}
    (spelled : text.toList = ts.flatMap Token.chars) (proper : Proper ts)
    (apart : List.IsChain Token.Apart ts) :
    ∃ tokens, tokens.map Prod.snd = ts ∧ Splits text tokens := by
  obtain ⟨tokens, q, htokens, scans⟩ := exists_scans_of_apart proper apart 0
  exact ⟨tokens, htokens, q, spelled ▸ scans⟩

/-! ## The tokens of a derivation -/

theorem proper_append {ts us : List Token} : Proper (ts ++ us) ↔ Proper ts ∧ Proper us := by
  simp only [Proper, List.mem_append, or_imp, forall_and]

theorem proper_word_cons {w : String} {ts : List Token} :
    Proper (.word w :: ts) ↔ IsWord w ∧ Proper ts := by
  simp [Proper]

/-- Marks may stand anywhere. -/
theorem proper_mark_cons {t : Token} (h : t.isWord = false) {ts : List Token} :
    Proper (t :: ts) ↔ Proper ts := by
  have hw : ∀ w, Token.word w ≠ t := by
    rintro w rfl
    cases h
  simp [Proper, hw]

theorem proper_moreParams {ps : List String} :
    Proper (moreParams ps) ↔ ∀ p ∈ ps, IsWord p := by
  induction ps with
  | nil => simp [Proper, moreParams]
  | cons p ps ih =>
    rw [moreParams, proper_mark_cons rfl, proper_word_cons, ih, List.forall_mem_cons]

theorem proper_paramTokens {ps : List String} :
    Proper (paramTokens ps) ↔ ∀ p ∈ ps, IsWord p := by
  cases ps with
  | nil => simp [Proper, paramTokens]
  | cons p ps =>
    rw [paramTokens, proper_mark_cons rfl, proper_word_cons, proper_append, proper_moreParams,
      List.forall_mem_cons, proper_mark_cons rfl]
    simp [Proper]

mutual

/-- **The words of a derivation are those of its element.** -/
theorem proper_tokens : ∀ d : Derivation, Proper d.tokens ↔ d.element.Worded
  | .mk name params none => by
    rw [Derivation.tokens, nestedTokens, List.append_nil, proper_word_cons, proper_paramTokens,
      Derivation.element, nestedElements, Element.Worded, EachWorded, and_true]
  | .mk name params (some []) => by
    rw [Derivation.tokens, nestedTokens, pipelineTokens, List.nil_append, proper_word_cons,
      proper_append, proper_paramTokens, proper_mark_cons rfl, proper_mark_cons rfl,
      Derivation.element, nestedElements, elements, Element.Worded, EachWorded]
    simp [Proper]
  | .mk name params (some (d :: ds)) => by
    rw [Derivation.tokens, nestedTokens, pipelineTokens, proper_word_cons, proper_append,
      proper_paramTokens, proper_mark_cons rfl, proper_append, proper_append, proper_tokens d,
      proper_moreTokens ds, proper_mark_cons rfl, Derivation.element, nestedElements, elements,
      Element.Worded, EachWorded]
    simp [Proper]

/-- And so are those of more elements. -/
theorem proper_moreTokens : ∀ ds : List Derivation,
    Proper (moreTokens ds) ↔ EachWorded (elements ds)
  | [] => by simp [moreTokens, Proper, elements, EachWorded]
  | d :: ds => by
    rw [moreTokens, proper_mark_cons rfl, proper_append, proper_tokens d, proper_moreTokens ds,
      elements, EachWorded]

end

theorem proper_pipelineTokens (ds : List Derivation) :
    Proper (pipelineTokens ds) ↔ EachWorded (elements ds) := by
  cases ds with
  | nil => simp [pipelineTokens, Proper, elements, EachWorded]
  | cons d ds =>
    rw [pipelineTokens, proper_append, proper_tokens, proper_moreTokens, elements, EachWorded]

/-! ## No word right after a word -/

/-- Tokens that may stand after any other. -/
structure MarkedApart (ts : List Token) : Prop where
  /-- They can stand side by side. -/
  apart : List.IsChain Token.Apart ts
  /-- The first of them is a mark. -/
  head : ∀ t ∈ ts.head?, t.isWord = false

theorem markedApart_nil : MarkedApart [] := ⟨.nil, fun _ h => by cases h⟩

/-- A mark may stand in front of tokens that are apart. -/
theorem markedApart_cons {t : Token} (h : t.isWord = false) {ts : List Token}
    (apart : List.IsChain Token.Apart ts) : MarkedApart (t :: ts) := by
  refine ⟨?_, fun u hu => ?_⟩
  · refine List.isChain_cons.2 ⟨fun u _ ht => ?_, apart⟩
    rw [h] at ht
    cases ht
  · cases hu
    exact h

/-- And after them there may be others that begin with a mark. -/
theorem isChain_append {ts us : List Token} (apart : List.IsChain Token.Apart ts)
    (marked : MarkedApart us) : List.IsChain Token.Apart (ts ++ us) :=
  List.isChain_append.2 ⟨apart, marked.apart, fun _ _ u hu _ => marked.head u hu⟩

theorem MarkedApart.append {ts us : List Token} (first : MarkedApart ts)
    (second : MarkedApart us) : MarkedApart (ts ++ us) := by
  refine ⟨isChain_append first.apart second, fun t ht => ?_⟩
  cases ts with
  | nil => exact second.head t ht
  | cons u ts => exact first.head t ht

theorem markedApart_moreParams (ps : List String) : MarkedApart (moreParams ps) := by
  induction ps with
  | nil => exact markedApart_nil
  | cons p ps ih => exact markedApart_cons rfl (isChain_append (.singleton _) ih)

theorem markedApart_paramTokens (ps : List String) : MarkedApart (paramTokens ps) := by
  cases ps with
  | nil => exact markedApart_nil
  | cons p ps =>
    have close := markedApart_cons (t := .rightAngle) rfl .nil
    exact markedApart_cons rfl
      (isChain_append (.singleton _) ((markedApart_moreParams ps).append close))

mutual

/-- **In a derivation no word comes right after a word.** -/
theorem isChain_tokens : ∀ d : Derivation, List.IsChain Token.Apart d.tokens
  | .mk name params none => by
    rw [Derivation.tokens, nestedTokens, List.append_nil]
    exact isChain_append (.singleton _) (markedApart_paramTokens params)
  | .mk name params (some []) => by
    rw [Derivation.tokens, nestedTokens, pipelineTokens, List.nil_append]
    have parens := markedApart_cons (t := .leftParen) rfl
      (markedApart_cons (t := .rightParen) rfl .nil).apart
    exact isChain_append (.singleton _) ((markedApart_paramTokens params).append parens)
  | .mk name params (some (d :: ds)) => by
    rw [Derivation.tokens, nestedTokens, pipelineTokens]
    have close := markedApart_cons (t := .rightParen) rfl .nil
    have parens := markedApart_cons (t := .leftParen) rfl
      (isChain_append (isChain_append (isChain_tokens d) (markedApart_moreTokens ds)) close)
    exact isChain_append (.singleton _) ((markedApart_paramTokens params).append parens)

theorem markedApart_moreTokens : ∀ ds : List Derivation, MarkedApart (moreTokens ds)
  | [] => markedApart_nil
  | d :: ds => by
    rw [moreTokens]
    exact markedApart_cons rfl (isChain_append (isChain_tokens d) (markedApart_moreTokens ds))

end

theorem isChain_pipelineTokens (ds : List Derivation) :
    List.IsChain Token.Apart (pipelineTokens ds) := by
  cases ds with
  | nil => exact .nil
  | cons d ds => exact isChain_append (isChain_tokens d) (markedApart_moreTokens ds)

/-! ## The derivation behind the text -/

mutual

/-- The derivation of an element whose tokens make its text: without
parentheses around nothing. -/
def Element.derivation : Element → Derivation
  | .mk name params nested =>
    .mk name params (if nested.isEmpty then none else some (derivations nested))

/-- Those of the elements of a pipeline. -/
def derivations : List Element → List Derivation
  | [] => []
  | e :: es => e.derivation :: derivations es

end

mutual

/-- An element's derivation stands for it. -/
theorem element_derivation : ∀ e : Element, e.derivation.element = e
  | .mk name params [] => rfl
  | .mk name params (e :: es) => by
    rw [Element.derivation, Derivation.element, List.isEmpty_cons, if_neg Bool.false_ne_true,
      nestedElements, elements_derivations (e :: es)]

theorem elements_derivations : ∀ es : List Element, elements (derivations es) = es
  | [] => rfl
  | e :: es => by
    rw [derivations, elements, element_derivation e, elements_derivations es]

end

/-- Texts with separators, character by character. -/
theorem toList_intercalate_cons (separator text : String) (texts : List String) :
    (separator.intercalate (text :: texts)).toList =
      text.toList ++ texts.flatMap fun t => separator.toList ++ t.toList := by
  induction texts generalizing text with
  | nil => simp
  | cons t texts ih =>
    rw [String.intercalate_cons_cons, String.toList_append, String.toList_append, ih,
      List.flatMap_cons, List.append_assoc, List.append_assoc]

theorem toList_moreParams (ps : List String) :
    (ps.flatMap fun p => ";".toList ++ p.toList) = (moreParams ps).flatMap Token.chars := by
  induction ps with
  | nil => rfl
  | cons p ps ih =>
    rw [List.flatMap_cons, ih, moreParams, List.flatMap_cons, List.flatMap_cons, List.append_assoc]
    rfl

theorem toList_formatParams (ps : List String) :
    (formatParams ps).toList = (paramTokens ps).flatMap Token.chars := by
  cases ps with
  | nil => rfl
  | cons p ps =>
    rw [formatParams, List.isEmpty_cons, if_neg Bool.false_ne_true, String.toList_append,
      String.toList_append, toList_intercalate_cons, toList_moreParams, paramTokens]
    simp [Token.chars]

mutual

/-- **The text of an element spells the tokens of its derivation.** -/
theorem toList_formatElement : ∀ e : Element,
    (formatElement e).toList = e.derivation.tokens.flatMap Token.chars
  | .mk name params [] => by
    rw [formatElement, String.toList_append, String.toList_append, toList_formatParams]
    simp [formatEach, formatNested, Element.derivation, Derivation.tokens, nestedTokens,
      Token.chars]
  | .mk name params (e :: es) => by
    rw [formatElement, String.toList_append, String.toList_append, toList_formatParams,
      formatEach, formatNested, List.isEmpty_cons, if_neg Bool.false_ne_true,
      String.toList_append, String.toList_append, toList_intercalate_cons,
      toList_formatElement e, toList_formatEach es]
    simp [Element.derivation, Derivation.tokens, nestedTokens, derivations, pipelineTokens,
      Token.chars]

/-- And so do those of more elements. -/
theorem toList_formatEach : ∀ es : List Element,
    ((formatEach es).flatMap fun t => ",".toList ++ t.toList) =
      (moreTokens (derivations es)).flatMap Token.chars
  | [] => rfl
  | e :: es => by
    rw [formatEach, List.flatMap_cons, toList_formatElement e, toList_formatEach es, derivations,
      moreTokens]
    simp [Token.chars]

end

theorem toList_format (es : List Element) :
    (format es).toList = (pipelineTokens (derivations es)).flatMap Token.chars := by
  cases es with
  | nil => rfl
  | cons e es =>
    rw [format, formatEach, toList_intercalate_cons, toList_formatElement, toList_formatEach,
      derivations, pipelineTokens, List.flatMap_append]

/-! ## There and back -/

/-- What was read is made of words. -/
theorem eachWorded_of_parse {text : String} {es : List Element} (h : parse text = .ok es) :
    EachWorded es := by
  obtain ⟨tokens, ⟨q, scans⟩, ⟨-, rfl⟩ | ⟨ds, ⟨-, hds⟩, rfl⟩⟩ := parse_eq_ok_iff.1 h
  · exact trivial
  · rw [← proper_pipelineTokens, hds]
    intro w hw
    obtain ⟨⟨p, t⟩, ht, rfl⟩ := List.mem_map.1 hw
    obtain ⟨_, u, _, -, longest, -⟩ := scans.offset_of_mem ht
    exact longest.spelling.isWord

/-- **What was written is read back.** -/
theorem parse_format_of_eachWorded {es : List Element} (h : EachWorded es) :
    parse (format es) = .ok es := by
  have proper : Proper (pipelineTokens (derivations es)) := by
    rwa [proper_pipelineTokens, elements_derivations]
  obtain ⟨tokens, htokens, splits⟩ :=
    exists_splits (toList_format es) proper (isChain_pipelineTokens _)
  refine parse_eq_ok_iff.2 ⟨tokens, splits, ?_⟩
  cases es with
  | nil => exact .inl ⟨List.map_eq_nil_iff.1 htokens, rfl⟩
  | cons e es =>
    refine .inr ⟨derivations (e :: es), ⟨by simp [derivations], htokens.symm⟩, ?_⟩
    exact elements_derivations (e :: es)

/-- **Writing and reading are inverse**: a pipeline of words is read from its
text, and what was read from a text is such a pipeline. -/
theorem parse_format :
    (∀ es, EachWorded es → parse (format es) = .ok es) ∧
      ∀ text es, parse text = .ok es → EachWorded es ∧ parse (format es) = .ok es :=
  ⟨fun _ => parse_format_of_eachWorded, fun _ _ h =>
    have worded := eachWorded_of_parse h
    ⟨worded, parse_format_of_eachWorded worded⟩⟩

/-- A pipeline in a pipeline, with parameters. -/
def nestedPipeline : List Element :=
  [.mk "module" [] [.mk "simplify" ["max=3", "aggressive"] [], .mk "function" ["_1"] []],
    .mk "verify" [] []]

/-- Its text with blanks, and with parentheses around nothing. -/
def looseText : String := "module( simplify<max=3;aggressive> ,function<_1>()), verify"

theorem parse_format_nestedPipeline :
    parse looseText = .ok nestedPipeline ∧ EachWorded nestedPipeline ∧
      format nestedPipeline = "module(simplify<max=3;aggressive>,function<_1>),verify" ∧
      parse (format nestedPipeline) = .ok nestedPipeline := by
  have read : parse looseText = .ok nestedPipeline := by rfl
  obtain ⟨worded, -⟩ := parse_format.2 looseText nestedPipeline read
  exact ⟨read, worded, by rfl, parse_format.1 nestedPipeline worded⟩

end Pipeline

end QuantumLowering
