import QuantumLowering.Pipeline.Parser
import Mathlib.Data.List.TakeWhile
/-!
# What lexing finds

`Spelling` lists how tokens are spelled and `Scans` says how a text is
read by longest match: blanks are skipped, and each token takes up the
longest spelling that stands where it starts. `Splits` is a scan that
reaches the end of the text, `Stray` one that stops before it, at a
character that is no blank and that no token starts with. `lex` does what
`Scans` says, so every text splits in one way or has one stray character.
-/


namespace QuantumLowering

namespace Pipeline

/-! ## The relation -/

/-- How the tokens are spelled. -/
inductive Spelling : Token → List Char → Prop
  | word {c : Char} {cs : List Char} (start : isWordStart c) (parts : ∀ d ∈ cs, isWordPart d) :
    Spelling (.word (String.ofList (c :: cs))) (c :: cs)
  | comma : Spelling .comma [',']
  | semicolon : Spelling .semicolon [';']
  | leftParen : Spelling .leftParen ['(']
  | rightParen : Spelling .rightParen [')']
  | leftAngle : Spelling .leftAngle ['<']
  | rightAngle : Spelling .rightAngle ['>']

/-- A token whose spelling a text begins with, when no token has a longer
one there. -/
structure Longest (t : Token) (u rest : List Char) : Prop where
  spelling : Spelling t u
  longest : ∀ t' u', Spelling t' u' → u' <+: u ++ rest → u'.length ≤ u.length

/-- No token is spelled with the first characters of a text. -/
def NoToken (cs : List Char) : Prop := ∀ t u, Spelling t u → ¬ u <+: cs

/-- How many bytes some characters take up. -/
def bytes (cs : List Char) : Nat := (String.ofList cs).utf8ByteSize

theorem bytes_nil : bytes [] = 0 := rfl

theorem bytes_append (cs ds : List Char) : bytes (cs ++ ds) = bytes cs + bytes ds := by
  rw [bytes, String.ofList_append, String.utf8ByteSize_append, bytes, bytes]

theorem bytes_singleton (c : Char) : bytes [c] = c.utf8Size := String.utf8ByteSize_singleton

theorem bytes_cons (c : Char) (cs : List Char) : bytes (c :: cs) = c.utf8Size + bytes cs := by
  rw [← bytes_singleton, ← bytes_append, List.singleton_append]

/-- From a byte offset, reading the tokens `ts` and the blanks around them
leads to the byte offset `q`, where `rest` remains. -/
inductive Scans : Nat → List Char → List (Nat × Token) → Nat → List Char → Prop
  | stop {p : Nat} {cs : List Char} : Scans p cs [] p cs
  | blank {p q : Nat} {c : Char} {cs rest : List Char} {ts : List (Nat × Token)}
      (blank : isBlank c) (scans : Scans (p + c.utf8Size) cs ts q rest) :
    Scans p (c :: cs) ts q rest
  | token {p q : Nat} {u cs rest : List Char} {t : Token} {ts : List (Nat × Token)}
      (longest : Longest t u cs) (scans : Scans (p + bytes u) cs ts q rest) :
    Scans p (u ++ cs) ((p, t) :: ts) q rest

/-- A text is made of tokens and blanks only. -/
def Splits (text : String) (ts : List (Nat × Token)) : Prop :=
  ∃ q, Scans 0 text.toList ts q []

/-- The characters before byte offset `p` belong to tokens or are blanks,
and the one that stands there does not. -/
def Stray (text : String) (p : Nat) (c : Char) : Prop :=
  ∃ ts rest, Scans 0 text.toList ts p (c :: rest) ∧ ¬ isBlank c ∧ NoToken (c :: rest)

/-- Where a scan stops is the number of bytes it has passed. -/
theorem Scans.offset {p q : Nat} {cs rest : List Char} {ts : List (Nat × Token)}
    (h : Scans p cs ts q rest) : ∃ read, cs = read ++ rest ∧ q = p + bytes read := by
  induction h with
  | stop => exact ⟨[], rfl, rfl⟩
  | @blank _ _ c _ _ _ _ _ ih =>
    obtain ⟨read, rfl, rfl⟩ := ih
    exact ⟨c :: read, rfl, by rw [bytes_cons, Nat.add_assoc]⟩
  | @token _ _ u _ _ _ _ _ _ ih =>
    obtain ⟨read, rfl, rfl⟩ := ih
    exact ⟨u ++ read, by simp, by rw [bytes_append, Nat.add_assoc]⟩

/-- A token that a scan reads stands at its offset. -/
theorem Scans.offset_of_mem {p q : Nat} {cs rest : List Char} {ts : List (Nat × Token)}
    (h : Scans p cs ts q rest) {p' : Nat} {t : Token} (ht : (p', t) ∈ ts) :
    ∃ before u after, cs = before ++ (u ++ after) ∧ Longest t u after ∧ p' = p + bytes before := by
  induction h with
  | stop => simp at ht
  | @blank _ _ c _ _ _ _ _ ih =>
    obtain ⟨before, u, after, rfl, hl, rfl⟩ := ih ht
    exact ⟨c :: before, u, after, rfl, hl, by rw [bytes_cons, Nat.add_assoc]⟩
  | @token _ _ v _ _ _ _ hl _ ih =>
    rcases List.mem_cons.1 ht with ht | ht
    · cases ht
      exact ⟨[], v, _, rfl, hl, rfl⟩
    · obtain ⟨before, u, after, rfl, hl, rfl⟩ := ih ht
      exact ⟨v ++ before, u, after, by simp, hl, by rw [bytes_append, Nat.add_assoc]⟩

/-- A stray character stands at its offset. -/
theorem Stray.offset {text : String} {p : Nat} {c : Char} (h : Stray text p c) :
    ∃ before after, text.toList = before ++ c :: after ∧ p = bytes before := by
  obtain ⟨ts, rest, hscan, -, -⟩ := h
  obtain ⟨before, htext, hp⟩ := hscan.offset
  exact ⟨before, rest, htext, by omega⟩

/-- And so does every token of a text. -/
theorem Splits.offset {text : String} {ts : List (Nat × Token)} (h : Splits text ts) {p : Nat}
    {t : Token} (ht : (p, t) ∈ ts) : ∃ before u after, text.toList = before ++ (u ++ after) ∧
      Longest t u after ∧ p = bytes before := by
  obtain ⟨q, hscan⟩ := h
  obtain ⟨before, u, after, htext, hl, hp⟩ := hscan.offset_of_mem ht
  exact ⟨before, u, after, htext, hl, by omega⟩

/-! ## Longest spellings -/

/-- A word may go on with every character it may start with. -/
theorem isWordPart_of_isWordStart {c : Char} (h : isWordStart c) : isWordPart c := by
  simp [isWordPart, h]

/-- The first character of a spelling starts a word or is a mark. -/
theorem Spelling.cons {t : Token} {u : List Char} (h : Spelling t u) :
    ∃ c cs, u = c :: cs ∧ (isWordStart c ∨ mark? c = some t ∧ cs = []) := by
  cases h with
  | word start _ => exact ⟨_, _, rfl, .inl start⟩
  | _ => exact ⟨_, _, rfl, .inr ⟨rfl, rfl⟩⟩

/-- Every mark is spelled with its character. -/
theorem spelling_of_mark? {c : Char} {t : Token} (h : mark? c = some t) : Spelling t [c] := by
  unfold mark? at h
  split at h <;> cases h <;> constructor

/-- A mark starts no word. -/
theorem isWordStart_of_mark? {c : Char} {t : Token} (h : mark? c = some t) :
    isWordStart c = false := by
  unfold mark? at h
  split at h <;> first | rfl | cases h

/-- A mark is no blank. -/
theorem isBlank_of_mark? {c : Char} {t : Token} (h : mark? c = some t) : isBlank c = false := by
  unfold mark? at h
  split at h <;> first | rfl | cases h

/-- A blank starts no word. -/
theorem isWordStart_of_isBlank {c : Char} (h : isBlank c) : isWordStart c = false := by
  simp only [isBlank, Bool.or_eq_true, decide_eq_true_eq] at h
  rcases h with ((rfl | rfl) | rfl) | rfl <;> rfl

/-- What is spelled with a list of characters is one token. -/
theorem Spelling.token_eq {t t' : Token} {u : List Char} (h : Spelling t u)
    (h' : Spelling t' u) : t = t' := by
  cases h with
  | word start _ =>
    cases h' with
    | word => rfl
    | _ => exact absurd start (by decide)
  | _ =>
    cases h' with
    | word start _ => exact absurd start (by decide)
    | _ => rfl

/-- A spelling that starts like a word consists of the characters of a
word. -/
theorem Spelling.parts {t : Token} {c : Char} {cs : List Char} (h : Spelling t (c :: cs))
    (hc : isWordStart c) : ∀ d ∈ cs, isWordPart d := by
  cases h with
  | word _ parts => exact parts
  | _ => simp

/-- A prefix all of whose members have a property is no longer than the
longest one. -/
theorem length_le_takeWhile {p : Char → Bool} {cs u : List Char} (hu : u <+: cs)
    (h : ∀ d ∈ u, p d) : u.length ≤ (cs.takeWhile p).length := by
  obtain ⟨rest, rfl⟩ := hu
  rw [List.takeWhile_append_of_pos h]
  simp

/-- **A word is as long as it can be.** -/
theorem longest_word {c : Char} (hc : isWordStart c) (cs : List Char) :
    Longest (.word (String.ofList (c :: cs.takeWhile isWordPart))) (c :: cs.takeWhile isWordPart)
      (cs.dropWhile isWordPart) where
  spelling := .word hc fun _ hd => List.mem_takeWhile_imp hd
  longest t' u' h hu := by
    obtain ⟨d, ds, rfl, -⟩ := h.cons
    obtain ⟨rfl, hds⟩ := List.cons_prefix_cons.1 hu
    have hds : ds <+: cs := by rwa [← List.takeWhile_append_dropWhile (p := isWordPart) (l := cs)]
    have := length_le_takeWhile hds (h.parts hc)
    simp only [List.length_cons]
    omega

/-- And a mark stands alone. -/
theorem longest_mark {c : Char} {t : Token} (h : mark? c = some t) (cs : List Char) :
    Longest t [c] cs where
  spelling := spelling_of_mark? h
  longest t' u' h' hu := by
    obtain ⟨d, ds, rfl, hd⟩ := h'.cons
    obtain ⟨rfl, -⟩ := List.cons_prefix_cons.1 hu
    rcases hd with hd | ⟨-, rfl⟩
    · rw [isWordStart_of_mark? h] at hd
      cases hd
    · rfl

/-- The longest spelling at a place is one only. -/
theorem Longest.unique {t t' : Token} {u u' rest rest' : List Char} (h : Longest t u rest)
    (h' : Longest t' u' rest') (hu : u ++ rest = u' ++ rest') : t = t' ∧ u = u' ∧ rest = rest' := by
  have hle := h'.longest t u h.spelling (hu ▸ List.prefix_append u rest)
  have hge := h.longest t' u' h'.spelling (hu ▸ List.prefix_append u' rest')
  obtain ⟨rfl, rfl⟩ := List.append_inj hu (by omega)
  exact ⟨h.spelling.token_eq h'.spelling, rfl, rfl⟩

/-- A character that starts no word and is no mark starts no token. -/
theorem noToken_of_mark? {c : Char} (hc : isWordStart c = false) (hm : mark? c = none)
    (cs : List Char) : NoToken (c :: cs) := by
  intro t u h hu
  obtain ⟨d, ds, rfl, hd⟩ := h.cons
  obtain ⟨rfl, -⟩ := List.cons_prefix_cons.1 hu
  simp [hc, hm] at hd

/-- And where no token starts, neither a word nor a mark does. -/
theorem NoToken.start {c : Char} {cs : List Char} (h : NoToken (c :: cs)) :
    isWordStart c = false ∧ mark? c = none := by
  constructor
  · rw [Bool.eq_false_iff]
    intro hc
    refine h _ _ (longest_word hc cs).spelling ?_
    exact List.cons_prefix_cons.2 ⟨rfl, List.takeWhile_prefix _⟩
  · rw [Option.eq_none_iff_forall_ne_some]
    intro t ht
    exact h t [c] (spelling_of_mark? ht) (by simp)

/-! ## Lexing follows the relation -/

/-- A word being read ends where the characters of a word end. -/
theorem lexFrom_some (cs : List Char) : ∀ (p : Nat) (w : OpenWord),
    lexFrom p (some w) cs =
      ⟨w.start, .ok (.word (String.ofList (w.chars.reverse ++ cs.takeWhile isWordPart)))⟩ ::
        lexFrom (p + bytes (cs.takeWhile isWordPart)) none (cs.dropWhile isWordPart) := by
  induction cs with
  | nil => simp [lexFrom, OpenWord.close]
  | cons c cs ih =>
    intro p w
    by_cases hc : isWordPart c
    · rw [lexFrom, if_pos hc, ih]
      simp [hc, bytes_cons, Nat.add_assoc]
    · have hs : ¬ isWordStart c := fun h => hc (isWordPart_of_isWordStart h)
      rw [lexFrom, if_neg hc]
      simp [hc, hs, lexFrom, OpenWord.close, bytes_nil]

/-- Outside words a word is lexed by its longest spelling. -/
theorem lexFrom_word {c : Char} (hc : isWordStart c) (p : Nat) (cs : List Char) :
    lexFrom p none (c :: cs) =
      ⟨p, .ok (.word (String.ofList (c :: cs.takeWhile isWordPart)))⟩ ::
        lexFrom (p + bytes (c :: cs.takeWhile isWordPart)) none
          (cs.dropWhile isWordPart) := by
  rw [lexFrom, if_pos hc, lexFrom_some]
  simp [bytes_cons, Nat.add_assoc]

/-- Any other character is lexed alone. -/
theorem lexFrom_other {c : Char} (hc : isWordStart c = false) (p : Nat) (cs : List Char) :
    lexFrom p none (c :: cs) = lexMark p c ++ lexFrom (p + c.utf8Size) none cs := by
  rw [lexFrom]
  simp [hc]

/-- Where the longest spelling of a token stands, lexing finds the token
and goes on after it. -/
theorem lexFrom_longest {t : Token} {u rest : List Char} (h : Longest t u rest) (p : Nat) :
    lexFrom p none (u ++ rest) = ⟨p, .ok t⟩ :: lexFrom (p + bytes u) none rest := by
  obtain ⟨c, cs, rfl, hc⟩ := h.spelling.cons
  rcases hc with hc | ⟨hm, rfl⟩
  · -- the longest spelling is the one `lexFrom` takes up
    obtain ⟨ht, hu, hr⟩ := h.unique (longest_word hc (cs ++ rest)) (by simp)
    rw [List.cons_append, lexFrom_word hc, ht, ← hu, ← hr]
  · rw [List.cons_append, List.nil_append, lexFrom_other (isWordStart_of_mark? hm)]
    simp [lexMark, isBlank_of_mark? hm, hm, bytes_singleton]

/-- **The tokens of a text are those a scan reads and those after it.** -/
theorem Scans.tokens_lexFrom {p q : Nat} {cs rest : List Char} {ts : List (Nat × Token)}
    (h : Scans p cs ts q rest) :
    tokens (lexFrom p none cs) = (tokens (lexFrom q none rest)).map (ts ++ ·) := by
  induction h with
  | @stop p cs => cases tokens (lexFrom p none cs) <;> rfl
  | blank hb _ ih =>
    rw [lexFrom_other (isWordStart_of_isBlank hb), lexMark, if_pos hb, List.nil_append, ih]
  | @token _ q _ _ rest _ _ hl _ ih =>
    rw [lexFrom_longest hl, tokens, ih]
    cases tokens (lexFrom q none rest) <;> rfl

/-- At a stray character the tokens end. -/
theorem tokens_of_noToken {c : Char} {rest : List Char} (hb : ¬ isBlank c)
    (h : NoToken (c :: rest)) (p : Nat) :
    tokens (lexFrom p none (c :: rest)) = .error (.stray p c) := by
  obtain ⟨hs, hm⟩ := h.start
  rw [lexFrom_other hs, lexMark, if_neg hb, hm]
  rfl

/-- Every text can be scanned to its end or to a stray character. -/
theorem exists_scans (cs : List Char) (p : Nat) :
    ∃ ts q rest, Scans p cs ts q rest ∧
      (rest = [] ∨ ∃ c cs', rest = c :: cs' ∧ ¬ isBlank c ∧ NoToken rest) := by
  -- a word takes up several characters at once, hence the length
  induction hn : cs.length using Nat.strong_induction_on generalizing cs p with
  | _ n ih =>
    subst hn
    rcases cs with - | ⟨c, cs⟩
    · exact ⟨[], p, [], .stop, .inl rfl⟩
    by_cases hb : isBlank c
    · obtain ⟨ts, q, rest, hscan, hrest⟩ := ih cs.length (by simp) cs (p + c.utf8Size) rfl
      exact ⟨ts, q, rest, .blank hb hscan, hrest⟩
    by_cases hs : isWordStart c
    · have hlen : (cs.dropWhile isWordPart).length < (c :: cs).length := by
        have := (List.dropWhile_suffix (l := cs) isWordPart).length_le
        simp only [List.length_cons]
        omega
      obtain ⟨ts, q, rest, hscan, hrest⟩ := ih _ hlen _
        (p + bytes (c :: cs.takeWhile isWordPart)) rfl
      have := Scans.token (longest_word hs cs) hscan
      rw [List.cons_append, List.takeWhile_append_dropWhile] at this
      exact ⟨_, q, rest, this, hrest⟩
    cases hm : mark? c with
    | none =>
      have hno := noToken_of_mark? (Bool.eq_false_iff.2 hs) hm cs
      exact ⟨[], p, c :: cs, .stop, .inr ⟨c, cs, rfl, hb, hno⟩⟩
    | some t =>
      obtain ⟨ts, q, rest, hscan, hrest⟩ := ih cs.length (by simp) cs
        (p + bytes [c]) rfl
      exact ⟨_, q, rest, .token (longest_mark hm cs) hscan, hrest⟩

/-! ## What comes of a text -/

/-- A text with tokens only has the tokens that it splits into. -/
theorem Splits.tokens_lex {text : String} {ts : List (Nat × Token)} (h : Splits text ts) :
    tokens (lex text) = .ok ts := by
  obtain ⟨q, hq⟩ := h
  rw [lex, hq.tokens_lexFrom]
  simp [lexFrom, tokens, Except.map]

/-- A stray character is the one that is reported. -/
theorem Stray.tokens_lex {text : String} {p : Nat} {c : Char} (h : Stray text p c) :
    tokens (lex text) = .error (.stray p c) := by
  obtain ⟨ts, rest, hscan, hb, hno⟩ := h
  rw [lex, hscan.tokens_lexFrom, tokens_of_noToken hb hno]
  rfl

/-- **Every text splits into tokens or has a stray character.** -/
theorem splits_or_stray (text : String) : (∃ ts, Splits text ts) ∨ ∃ p c, Stray text p c := by
  obtain ⟨ts, q, rest, hscan, rfl | ⟨c, cs, rfl, hb, hno⟩⟩ := exists_scans text.toList 0
  · exact .inl ⟨ts, q, hscan⟩
  · exact .inr ⟨q, c, ts, cs, hscan, hb, hno⟩

/-- The tokens that lexing finds are those the text splits into. -/
theorem tokens_lex_eq_ok_iff {text : String} {ts : List (Nat × Token)} :
    tokens (lex text) = .ok ts ↔ Splits text ts := by
  refine ⟨fun h => ?_, Splits.tokens_lex⟩
  obtain ⟨ts', hs⟩ | ⟨p, c, hs⟩ := splits_or_stray text
  · rw [hs.tokens_lex] at h
    cases h
    exact hs
  · rw [hs.tokens_lex] at h
    cases h

/-- And lexing fails at the stray character only. -/
theorem tokens_lex_eq_error_iff {text : String} {e : SyntaxError} :
    tokens (lex text) = .error e ↔ ∃ p c, e = .stray p c ∧ Stray text p c := by
  refine ⟨fun h => ?_, fun ⟨p, c, he, hs⟩ => he ▸ hs.tokens_lex⟩
  obtain ⟨ts, hs⟩ | ⟨p, c, hs⟩ := splits_or_stray text
  · rw [hs.tokens_lex] at h
    cases h
  · rw [hs.tokens_lex] at h
    cases h
    exact ⟨p, c, rfl, hs⟩

/-- A text splits in one way only. -/
theorem Splits.unique {text : String} {ts ts' : List (Nat × Token)} (h : Splits text ts)
    (h' : Splits text ts') : ts = ts' := by
  have heq := h.tokens_lex
  rw [h'.tokens_lex] at heq
  cases heq
  rfl

end Pipeline

end QuantumLowering
