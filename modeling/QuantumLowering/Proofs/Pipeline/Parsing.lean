import QuantumLowering.Proofs.Pipeline.Lexing
import QuantumLowering.Proofs.Pipeline.Grammar
/-!
# What reading accepts and where it stops

`Reading.Continues` says, in terms of the grammar, with which tokens a
reading can go on to the end and which elements come of it. A reading
takes up a token exactly when it can go on with that token
(`Reading.continues_cons`), and it can always go on with some tokens
(`Reading.exists_continues`). So `parse` accepts what the grammar
derives, with the elements of the derivation, and stops at the first
token with which no pipeline begins.
-/


namespace QuantumLowering

namespace Pipeline

variable {stack : List OpenElement} {done es : List Element} {name : String}
variable {params : List String} {t : Token} {ts : List Token} {r : Reading}

/-! ## How a reading can go on -/

/-- The tokens may follow a complete element, and then the pipeline is
`es`: there may be more elements, after which every open element is
closed and may be followed in its turn. -/
def Follows : List OpenElement → List Element → List Token → List Element → Prop
  | [], done, ts, es => ∃ ds, ts = moreTokens ds ∧ es = done.reverse ++ elements ds
  | o :: stack, done, ts, es => ∃ ds rest, ts = moreTokens ds ++ .rightParen :: rest ∧
      Follows stack (.mk o.name o.params (done.reverse ++ elements ds) :: o.before) rest es

/-- The tokens may go on with an element. -/
def Starts (stack : List OpenElement) (done : List Element) (ts : List Token)
    (es : List Element) : Prop :=
  ∃ (d : Derivation) (rest : List Token), ts = d.tokens ++ rest ∧
    Follows stack (d.element :: done) rest es

/-- The tokens may close the innermost open element. -/
def Closes (stack : List OpenElement) (done : List Element) (ts : List Token)
    (es : List Element) : Prop :=
  ∃ o outer rest, stack = o :: outer ∧ ts = .rightParen :: rest ∧
    Follows outer (.mk o.name o.params done.reverse :: o.before) rest es

/-- The tokens may go on after an element's parameters. -/
def AfterParams (stack : List OpenElement) (done : List Element) (name : String)
    (params : List String) (ts : List Token) (es : List Element) : Prop :=
  ∃ (nested : Option (List Derivation)) (rest : List Token), ts = nestedTokens nested ++ rest ∧
    Follows stack (.mk name params (nestedElements nested) :: done) rest es

/-- The tokens may go on after some of an element's parameters, which are
listed latest first. -/
def AfterParam (stack : List OpenElement) (done : List Element) (name : String)
    (params : List String) (ts : List Token) (es : List Element) : Prop :=
  ∃ (more : List String) (rest : List Token), ts = moreParams more ++ .rightAngle :: rest ∧
    AfterParams stack done name (params.reverse ++ more) rest es

/-- The tokens may go on after an element's name. -/
def AfterName (stack : List OpenElement) (done : List Element) (name : String)
    (ts : List Token) (es : List Element) : Prop :=
  ∃ (params : List String) (rest : List Token), ts = paramTokens params ++ rest ∧
    AfterParams stack done name params rest es

/-- The tokens take a reading to its end, where the pipeline is `es`. -/
def Reading.Continues : Reading → List Token → List Element → Prop
  | ⟨stack, done, .name⟩, ts, es => Starts stack done ts es
  | ⟨stack, done, .nameOrClose⟩, ts, es => Starts stack done ts es ∨ Closes stack done ts es
  | ⟨stack, done, .afterName name⟩, ts, es => AfterName stack done name ts es
  | ⟨stack, done, .param name params⟩, ts, es =>
    ∃ p rest, ts = .word p :: rest ∧ AfterParam stack done name (p :: params) rest es
  | ⟨stack, done, .afterParam name params⟩, ts, es => AfterParam stack done name params ts es
  | ⟨stack, done, .afterParams name params⟩, ts, es => AfterParams stack done name params ts es
  | ⟨stack, done, .afterClose⟩, ts, es => Follows stack done ts es

/-- Some tokens that begin with these take a reading to its end. -/
def Reading.Extends (r : Reading) (ts : List Token) : Prop :=
  ∃ more es, r.Continues (ts ++ more) es

/-! ## The next token, by the grammar -/

/-- A complete element is followed by a comma and an element, or by a
parenthesis that closes the one it stands in. -/
theorem follows_cons : Follows stack done (t :: ts) es ↔
    (t = .comma ∧ Starts stack done ts es) ∨ Closes stack done (t :: ts) es := by
  constructor
  · intro h
    rcases stack with - | ⟨o, outer⟩
    · obtain ⟨- | ⟨d, ds⟩, hts, rfl⟩ := h
      · simp [moreTokens] at hts
      · simp only [moreTokens, List.cons.injEq] at hts
        exact .inl ⟨hts.1, d, moreTokens ds, hts.2, ds, rfl, by simp [elements]⟩
    · obtain ⟨- | ⟨d, ds⟩, rest, hts, h⟩ := h
      · exact .inr ⟨o, outer, rest, rfl, hts, by simpa [elements] using h⟩
      · simp only [moreTokens, List.cons_append, List.append_assoc, List.cons.injEq] at hts
        exact .inl ⟨hts.1, d, _, hts.2, ds, rest, rfl, by simpa [elements] using h⟩
  · rintro (⟨rfl, d, rest, rfl, h⟩ | ⟨o, outer, rest, rfl, hts, h⟩)
    · rcases stack with - | ⟨o, outer⟩
      · obtain ⟨ds, rfl, rfl⟩ := h
        exact ⟨d :: ds, rfl, by simp [elements]⟩
      · obtain ⟨ds, rest, rfl, h⟩ := h
        exact ⟨d :: ds, rest, by simp [moreTokens], by simpa [elements] using h⟩
    · exact ⟨[], rest, hts, by simpa [elements] using h⟩

/-- Where the tokens end no element is open. -/
theorem follows_nil : Follows stack done [] es ↔ stack = [] ∧ es = done.reverse := by
  constructor
  · intro h
    rcases stack with - | ⟨o, outer⟩
    · obtain ⟨- | ⟨d, ds⟩, hts, rfl⟩ := h
      · exact ⟨rfl, by simp [elements]⟩
      · simp [moreTokens] at hts
    · obtain ⟨ds, rest, hts, -⟩ := h
      simp at hts
  · rintro ⟨rfl, rfl⟩
    exact ⟨[], rfl, by simp [elements]⟩

/-- No element is without tokens. -/
theorem not_starts_nil : ¬ Starts stack done [] es := by
  rintro ⟨⟨name, params, nested⟩, rest, hts, -⟩
  simp [Derivation.tokens] at hts

/-- An element begins with its name. -/
theorem starts_cons : Starts stack done (t :: ts) es ↔
    ∃ w, t = .word w ∧ AfterName stack done w ts es := by
  constructor
  · rintro ⟨⟨name, params, nested⟩, rest, hts, h⟩
    simp only [Derivation.tokens, List.cons_append, List.append_assoc, List.cons.injEq] at hts
    exact ⟨name, hts.1, params, _, hts.2, nested, rest, rfl, h⟩
  · rintro ⟨w, rfl, params, -, rfl, nested, rest, rfl, h⟩
    exact ⟨⟨w, params, nested⟩, rest, by simp [Derivation.tokens], h⟩

/-- After parameters comes a nested pipeline or what follows the element. -/
theorem afterParams_cons : AfterParams stack done name params (t :: ts) es ↔
    (t = .leftParen ∧ (Starts (⟨done, name, params⟩ :: stack) [] ts es ∨
      Closes (⟨done, name, params⟩ :: stack) [] ts es)) ∨
    Follows stack (.mk name params [] :: done) (t :: ts) es := by
  constructor
  · rintro ⟨- | (- | ⟨d, ds⟩), rest, hts, h⟩
    · exact .inr (hts ▸ h)
    · simp only [nestedTokens, pipelineTokens, List.nil_append, List.cons_append,
        List.cons.injEq] at hts
      exact .inl ⟨hts.1, .inr ⟨_, stack, rest, rfl, hts.2, h⟩⟩
    · simp only [nestedTokens, pipelineTokens, List.cons_append, List.append_assoc,
        List.nil_append, List.cons.injEq] at hts
      exact .inl ⟨hts.1, .inl ⟨d, _, hts.2, ds, rest, rfl, h⟩⟩
  · rintro (⟨rfl, ⟨d, -, rfl, ds, rest, rfl, h⟩ | ⟨o, outer, rest, ho, rfl, h⟩⟩ | h)
    · exact ⟨some (d :: ds), rest, by simp [nestedTokens, pipelineTokens], h⟩
    · cases ho
      exact ⟨some [], rest, rfl, h⟩
    · exact ⟨none, t :: ts, rfl, h⟩

/-- Without more tokens there is no nested pipeline. -/
theorem afterParams_nil : AfterParams stack done name params [] es ↔
    Follows stack (.mk name params [] :: done) [] es := by
  constructor
  · rintro ⟨- | ds, rest, hts, h⟩
    · exact hts ▸ h
    · simp [nestedTokens] at hts
  · exact fun h => ⟨none, [], rfl, h⟩

/-- After a parameter comes another one, unless the bracket closes. -/
theorem afterParam_cons : AfterParam stack done name params (t :: ts) es ↔
    (t = .semicolon ∧ ∃ p rest, ts = .word p :: rest ∧
      AfterParam stack done name (p :: params) rest es) ∨
    (t = .rightAngle ∧ AfterParams stack done name params.reverse ts es) := by
  constructor
  · rintro ⟨- | ⟨p, more⟩, rest, hts, h⟩
    · simp only [moreParams, List.nil_append, List.cons.injEq] at hts
      rw [List.append_nil] at h
      exact .inr ⟨hts.1, hts.2 ▸ h⟩
    · simp only [moreParams, List.cons_append, List.cons.injEq] at hts
      exact .inl ⟨hts.1, p, _, hts.2, more, rest, rfl, by simpa using h⟩
  · rintro (⟨rfl, p, -, rfl, more, rest, rfl, h⟩ | ⟨rfl, h⟩)
    · exact ⟨p :: more, rest, rfl, by simpa using h⟩
    · exact ⟨[], ts, rfl, by simpa using h⟩

/-- After a name come parameters or what may follow them. -/
theorem afterName_cons : AfterName stack done name (t :: ts) es ↔
    (t = .leftAngle ∧ ∃ p rest, ts = .word p :: rest ∧
      AfterParam stack done name [p] rest es) ∨
    AfterParams stack done name [] (t :: ts) es := by
  constructor
  · rintro ⟨- | ⟨p, params⟩, rest, hts, h⟩
    · exact .inr (hts ▸ h)
    · simp only [paramTokens, List.cons_append, List.append_assoc, List.nil_append,
        List.cons.injEq] at hts
      exact .inl ⟨hts.1, p, _, hts.2, params, rest, rfl, h⟩
  · rintro (⟨rfl, p, -, rfl, params, rest, rfl, h⟩ | h)
    · exact ⟨p :: params, rest, by simp [paramTokens], h⟩
    · exact ⟨[], t :: ts, rfl, h⟩

/-- Without more tokens there are no parameters. -/
theorem afterName_nil : AfterName stack done name [] es ↔
    AfterParams stack done name [] [] es := by
  constructor
  · rintro ⟨- | ⟨p, params⟩, rest, hts, h⟩
    · exact hts ▸ h
    · simp [paramTokens] at hts
  · exact fun h => ⟨[], [], rfl, h⟩

/-! ## One token -/

namespace Reading

/-- A closing parenthesis is taken up where one is due. -/
theorem closes_iff {e : Expectation} : Closes stack done (.rightParen :: ts) es ↔
    ∃ r', closeNested ⟨stack, done, e⟩ = some r' ∧ r'.Continues ts es := by
  rcases stack with - | ⟨o, outer⟩
  · simp [Closes, closeNested]
  · constructor
    · rintro ⟨o, outer, rest, ho, hts, h⟩
      cases ho
      cases hts
      exact ⟨_, rfl, h⟩
    · rintro ⟨r', hr', h⟩
      cases hr'
      exact ⟨o, outer, ts, rfl, rfl, h⟩

/-- So is whatever may follow a complete element. -/
theorem follows_iff {e : Expectation} : Follows stack done (t :: ts) es ↔
    ∃ r', separate ⟨stack, done, e⟩ t = .ok r' ∧ r'.Continues ts es := by
  rw [follows_cons]
  cases t with
  | comma => simp [separate, Continues, Closes]
  | rightParen =>
    rw [closes_iff (e := e), separate]
    cases closeNested ⟨stack, done, e⟩ <;> simp
  | _ => simp [separate, Closes]

/-- And what may follow parameters. -/
theorem afterParams_iff : AfterParams stack done name params (t :: ts) es ↔
    ∃ r', step ⟨stack, done, .afterParams name params⟩ t = .ok r' ∧ r'.Continues ts es := by
  rw [afterParams_cons, follows_iff (e := .afterParams name params)]
  cases t with
  | leftParen => simp [step, separate, openNested, Continues]
  | _ => simp [step, add]

/-- Without an angle bracket an element has no parameters. -/
theorem step_afterName (h : t ≠ .leftAngle) :
    step ⟨stack, done, .afterName name⟩ t = step ⟨stack, done, .afterParams name []⟩ t := by
  cases t with
  | leftAngle => exact absurd rfl h
  | _ => rfl

/-- **A reading takes up a token exactly when it can go on with it**, and
goes on from there as the rest of the tokens do. -/
theorem continues_cons : r.Continues (t :: ts) es ↔
    ∃ r', r.step t = .ok r' ∧ r'.Continues ts es := by
  obtain ⟨stack, done, expectation⟩ := r
  cases expectation with
  | name =>
    rw [Continues, starts_cons]
    cases t <;> simp [step, Continues]
  | nameOrClose =>
    rw [Continues, starts_cons]
    cases t with
    | rightParen =>
      rw [closes_iff (e := .nameOrClose)]
      cases h : closeNested ⟨stack, done, .nameOrClose⟩ <;> simp [step, h]
    | _ => simp [step, Continues, Closes]
  | afterName name =>
    rw [Continues, afterName_cons, afterParams_iff]
    -- only an angle bracket makes a difference to having no parameters
    cases t with
    | leftAngle => simp [step, separate, Continues]
    | _ =>
      rw [step_afterName (by simp)]
      simp
  | param name params =>
    cases t with
    | word w =>
      constructor
      · rintro ⟨p, rest, hts, h⟩
        cases hts
        exact ⟨_, rfl, h⟩
      · rintro ⟨r', hr', h⟩
        cases hr'
        exact ⟨w, ts, rfl, h⟩
    | _ => simp [step, Continues]
  | afterParam name params =>
    rw [Continues, afterParam_cons]
    cases t <;> simp [step, Continues]
  | afterParams name params => exact afterParams_iff
  | afterClose => exact follows_iff

/-! ## The end of the tokens -/

/-- Where the tokens end, after a complete element. -/
theorem elements_eq_ok_iff : r.elements = .ok es ↔ Follows r.stack r.done [] es := by
  rw [follows_nil, elements, ← List.isEmpty_iff]
  cases r.stack.isEmpty <;> simp [eq_comm]

/-- **A reading ends exactly where it needs no more tokens.** -/
theorem continues_nil : r.Continues [] es ↔ r.finish = .ok es := by
  obtain ⟨stack, done, expectation⟩ := r
  cases expectation with
  | name => simp [Continues, finish, not_starts_nil]
  | nameOrClose => simp [Continues, finish, not_starts_nil, Closes]
  | afterName name =>
    rw [Continues, afterName_nil, afterParams_nil, finish, elements_eq_ok_iff]
    rfl
  | param name params => simp [Continues, finish]
  | afterParam name params => simp [Continues, finish, AfterParam]
  | afterParams name params =>
    rw [Continues, afterParams_nil, finish, elements_eq_ok_iff]
    rfl
  | afterClose => rw [Continues, finish, elements_eq_ok_iff]

/-! ## A reading can always go on -/

/-- Something may follow every complete element. -/
theorem exists_follows (stack : List OpenElement) : ∀ done, ∃ ts es, Follows stack done ts es := by
  induction stack with
  | nil => exact fun done => ⟨[], done.reverse, follows_nil.2 ⟨rfl, rfl⟩⟩
  | cons o outer ih =>
    intro done
    obtain ⟨rest, es, h⟩ :=
      ih (.mk o.name o.params (done.reverse ++ Pipeline.elements []) :: o.before)
    exact ⟨_, es, [], rest, rfl, h⟩

/-- So after parameters too, without a nested pipeline. -/
theorem exists_afterParams (stack : List OpenElement) (done : List Element) (name : String)
    (params : List String) : ∃ ts es, AfterParams stack done name params ts es := by
  obtain ⟨ts, es, h⟩ := exists_follows stack (.mk name params [] :: done)
  exact ⟨ts, es, none, ts, rfl, h⟩

/-- And after some of them, by closing the bracket. -/
theorem exists_afterParam (stack : List OpenElement) (done : List Element) (name : String)
    (params : List String) : ∃ ts es, AfterParam stack done name params ts es := by
  obtain ⟨ts, es, h⟩ := exists_afterParams stack done name (params.reverse ++ [])
  exact ⟨_, es, [], ts, rfl, h⟩

/-- **No reading is stuck**: with some tokens it comes to its end. -/
theorem exists_continues (r : Reading) : ∃ ts es, r.Continues ts es := by
  obtain ⟨stack, done, expectation⟩ := r
  -- wherever an element is due, any name will do
  have hstarts : ∃ ts es, Starts stack done ts es := by
    obtain ⟨ts, es, h⟩ := exists_follows stack (.mk "" [] [] :: done)
    exact ⟨_, es, .mk "" [] none, ts, rfl, h⟩
  cases expectation with
  | name => exact hstarts
  | nameOrClose =>
    obtain ⟨ts, es, h⟩ := hstarts
    exact ⟨ts, es, .inl h⟩
  | afterName name =>
    obtain ⟨ts, es, h⟩ := exists_afterParams stack done name []
    exact ⟨ts, es, [], ts, rfl, h⟩
  | param name params =>
    obtain ⟨ts, es, h⟩ := exists_afterParam stack done name ("" :: params)
    exact ⟨_, es, "", ts, rfl, h⟩
  | afterParam name params => exact exists_afterParam stack done name params
  | afterParams name params => exact exists_afterParams stack done name params
  | afterClose => exact exists_follows stack done

/-- Every reading extends no tokens at all. -/
theorem extends_nil (r : Reading) : r.Extends [] := exists_continues r

/-- And what extends a reading begins with a token it takes up. -/
theorem extends_cons : r.Extends (t :: ts) ↔ ∃ r', r.step t = .ok r' ∧ r'.Extends ts := by
  constructor
  · rintro ⟨more, es, h⟩
    obtain ⟨r', hr', h⟩ := continues_cons.1 h
    exact ⟨r', hr', more, es, h⟩
  · rintro ⟨r', hr', more, es, h⟩
    exact ⟨more, es, continues_cons.2 ⟨r', hr', h⟩⟩

theorem extends_cons_of_ok {r' : Reading} (h : r.step t = .ok r') :
    r.Extends (t :: ts) ↔ r'.Extends ts := by
  simp [extends_cons, h]

theorem not_extends_cons {expected : String} (h : r.step t = .error expected) :
    ¬ r.Extends (t :: ts) := by
  simp [extends_cons, h]

/-! ## All tokens -/

variable {tokens : List (Nat × Token)}

/-- **A run accepts the tokens that the reading can go on with.** -/
theorem run_eq_ok_iff : r.run tokens = .ok es ↔ r.Continues (tokens.map Prod.snd) es := by
  induction tokens generalizing r with
  | nil =>
    rw [List.map_nil, continues_nil, run]
    cases r.finish <;> simp [Except.mapError]
  | cons head rest ih =>
    rw [List.map_cons, continues_cons, run]
    cases h : r.step head.2 <;> simp [ih]

/-- **A run that refuses a token** has taken up those before it and cannot
be extended by it. -/
theorem run_eq_unexpected_iff {p : Nat} :
    (∃ expected, r.run tokens = .error (.unexpected p expected t)) ↔
      ∃ before after, tokens = before ++ (p, t) :: after ∧
        r.Extends (before.map Prod.snd) ∧ ¬ r.Extends (before.map Prod.snd ++ [t]) := by
  induction tokens generalizing r with
  | nil =>
    rw [run]
    cases r.finish <;> simp [Except.mapError]
  | cons head rest ih =>
    obtain ⟨q, u⟩ := head
    rw [run]
    cases h : r.step u with
    | ok r' =>
      rw [ih]
      constructor
      · rintro ⟨before, after, rfl, hbefore, ht⟩
        exact ⟨(q, u) :: before, after, rfl, (extends_cons_of_ok h).2 hbefore,
          fun hext => ht ((extends_cons_of_ok h).1 hext)⟩
      · rintro ⟨- | ⟨head, before⟩, after, hts, hbefore, ht⟩
        · -- the token is taken up, so it extends the reading
          cases hts
          exact absurd ((extends_cons_of_ok h).2 (extends_nil r')) ht
        · cases hts
          exact ⟨before, after, rfl, (extends_cons_of_ok h).1 hbefore,
            fun hext => ht ((extends_cons_of_ok h).2 hext)⟩
    | error expected =>
      constructor
      · rintro ⟨_, he⟩
        cases he
        exact ⟨[], rest, rfl, extends_nil r, not_extends_cons h⟩
      · rintro ⟨- | ⟨head, before⟩, after, hts, hbefore, ht⟩
        · cases hts
          exact ⟨expected, rfl⟩
        · cases hts
          exact absurd hbefore (not_extends_cons h)

/-- **A run that wants more tokens** can be extended by them and cannot end
with them. -/
theorem run_eq_unfinished_iff : (∃ expected, r.run tokens = .error (.unfinished expected)) ↔
    r.Extends (tokens.map Prod.snd) ∧ ¬ ∃ es, r.Continues (tokens.map Prod.snd) es := by
  induction tokens generalizing r with
  | nil =>
    simp only [List.map_nil, extends_nil, continues_nil, true_and, run]
    cases r.finish <;> simp [Except.mapError]
  | cons head rest ih =>
    rw [List.map_cons, extends_cons, run]
    simp only [continues_cons]
    cases h : r.step head.2 <;> simp [ih]

/-- A run never finds a stray character. -/
theorem run_ne_stray {p : Nat} {c : Char} : r.run tokens ≠ .error (.stray p c) := by
  induction tokens generalizing r with
  | nil =>
    rw [run]
    cases r.finish <;> simp [Except.mapError]
  | cons head rest ih =>
    rw [run]
    cases h : r.step head.2 <;> simp [ih]

/-- What a reading goes on with from the start is a pipeline. -/
theorem continues_start : Continues {} ts es ↔ ∃ ds, Derives ds ts ∧ Pipeline.elements ds = es := by
  constructor
  · rintro ⟨d, -, rfl, ds, rfl, rfl⟩
    exact ⟨d :: ds, ⟨by simp, rfl⟩, rfl⟩
  · rintro ⟨- | ⟨d, ds⟩, ⟨hne, rfl⟩, rfl⟩
    · exact absurd rfl hne
    · exact ⟨d, _, rfl, ds, rfl, rfl⟩

/-- So the tokens that extend it from the start are those that begin a
pipeline. -/
theorem extends_start : Extends {} ts ↔ Begins ts := by
  simp only [Extends, Begins, continues_start]
  constructor
  · rintro ⟨more, -, ds, h, rfl⟩
    exact ⟨more, ds, h⟩
  · rintro ⟨more, ds, h⟩
    exact ⟨more, _, ds, h, rfl⟩

end Reading

/-! ## The text of a pipeline -/

variable {text : String} {tokens : List (Nat × Token)}

/-- What is read from a text that splits into tokens. -/
theorem parse_of_splits (h : Splits text tokens) :
    parse text = if tokens = [] then .ok [] else Reading.run {} tokens := by
  rw [parse, h.tokens_lex]
  cases tokens <;> simp

/-- A stray character is reported whatever the tokens before it are. -/
theorem parse_of_stray {p : Nat} {c : Char} (h : Stray text p c) :
    parse text = .error (.stray p c) := by
  rw [parse, h.tokens_lex]

/-- A text with a stray character does not split. -/
theorem Stray.not_splits {p : Nat} {c : Char} (h : Stray text p c) : ¬ Splits text tokens := by
  intro hs
  have := hs.tokens_lex
  rw [h.tokens_lex] at this
  cases this

/-- **A text is read exactly when it splits into no tokens or into those of
a pipeline**, and what is read is the elements of its derivation. -/
theorem parse_eq_ok_iff : parse text = .ok es ↔ ∃ tokens, Splits text tokens ∧
    (tokens = [] ∧ es = [] ∨ ∃ ds, Derives ds (tokens.map Prod.snd) ∧ elements ds = es) := by
  obtain ⟨tokens, hs⟩ | ⟨p, c, hs⟩ := splits_or_stray text
  · have hone : (∃ ts, Splits text ts ∧ (ts = [] ∧ es = [] ∨
        ∃ ds, Derives ds (ts.map Prod.snd) ∧ elements ds = es)) ↔
        (tokens = [] ∧ es = [] ∨ ∃ ds, Derives ds (tokens.map Prod.snd) ∧ elements ds = es) :=
      ⟨fun ⟨_, hts, h⟩ => hts.unique hs ▸ h, fun h => ⟨tokens, hs, h⟩⟩
    rw [hone, parse_of_splits hs, ← Reading.continues_start, ← Reading.run_eq_ok_iff]
    by_cases hnil : tokens = []
    · -- no tokens are the empty pipeline, though the grammar derives none
      subst hnil
      simp [Reading.run, Reading.finish, Except.mapError, eq_comm]
    · simp [hnil]
  · rw [parse_of_stray hs]
    simp [hs.not_splits]

/-- **A stray character** is reported exactly where it stands. -/
theorem parse_eq_stray_iff {p : Nat} {c : Char} :
    parse text = .error (.stray p c) ↔ Stray text p c := by
  refine ⟨fun h => ?_, parse_of_stray⟩
  obtain ⟨tokens, hs⟩ | ⟨q, d, hs⟩ := splits_or_stray text
  · rw [parse_of_splits hs] at h
    split at h
    · cases h
    · exact absurd h Reading.run_ne_stray
  · rw [parse_of_stray hs] at h
    cases h
    exact hs

/-- **A token is refused** exactly when it is the first with which no
pipeline begins. -/
theorem parse_eq_unexpected_iff {p : Nat} :
    (∃ expected, parse text = .error (.unexpected p expected t)) ↔
      ∃ before after, Splits text (before ++ (p, t) :: after) ∧
        Begins (before.map Prod.snd) ∧ ¬ Begins (before.map Prod.snd ++ [t]) := by
  obtain ⟨tokens, hs⟩ | ⟨q, d, hs⟩ := splits_or_stray text
  · have hone (before after : List (Nat × Token)) :
        Splits text (before ++ (p, t) :: after) ↔ tokens = before ++ (p, t) :: after :=
      ⟨fun h => hs.unique h, fun h => h ▸ hs⟩
    simp only [hone, ← Reading.extends_start, ← Reading.run_eq_unexpected_iff]
    rw [parse_of_splits hs]
    by_cases hnil : tokens = []
    · subst hnil
      simp [Reading.run, Reading.finish, Except.mapError]
    · simp [hnil]
  · rw [parse_of_stray hs]
    simp [hs.not_splits]

/-- **More tokens are wanted** exactly when those there are begin a pipeline
and are none. -/
theorem parse_eq_unfinished_iff : (∃ expected, parse text = .error (.unfinished expected)) ↔
    ∃ tokens, Splits text tokens ∧ tokens ≠ [] ∧ Begins (tokens.map Prod.snd) ∧
      ¬ ∃ ds, Derives ds (tokens.map Prod.snd) := by
  obtain ⟨tokens, hs⟩ | ⟨q, d, hs⟩ := splits_or_stray text
  · have hone : (∃ ts, Splits text ts ∧ ts ≠ [] ∧ Begins (ts.map Prod.snd) ∧
        ¬ ∃ ds, Derives ds (ts.map Prod.snd)) ↔
        tokens ≠ [] ∧ Begins (tokens.map Prod.snd) ∧ ¬ ∃ ds, Derives ds (tokens.map Prod.snd) :=
      ⟨fun ⟨_, hts, h⟩ => hts.unique hs ▸ h, fun h => ⟨tokens, hs, h⟩⟩
    have hends : (∃ ds, Derives ds (tokens.map Prod.snd)) ↔
        ∃ es, Reading.Continues {} (tokens.map Prod.snd) es := by
      simp only [Reading.continues_start]
      exact ⟨fun ⟨ds, h⟩ => ⟨_, ds, h, rfl⟩, fun ⟨_, ds, h, _⟩ => ⟨ds, h⟩⟩
    rw [hone, parse_of_splits hs, hends, ← Reading.extends_start,
      ← Reading.run_eq_unfinished_iff]
    by_cases hnil : tokens = [] <;> simp [hnil]
  · rw [parse_of_stray hs]
    simp [hs.not_splits]

/-- **What comes of every text.** It is read exactly when it splits into
no tokens or into those of a pipeline, whose derivation is unique and
gives the elements. Otherwise the first character outside tokens is
reported, whatever the tokens before it are; then the first token with
which no pipeline begins; then that the text ends too early. Positions
count the bytes before what they point at. -/
theorem parse_follows_grammar (text : String) :
    (∀ es, parse text = .ok es ↔ ∃ tokens, Splits text tokens ∧
      (tokens = [] ∧ es = [] ∨ ∃ ds, Derives ds (tokens.map Prod.snd) ∧ elements ds = es)) ∧
    (∀ tokens tokens', Splits text tokens → Splits text tokens' → tokens = tokens') ∧
    (∀ ds ds' ts, Derives ds ts → Derives ds' ts → ds = ds') ∧
    (∀ p c, parse text = .error (.stray p c) ↔ Stray text p c) ∧
    (∀ p t, (∃ expected, parse text = .error (.unexpected p expected t)) ↔
      ∃ before after, Splits text (before ++ (p, t) :: after) ∧
        Begins (before.map Prod.snd) ∧ ¬ Begins (before.map Prod.snd ++ [t])) ∧
    ((∃ expected, parse text = .error (.unfinished expected)) ↔
      ∃ tokens, Splits text tokens ∧ tokens ≠ [] ∧ Begins (tokens.map Prod.snd) ∧
        ¬ ∃ ds, Derives ds (tokens.map Prod.snd)) ∧
    (∀ p c, Stray text p c → ∃ before after, text.toList = before ++ c :: after ∧
      p = (String.ofList before).utf8ByteSize) ∧
    (∀ tokens, Splits text tokens → ∀ p t, (p, t) ∈ tokens → ∃ before u after,
      text.toList = before ++ (u ++ after) ∧ Longest t u after ∧
        p = (String.ofList before).utf8ByteSize) :=
  ⟨fun _ => parse_eq_ok_iff, fun _ _ => Splits.unique, fun _ _ _ => Derives.unique,
    fun _ _ => parse_eq_stray_iff, fun _ _ => parse_eq_unexpected_iff, parse_eq_unfinished_iff,
    fun _ _ => Stray.offset, fun _ h _ _ => h.offset⟩

/-- A stray character comes before the misplaced comma it follows. -/
example : parse ",%" = .error (.stray 1 '%') := by rfl

end Pipeline

end QuantumLowering
