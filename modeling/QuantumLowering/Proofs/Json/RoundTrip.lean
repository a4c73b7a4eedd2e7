import Mathlib.Data.Nat.Notation
import QuantumLowering.Json.Reader
import QuantumLowering.Json.Writer
/-!
# Written values are read back

The text of a value is read back as that value, if the value is one that a
text can spell (`Json.Written`): no string in it is without a text, and each
digit of its numbers is one. The reader takes up exactly the characters of a
value where no other may belong to it (`Ended`), so values are read back
inside others too (`Json.reads`).
-/


namespace QuantumLowering

/-! ## Digits -/

theorem Text.isDigit_eq : Text.isDigit = Char.isDigit := by
  funext c
  rfl

namespace Decimal

theorem digitsOf_ne_nil {n : ℕ} : digitsOf n ≠ [] := by
  simp [digitsOf, Nat.toDigits_ne_nil]

/-- **A number is what its digits spell.** -/
theorem ofDigits_digitsOf (n : ℕ) : ofDigits (digitsOf n) = n := by
  rw [ofDigits, digitsOf, List.foldl_map, ← Nat.ofDigitChars_eq_foldl,
    Nat.ofDigitChars_ten_toDigits]

theorem digitsOf_of_lt {n : ℕ} (h : n < 10) : digitsOf n = [n] := by
  rw [digitsOf, Nat.toDigits_of_lt_base h]
  decide +revert

theorem digitsOf_of_le {n : ℕ} (h : 10 ≤ n) :
    digitsOf n = digitsOf (n / 10) ++ digitsOf (n % 10) := by
  rw [digitsOf, Nat.toDigits_eq_if (by decide), if_neg (by omega), List.map_append, digitsOf,
    digitsOf, Nat.toDigits_of_lt_base (Nat.mod_lt n (by decide))]

/-- No other digit follows a leading zero. -/
theorem length_digitsOf_of_head {n : ℕ} (h : (digitsOf n).head? = some 0) :
    (digitsOf n).length = 1 := by
  have positive : ∀ n, 0 < n → ∃ d ds, digitsOf n = d :: ds ∧ 0 < d := by
    intro n
    induction n using Nat.strongRecOn with
    | ind n ih =>
      intro hn
      rcases Nat.lt_or_ge n 10 with hlt | hge
      · exact ⟨n, [], digitsOf_of_lt hlt, hn⟩
      · obtain ⟨d, ds, hd, hpos⟩ := ih (n / 10) (by omega) (by omega)
        exact ⟨d, ds ++ digitsOf (n % 10), by rw [digitsOf_of_le hge, hd, List.cons_append], hpos⟩
  rcases Nat.eq_zero_or_pos n with rfl | hn
  · rfl
  · obtain ⟨d, ds, hd, hpos⟩ := positive n hn
    rw [hd, List.head?_cons, Option.some.injEq] at h
    omega

end Decimal

namespace Json

/-! ## Where a value ends -/

/-- Text at whose front no number goes on: nothing is left, or a comma or a
closing bracket or brace comes next. -/
def Ended (cs : List Char) : Prop := ∀ c ∈ cs.head?, c = ',' ∨ c = ']' ∨ c = '\x7d'

theorem ended_nil : Ended [] := by simp [Ended]

theorem ended_cons {c : Char} {cs : List Char} (h : c = ',' ∨ c = ']' ∨ c = '\x7d') :
    Ended (c :: cs) := by simpa [Ended] using h

/-- Text at whose front no digit stands. -/
def NoDigit (cs : List Char) : Prop := ∀ c ∈ cs.head?, Text.isDigit c = false

theorem noDigit_cons {c : Char} {cs : List Char} (h : Text.isDigit c = false) :
    NoDigit (c :: cs) := by simpa [NoDigit] using h

theorem Ended.noDigit {cs : List Char} (h : Ended cs) : NoDigit cs := by
  intro c hc
  rcases h c hc with rfl | rfl | rfl <;> rfl

/-! ## Numbers -/

/-- The digits in front are taken up, no other character. -/
theorem takeDigits_append {digits cs : List Char} (h : ∀ c ∈ digits, c.isDigit)
    (hcs : NoDigit cs) :
    takeDigits (digits ++ cs) = (digits.map fun c => c.toNat - '0'.toNat, cs) := by
  rw [← Text.isDigit_eq] at h
  unfold takeDigits
  rw [List.takeWhile_append_of_pos h, List.dropWhile_append_of_pos h]
  cases cs with
  | nil => simp
  | cons c cs =>
    have hc : Text.isDigit c = false := hcs c rfl
    simp [hc]

theorem isDigit_toDigits {n : ℕ} : ∀ c ∈ Nat.toDigits 10 n, c.isDigit := fun _ hc =>
  Nat.isDigit_of_mem_toDigits (by decide) (by decide) hc

theorem takeDigits_toDigits {n : ℕ} {cs : List Char} (hcs : NoDigit cs) :
    takeDigits (Nat.toDigits 10 n ++ cs) = (Decimal.digitsOf n, cs) :=
  takeDigits_append isDigit_toDigits hcs

/-- The first digit of a number. -/
theorem exists_toDigits_eq_cons (n : ℕ) :
    ∃ d ds, Nat.toDigits 10 n = d :: ds ∧ d.isDigit = true := by
  obtain ⟨d, ds, hd⟩ := List.exists_cons_of_ne_nil (Nat.toDigits_ne_nil : Nat.toDigits 10 n ≠ [])
  exact ⟨d, ds, hd, isDigit_toDigits d (by rw [hd]; exact List.mem_cons_self)⟩

/-- The characters of a fraction. -/
def fractionChars (ds : List ℕ) : List Char :=
  if ds.isEmpty then [] else '.' :: ds.map fun d => Char.ofNat (d + '0'.toNat)

/-- The characters of an exponent. -/
def exponentChars : Option Int → List Char
  | some e => 'e' :: e.repr.toList
  | none => []

theorem toList_numberText (n : NumberLiteral) :
    (numberText n).toList =
      (if n.negative then ['-'] else []) ++
        (Nat.toDigits 10 n.whole ++ (fractionChars n.fraction ++ exponentChars n.exponent)) := by
  obtain ⟨negative, whole, fraction, exponent⟩ := n
  have sign : (if negative then "-" else "").toList = if negative then ['-'] else [] := by
    split <;> rfl
  have point : (if fraction.isEmpty then "" else "." ++ Decimal.digitText fraction).toList =
      fractionChars fraction := by
    unfold fractionChars Decimal.digitText
    split <;> simp
  cases exponent with
  | none =>
    simp only [numberText, String.toList_append, sign, point]
    simp [exponentChars, Nat.toString_eq_repr]
  | some e =>
    simp only [numberText, String.toList_append, sign, point]
    simp [exponentChars, Nat.toString_eq_repr]

theorem isDigit_digitChar {d : ℕ} (h : d < 10) : (Char.ofNat (d + '0'.toNat)).isDigit := by
  decide +revert

theorem toNat_digitChar {d : ℕ} (h : d < 10) :
    (Char.ofNat (d + '0'.toNat)).toNat - '0'.toNat = d := by
  decide +revert

theorem readFraction_fractionChars {ds : List ℕ} {cs : List Char} (hds : ∀ d ∈ ds, d < 10)
    (hcs : NoDigit cs) (hpoint : ∀ c ∈ cs.head?, c ≠ '.') :
    readFraction (fractionChars ds ++ cs) = some (ds, cs) := by
  cases ds with
  | nil =>
    unfold readFraction
    split
    · rename_i rest h
      exact absurd rfl (hpoint '.' (by rw [show cs = '.' :: rest from h]; rfl))
    · rfl
  | cons d ds =>
    have chars : takeDigits (((d :: ds).map fun d => Char.ofNat (d + '0'.toNat)) ++ cs) =
        (d :: ds, cs) := by
      rw [takeDigits_append _ hcs, List.map_map]
      · congr 1
        exact (List.map_congr_left fun e he => toNat_digitChar (hds e he)).trans (List.map_id _)
      · exact List.forall_mem_map.2 fun e he => isDigit_digitChar (hds e he)
    have text : fractionChars (d :: ds) ++ cs =
        '.' :: (((d :: ds).map fun d => Char.ofNat (d + '0'.toNat)) ++ cs) := rfl
    rw [text]
    simp only [readFraction, chars]

/-- The digits of a power of ten are read back, with either sign. -/
theorem readPower_toDigits {n : ℕ} {cs : List Char} (hcs : NoDigit cs) :
    readPower (Nat.toDigits 10 n ++ cs) = some ((n : Int), cs) ∧
      readPower ('-' :: (Nat.toDigits 10 n ++ cs)) = some (-(n : Int), cs) := by
  obtain ⟨d, ds, hd⟩ := List.exists_cons_of_ne_nil (Decimal.digitsOf_ne_nil (n := n))
  have taken : takeDigits (Nat.toDigits 10 n ++ cs) = (d :: ds, cs) := by
    rw [takeDigits_toDigits hcs, hd]
  have spelled : Decimal.ofDigits (d :: ds) = n := by rw [← hd, Decimal.ofDigits_digitsOf]
  constructor
  · obtain ⟨c, rest, hc, hdigit⟩ := exists_toDigits_eq_cons n
    -- a digit is no sign
    have plus : c ≠ '+' := by rintro rfl; cases hdigit
    have minus : c ≠ '-' := by rintro rfl; cases hdigit
    rw [hc, List.cons_append] at taken ⊢
    simp [readPower, plus, minus, taken, spelled]
  · simp [readPower, taken, spelled]

/-- A power of ten is read back. -/
theorem readPower_repr (e : Int) {cs : List Char} (hcs : NoDigit cs) :
    readPower (e.repr.toList ++ cs) = some (e, cs) := by
  cases e with
  | ofNat n =>
    rw [show (Int.ofNat n).repr.toList = Nat.toDigits 10 n from Nat.toList_repr]
    exact (readPower_toDigits hcs).1
  | negSucc n =>
    rw [show (Int.negSucc n).repr.toList = '-' :: Nat.toDigits 10 (n + 1) by
      simp [Int.repr]]
    exact (readPower_toDigits hcs).2

theorem readExponent_exponentChars (e : Option Int) {cs : List Char} (hcs : Ended cs) :
    readExponent (exponentChars e ++ cs) = some (e, cs) := by
  cases e with
  | some e => simp [exponentChars, readExponent, readPower_repr e hcs.noDigit]
  | none =>
    unfold readExponent
    split
    · rename_i rest h
      exact absurd (hcs 'e' (by rw [show cs = 'e' :: rest from h]; rfl)) (by decide)
    · rename_i rest h
      exact absurd (hcs 'E' (by rw [show cs = 'E' :: rest from h]; rfl)) (by decide)
    · rfl

end Json

/-- Whether each digit after the point of a literal is one. -/
def NumberLiteral.Written (n : NumberLiteral) : Prop := ∀ d ∈ n.fraction, d < 10

namespace Json

/-- **A number is read back** up to where it ends. -/
theorem readNumber_numberText {n : NumberLiteral} (hn : n.Written) {cs : List Char}
    (hcs : Ended cs) :
    readNumber n.negative (Nat.toDigits 10 n.whole ++
      (fractionChars n.fraction ++ (exponentChars n.exponent ++ cs))) = some (n, cs) := by
  -- what follows the digits starts with a point, an exponent mark or where the number ends
  have afterFraction : ∀ c ∈ (exponentChars n.exponent ++ cs).head?,
      Text.isDigit c = false ∧ c ≠ '.' := by
    intro c hc
    cases he : n.exponent with
    | some e =>
      simp only [he, exponentChars, List.cons_append, List.head?_cons, Option.mem_some_iff] at hc
      exact hc ▸ by decide
    | none =>
      rw [he] at hc
      rcases hcs c hc with rfl | rfl | rfl <;> decide
  have afterWhole : NoDigit (fractionChars n.fraction ++ (exponentChars n.exponent ++ cs)) := by
    unfold fractionChars
    split
    · exact fun c hc => (afterFraction c hc).1
    · exact noDigit_cons (by decide)
  have single : ¬ ((Decimal.digitsOf n.whole).head? = some 0 ∧
      (Decimal.digitsOf n.whole).length ≠ 1) := fun h =>
    h.2 (Decimal.length_digitsOf_of_head h.1)
  unfold readNumber
  rw [takeDigits_toDigits afterWhole]
  simp [Decimal.digitsOf_ne_nil, single,
    readFraction_fractionChars hn (fun c hc => (afterFraction c hc).1)
      (fun c hc => (afterFraction c hc).2),
    readExponent_exponentChars n.exponent hcs, Decimal.ofDigits_digitsOf]

/-! ## Strings -/

/-- A character that is written with four hexadecimal digits. -/
theorem unit?_hexChar {c : Char} (h : c.toNat < 32) :
    unit? '0' '0' (hexChar (c.toNat / 16)) (hexChar (c.toNat % 16)) = some c.toNat := by
  have units : ∀ n < 32, unit? '0' '0' (hexChar (n / 16)) (hexChar (n % 16)) = some n := by decide
  exact units c.toNat h

/-- **A character is read back**, escaped or not. -/
theorem readString_escapeChar (c : Char) (r : Reading) (cs : List Char) :
    readString r (escapeChar c ++ cs) = readString (r.push c) cs := by
  by_cases short : c = '"' ∨ c = '\\' ∨ c = '\x08' ∨ c = '\x0c' ∨ c = '\n' ∨ c = '\r' ∨ c = '\t'
  · rcases short with rfl | rfl | rfl | rfl | rfl | rfl | rfl <;>
      simp [escapeChar, readString, escape?]
  · simp only [not_or] at short
    obtain ⟨quote, backslash, back, form, newline, feed, tab⟩ := short
    by_cases control : c.toNat < 32
    · have pushed : r.pushUnit c.toNat = r.push c := by
        unfold Reading.pushUnit
        rw [if_neg (by omega), if_neg (by omega), Char.ofNat_toNat]
      simp [escapeChar, quote, backslash, back, form, newline, feed, tab, control, readString,
        unit?_hexChar control, pushed]
    · simp only [escapeChar, quote, backslash, back, form, newline, feed, tab, control, if_false,
        List.cons_append, List.nil_append]
      rw [readString, if_neg (by simp [backslash, control])]
      all_goals simp [quote, backslash]

/-- **A string is read back** up to its closing quote. -/
theorem readString_flatMap (s : List Char) {r : Reading} (hr : r.high = none) (cs : List Char) :
    readString r (s.flatMap escapeChar ++ '"' :: cs) =
      some (⟨s.reverse ++ r.chars, none, r.sound⟩, cs) := by
  induction s generalizing r with
  | nil =>
    obtain ⟨chars, high, sound⟩ := r
    cases hr
    simp [readString]
  | cons c s ih =>
    rw [List.flatMap_cons, List.append_assoc, readString_escapeChar, ih (r := r.push c) rfl]
    simp [Reading.push, hr]

/-- The characters of a string with its quotes. -/
theorem toList_quote (s : String) :
    (quote s).toList = '"' :: (s.toList.flatMap escapeChar ++ ['"']) := by
  simp [quote]

/-- The string after its opening quote is read back, and its text with it. -/
theorem readString_quote (s : String) (cs : List Char) :
    ∃ r : Reading, readString {} (s.toList.flatMap escapeChar ++ '"' :: cs) = some (r, cs) ∧
      r.text? = some s :=
  ⟨_, readString_flatMap s.toList rfl cs, by simp [Reading.text?]⟩

/-! ## Values -/

/-- A value that a text can spell. -/
inductive Written : Json → Prop
  | null : Written .null
  | bool (b : Bool) : Written (.bool b)
  | number {n : NumberLiteral} (h : n.Written) : Written (.number n)
  | string (s : String) : Written (.string s)
  | array {items : List Json} (h : ∀ j ∈ items, Written j) : Written (.array items)
  | object {members : List (String × Json)} (h : ∀ m ∈ members, Written m.2) :
    Written (.object members)

/-- What is read from the text of a value, whatever comes after it. -/
def Reads (j : Json) : Prop := ∀ fuel cs, Ended cs → (render j).toList.length ≤ fuel →
  readValue (fuel + 1) ((render j).toList ++ cs) = some (j, cs)

theorem skip_cons {c : Char} {cs : List Char} (h : isSpace c = false) :
    skip (c :: cs) = c :: cs := by
  simp [skip, h]

/-- A digit is no blank and starts no other value than a number. -/
theorem ne_of_isDigit {d : Char} (h : d.isDigit) :
    isSpace d = false ∧ d ≠ 'n' ∧ d ≠ 't' ∧ d ≠ 'f' ∧ d ≠ '"' ∧ d ≠ '[' ∧ d ≠ ']' ∧
      d ≠ '\x7b' ∧ d ≠ '-' := by
  have ne : ∀ e : Char, e.isDigit = false → d ≠ e := by
    rintro e he rfl
    rw [h] at he
    cases he
  have space : isSpace d = false := by
    simp [isSpace, ne ' ' rfl, ne '\n' rfl, ne '\t' rfl, ne '\r' rfl]
  exact ⟨space, ne _ rfl, ne _ rfl, ne _ rfl, ne _ rfl, ne _ rfl, ne _ rfl, ne _ rfl, ne _ rfl⟩

/-- No text of a value starts with a blank or a closing bracket. -/
theorem exists_render_eq_cons (j : Json) :
    ∃ c cs, (render j).toList = c :: cs ∧ isSpace c = false ∧ c ≠ ']' := by
  cases j with
  | null => exact ⟨'n', _, rfl, by decide, by decide⟩
  | bool b =>
    cases b
    · exact ⟨'f', _, rfl, by decide, by decide⟩
    · exact ⟨'t', _, rfl, by decide, by decide⟩
  | number n =>
    rw [render, toList_numberText]
    cases n.negative with
    | true => exact ⟨'-', _, rfl, by decide, by decide⟩
    | false =>
      obtain ⟨d, ds, hd, hdigit⟩ := exists_toDigits_eq_cons n.whole
      have := ne_of_isDigit hdigit
      exact ⟨d, _, by rw [hd]; rfl, by simp_all⟩
  | string s => exact ⟨'"', _, toList_quote s, by decide, by decide⟩
  | textless => exact ⟨'"', _, toList_quote "", by decide, by decide⟩
  | array items => exact ⟨'[', _, by simp [render]; rfl, by decide, by decide⟩
  | object members => exact ⟨'\x7b', _, by simp [render]; rfl, by decide, by decide⟩

theorem reads_number {n : NumberLiteral} (hn : n.Written) : Reads (.number n) := by
  intro fuel cs hcs _
  have taken := readNumber_numberText hn hcs
  rw [render, toList_numberText]
  cases hneg : n.negative with
  | true =>
    rw [hneg] at taken
    simp only [if_true, List.cons_append, List.nil_append, readValue]
    rw [skip_cons (by decide)]
    simp [taken]
  | false =>
    obtain ⟨d, ds, hd, hdigit⟩ := exists_toDigits_eq_cons n.whole
    have := ne_of_isDigit hdigit
    rw [hneg, hd] at taken
    rw [hd]
    simp only [Bool.false_eq_true, if_false, List.nil_append, List.cons_append] at taken ⊢
    rw [readValue, skip_cons this.1]
    simp [this, taken]

theorem reads_string (s : String) : Reads (.string s) := by
  intro fuel cs _ _
  obtain ⟨r, hr, htext⟩ := readString_quote s cs
  rw [render, toList_quote]
  simp only [List.cons_append, List.append_assoc, List.nil_append, readValue]
  rw [skip_cons (by decide)]
  simp [hr, htext]

/-! ### Items and members -/

theorem toList_renderItems_cons (item next : Json) (items : List Json) :
    (renderItems (item :: next :: items)).toList =
      (render item).toList ++ ',' :: (renderItems (next :: items)).toList := by
  simp [renderItems]

/-- Items that are read one by one are read together, up to the closing bracket. -/
theorem readItems_renderItems {item : Json} {items : List Json}
    (h : ∀ j ∈ item :: items, Reads j) (fuel : ℕ) (cs : List Char)
    (hfuel : (renderItems (item :: items)).toList.length < fuel) :
    readItems (fuel + 1) ((renderItems (item :: items)).toList ++ ']' :: cs) =
      some (item :: items, cs) := by
  induction items generalizing item fuel with
  | nil =>
    obtain ⟨fuel, rfl⟩ := Nat.exists_eq_add_one_of_ne_zero (Nat.ne_zero_of_lt hfuel)
    rw [renderItems] at hfuel ⊢
    rw [readItems, h item List.mem_cons_self fuel _ (ended_cons (by simp)) (by omega)]
    simp [skip_cons (show isSpace ']' = false by decide)]
  | cons next items ih =>
    obtain ⟨fuel, rfl⟩ := Nat.exists_eq_add_one_of_ne_zero (Nat.ne_zero_of_lt hfuel)
    rw [toList_renderItems_cons] at hfuel ⊢
    simp only [List.length_append, List.length_cons] at hfuel
    have rest := ih (fun j hj => h j (List.mem_cons_of_mem item hj)) fuel (by omega)
    rw [List.append_assoc, List.cons_append, readItems,
      h item List.mem_cons_self fuel _ (ended_cons (by simp)) (by omega)]
    simp [skip_cons (show isSpace ',' = false by decide), rest]

theorem toList_renderMembers_singleton (m : String × Json) :
    (renderMembers [m]).toList = (quote m.1).toList ++ ':' :: (render m.2).toList := by
  simp [renderMembers]

theorem toList_renderMembers_cons (m next : String × Json) (members : List (String × Json)) :
    (renderMembers (m :: next :: members)).toList =
      (quote m.1).toList ++ ':' :: ((render m.2).toList ++
        ',' :: (renderMembers (next :: members)).toList) := by
  simp [renderMembers]

/-- What is read of members after the value of one. -/
def readOn (fuel : ℕ) (m : String × Json) :
    List Char → Option (List (Option String × Json) × List Char)
  | ',' :: rest =>
    (readMembers fuel rest).bind fun found => some ((some m.1, m.2) :: found.1, found.2)
  | '\x7d' :: rest => some ([(some m.1, m.2)], rest)
  | _ => none

/-- A name is read back, and its value after the colon. -/
theorem readMembers_quote {m : String × Json} (h : Reads m.2) {fuel : ℕ} {cs : List Char}
    (hcs : Ended cs) (hfuel : (render m.2).toList.length ≤ fuel) :
    readMembers (fuel + 2) ((quote m.1).toList ++ ':' :: ((render m.2).toList ++ cs)) =
      readOn (fuel + 1) m (skip cs) := by
  obtain ⟨r, hr, htext⟩ := readString_quote m.1 (':' :: ((render m.2).toList ++ cs))
  rw [toList_quote]
  simp only [List.cons_append, List.append_assoc, List.nil_append]
  rw [readMembers, skip_cons (by decide)]
  simp only [hr, htext, skip_cons (show isSpace ':' = false by decide), h fuel cs hcs hfuel,
    Option.bind_eq_bind, Option.bind_some, Option.pure_def]
  rfl

/-- Members whose values are read one by one are read together, up to the closing brace. -/
theorem readMembers_renderMembers {m : String × Json} {members : List (String × Json)}
    (h : ∀ e ∈ m :: members, Reads e.2) (fuel : ℕ) (cs : List Char)
    (hfuel : (renderMembers (m :: members)).toList.length < fuel) :
    readMembers (fuel + 1) ((renderMembers (m :: members)).toList ++ '\x7d' :: cs) =
      some ((m :: members).map fun e => (some e.1, e.2), cs) := by
  induction members generalizing m fuel with
  | nil =>
    obtain ⟨fuel, rfl⟩ := Nat.exists_eq_add_one_of_ne_zero (Nat.ne_zero_of_lt hfuel)
    rw [toList_renderMembers_singleton] at hfuel ⊢
    simp only [List.length_append, List.length_cons] at hfuel
    rw [List.append_assoc, List.cons_append,
      readMembers_quote (h m List.mem_cons_self) (ended_cons (by simp)) (by omega),
      skip_cons (by decide)]
    rfl
  | cons next members ih =>
    obtain ⟨fuel, rfl⟩ := Nat.exists_eq_add_one_of_ne_zero (Nat.ne_zero_of_lt hfuel)
    rw [toList_renderMembers_cons] at hfuel ⊢
    simp only [List.length_append, List.length_cons] at hfuel
    have rest := ih (fun e he => h e (List.mem_cons_of_mem m he)) fuel (by omega)
    rw [List.append_assoc, List.cons_append, List.append_assoc, List.cons_append,
      readMembers_quote (h m List.mem_cons_self) (ended_cons (by simp)) (by omega),
      skip_cons (by decide), readOn]
    simp [rest]

/-- Members that all have names with a text make an object. -/
theorem ofMembers_map (members : List (String × Json)) :
    ofMembers (members.map fun e => (some e.1, e.2)) = .object members := by
  have named : (members.map fun e => (some e.1, e.2)).mapM
      (fun m : Option String × Json => m.1.map fun name => (name, m.2)) = some members := by
    induction members with
    | nil => rfl
    | cons e members ih => simp [ih]
  rw [ofMembers, named]

/-- No text of items starts with a blank or a closing bracket. -/
theorem exists_renderItems_eq_cons (item : Json) (items : List Json) :
    ∃ c cs, (renderItems (item :: items)).toList = c :: cs ∧ isSpace c = false ∧ c ≠ ']' := by
  obtain ⟨c, cs, hc, hspace, hne⟩ := exists_render_eq_cons item
  cases items with
  | nil => exact ⟨c, cs, by rw [renderItems, hc], hspace, hne⟩
  | cons next items =>
    exact ⟨c, _, by rw [toList_renderItems_cons, hc, List.cons_append], hspace, hne⟩

/-- The text of members starts with a quote. -/
theorem exists_renderMembers_eq_cons (m : String × Json) (members : List (String × Json)) :
    ∃ cs, (renderMembers (m :: members)).toList = '"' :: cs := by
  cases members with
  | nil => exact ⟨_, by rw [toList_renderMembers_singleton, toList_quote, List.cons_append]⟩
  | cons next members =>
    exact ⟨_, by rw [toList_renderMembers_cons, toList_quote, List.cons_append]⟩

theorem reads_array {items : List Json} (h : ∀ j ∈ items, Reads j) : Reads (.array items) := by
  intro fuel cs _ hfuel
  cases items with
  | nil => rfl
  | cons item items =>
    have chars : (render (.array (item :: items))).toList =
        '[' :: ((renderItems (item :: items)).toList ++ [']']) := by simp [render]
    rw [chars] at hfuel ⊢
    simp only [List.length_cons, List.length_append, List.length_nil] at hfuel
    obtain ⟨fuel, rfl⟩ := Nat.exists_eq_add_one_of_ne_zero (show fuel ≠ 0 by omega)
    have found := readItems_renderItems h fuel cs (by omega)
    obtain ⟨c, rest, hc, hspace, hne⟩ := exists_renderItems_eq_cons item items
    rw [hc] at found ⊢
    simp only [List.cons_append, List.append_assoc, List.nil_append] at found ⊢
    rw [readValue, skip_cons (by decide)]
    simp [skip_cons hspace, hne, found]

theorem reads_object {members : List (String × Json)} (h : ∀ m ∈ members, Reads m.2) :
    Reads (.object members) := by
  intro fuel cs _ hfuel
  cases members with
  | nil => rfl
  | cons m members =>
    have chars : (render (.object (m :: members))).toList =
        '\x7b' :: ((renderMembers (m :: members)).toList ++ ['\x7d']) := by simp [render]
    rw [chars] at hfuel ⊢
    simp only [List.length_cons, List.length_append, List.length_nil] at hfuel
    obtain ⟨fuel, rfl⟩ := Nat.exists_eq_add_one_of_ne_zero (show fuel ≠ 0 by omega)
    have found := readMembers_renderMembers h fuel cs (by omega)
    obtain ⟨rest, hc⟩ := exists_renderMembers_eq_cons m members
    rw [hc] at found ⊢
    simp only [List.cons_append, List.append_assoc, List.nil_append] at found ⊢
    rw [readValue, skip_cons (by decide)]
    have made := ofMembers_map (m :: members)
    rw [List.map_cons] at found made
    simp [skip_cons (show isSpace '"' = false by decide), found, made]

/-- **A value is read back** up to where it ends, whatever comes after it. -/
theorem Written.reads {j : Json} (h : j.Written) : j.Reads := by
  induction h with
  | null => exact fun _ _ _ _ => rfl
  | bool b =>
    intro fuel cs _ _
    cases b <;> rfl
  | number hn => exact reads_number hn
  | string s => exact reads_string s
  | array _ ih => exact reads_array ih
  | object _ ih => exact reads_object ih

/-- **The text of a value spells that value.** -/
theorem Written.read?_render {j : Json} (h : j.Written) : read? (render j) = some j := by
  have value := h.reads (render j).toList.length [] ended_nil (Nat.le_refl _)
  rw [List.append_nil] at value
  simp only [read?, value]
  rfl

end Json

end QuantumLowering
