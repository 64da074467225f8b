import Mathlib
import Rulebook.Proofs.Json.Token

/-!
# Written words and numbers

Words and numbers scan back as the scalar that was written: an integer of any size, and every
binary64 number, also the infinite ones and the NaN.
-/

namespace Rulebook.Proofs
open Json Binary64

/-! ## What may follow a number -/

lemma ends_stop (c : Char) (rest : List Char) (h : Ends (c :: rest)) :
    c.isDigit = false ∧ c ≠ '.' ∧ c ≠ 'e' ∧ c ≠ 'E' := by
  rcases h c rfl with h | h
  · simp only [isSpace, decide_eq_true_eq] at h
    rcases h with rfl | rfl | rfl | rfl <;> decide
  · simp only [isMark, List.contains_eq_mem, List.mem_cons, List.not_mem_nil, or_false,
      decide_eq_true_eq] at h
    rcases h with rfl | rfl | rfl | rfl | rfl | rfl <;> decide

/-- A text that does not go on with a digit. -/
def StopsDigits (rest : List Char) : Prop := ∀ c, rest.head? = some c → c.isDigit = false

lemma stopsDigits_of_ends (rest : List Char) (h : Ends rest) : StopsDigits rest := by
  intro c hc
  cases rest with
  | nil => simp at hc
  | cons x more =>
    simp only [List.head?_cons, Option.some.injEq] at hc
    exact hc ▸ (ends_stop x more h).1

lemma stopsDigits_cons (c : Char) (rest : List Char) (h : c.isDigit = false) :
    StopsDigits (c :: rest) := by
  intro x hx
  simp only [List.head?_cons, Option.some.injEq] at hx
  exact hx ▸ h

lemma takeWhile_digits (ds rest : List Char) (hds : ∀ c ∈ ds, c.isDigit = true)
    (hrest : StopsDigits rest) : (ds ++ rest).takeWhile Char.isDigit = ds := by
  rw [List.takeWhile_append_of_pos hds]
  cases rest with
  | nil => simp
  | cons c more => simp [hrest c rfl]

/-! ## Numbers -/

lemma stopsDigits_exponentText (e : Option (Bool × List Char)) (rest : List Char)
    (h : Ends rest) : StopsDigits (WrittenDecimal.exponentText e ++ rest) := by
  cases e with
  | none => exact stopsDigits_of_ends rest h
  | some p => exact stopsDigits_cons _ _ (by decide)

lemma stopsDigits_fractionText (f : List Char) (e : Option (Bool × List Char)) (rest : List Char)
    (h : Ends rest) :
    StopsDigits (WrittenDecimal.fractionText f ++ (WrittenDecimal.exponentText e ++ rest)) := by
  unfold WrittenDecimal.fractionText
  split
  · exact stopsDigits_exponentText e rest h
  · exact stopsDigits_cons _ _ (by decide)

lemma wholeDigits_written (d : WrittenDecimal) (tail : List Char) (h : StopsDigits tail) :
    wholeDigits (d.whole ++ tail) = d.whole := by
  rcases d.whole_start with hz | ⟨c, rest, hc, hne⟩
  · rw [hz]
    rfl
  · have hall : wholeDigits (d.whole ++ tail) = (d.whole ++ tail).takeWhile Char.isDigit := by
      rw [hc, List.cons_append, wholeDigits.eq_2 _ (fun _ heq => hne (List.cons.inj heq).1)]
    rw [hall, takeWhile_digits _ _ d.whole_digits h]

lemma fractionDigits_written (d : WrittenDecimal) (rest : List Char) (h : Ends rest) :
    fractionDigits (WrittenDecimal.fractionText d.fraction ++
      (WrittenDecimal.exponentText d.exponent ++ rest)) = d.fraction := by
  unfold WrittenDecimal.fractionText
  by_cases hf : d.fraction = []
  · rw [hf]
    cases he : d.exponent with
    | none =>
      cases rest with
      | nil => rfl
      | cons c more =>
        have hstop := ends_stop c more h
        exact fractionDigits.eq_2 _ (fun _ heq => hstop.2.1 (List.cons.inj heq).1)
    | some p => rfl
  · rw [if_neg (by simpa using hf), List.cons_append, fractionDigits]
    exact takeWhile_digits _ _ d.fraction_digits (stopsDigits_exponentText _ rest h)

lemma exponentDigits_written (d : WrittenDecimal) (rest : List Char) (h : Ends rest) :
    exponentDigits (WrittenDecimal.exponentText d.exponent ++ rest) =
      (match d.exponent with
        | none => (false, [], 0)
        | some (negative, digits) => (negative, digits, 2 + digits.length)) := by
  cases he : d.exponent with
  | none =>
    cases rest with
    | nil => rfl
    | cons c more =>
      obtain ⟨-, -, h1, h2⟩ := ends_stop c more h
      simp [WrittenDecimal.exponentText, exponentDigits, h1, h2]
  | some p =>
    obtain ⟨negative, digits⟩ := p
    obtain ⟨hne, hdigits⟩ := d.exponent_digits negative digits he
    have htake := takeWhile_digits digits rest hdigits (stopsDigits_of_ends rest h)
    cases negative <;> simp [WrittenDecimal.exponentText, exponentDigits, htake, hne]

/-- What an unsigned number in text is read as. -/
def writtenValue (negative : Bool) (d : WrittenDecimal) : Value :=
  if d.fraction = [] ∧ d.exponent = none then
    .int (if negative then -(d.digits : Int) else d.digits)
  else .float (ofDecimal negative d.digits d.power)

lemma magnitude?_written (negative : Bool) (d : WrittenDecimal) (rest : List Char) (h : Ends rest) :
    Json.magnitude? negative (d.text ++ rest) = some (writtenValue negative d, d.text.length) := by
  have hwhole := wholeDigits_written d _ (stopsDigits_fractionText d.fraction d.exponent rest h)
  have hfraction := fractionDigits_written d rest h
  have hexponent := exponentDigits_written d rest h
  have hne : d.whole ≠ [] := by
    rcases d.whole_start with hz | ⟨c, more, hc, -⟩
    · simp [hz]
    · simp [hc]
  have hdrop : (WrittenDecimal.fractionText d.fraction ++
      (WrittenDecimal.exponentText d.exponent ++ rest)).drop
        (if d.fraction.isEmpty then 0 else d.fraction.length + 1) =
      WrittenDecimal.exponentText d.exponent ++ rest := by
    unfold WrittenDecimal.fractionText
    split
    · rfl
    · exact List.drop_left' rfl
  unfold WrittenDecimal.text Json.magnitude?
  simp only [List.append_assoc, hwhole, List.drop_left', hfraction, hdrop, hexponent]
  cases he : d.exponent with
  | none =>
    by_cases hf : d.fraction = []
    · simp [hne, hf, he, writtenValue, WrittenDecimal.digits, WrittenDecimal.fractionText,
        WrittenDecimal.exponentText]
    · simp [hne, hf, he, writtenValue, WrittenDecimal.digits, WrittenDecimal.power,
        WrittenDecimal.fractionText, WrittenDecimal.exponentText]
  | some p =>
    obtain ⟨sign, digits⟩ := p
    obtain ⟨hdne, -⟩ := d.exponent_digits sign digits he
    by_cases hf : d.fraction = [] <;> cases sign <;>
      simp [hne, hf, he, hdne, writtenValue, WrittenDecimal.digits, WrittenDecimal.power,
        WrittenDecimal.fractionText, WrittenDecimal.exponentText] <;> omega

lemma text_start (d : WrittenDecimal) :
    ∃ c cs, d.text = c :: cs ∧ c.isDigit = true := by
  have hall := d.whole_digits
  unfold WrittenDecimal.text
  rcases d.whole_start with hz | ⟨c, more, hc, -⟩
  · exact ⟨'0', _, by rw [hz]; rfl, by decide⟩
  · exact ⟨c, _, by rw [hc]; rfl, hall c (by rw [hc]; exact List.mem_cons_self)⟩

lemma isDigit_ne (c d : Char) (h : c.isDigit = true) (hd : d.isDigit = false) : c ≠ d := by
  rintro rfl
  rw [h] at hd
  exact absurd hd (by decide)

/-- The text of a signed number. -/
def signedText (negative : Bool) (cs : List Char) : List Char := if negative then '-' :: cs else cs

lemma word?_of_digit (c : Char) (cs : List Char) (h : c.isDigit = true) :
    word? (c :: cs) = none ∧ word? ('-' :: c :: cs) = none := by
  have hne := isDigit_ne c
  have hN := hne 'N' h (by decide)
  have hI := hne 'I' h (by decide)
  have hn := hne 'n' h (by decide)
  have ht := hne 't' h (by decide)
  have hf := hne 'f' h (by decide)
  have hm := hne '-' h (by decide)
  constructor
  · simp [word?, words, List.isPrefixOf, hN.symm, hI.symm, hn.symm, ht.symm, hf.symm, hm.symm]
  · simp [word?, words, List.isPrefixOf, hI.symm]

lemma number?_written (negative : Bool) (d : WrittenDecimal) (rest : List Char) (h : Ends rest) :
    number? (signedText negative d.text ++ rest) =
      some (writtenValue negative d, (signedText negative d.text).length) := by
  have hm := magnitude?_written negative d rest h
  cases negative with
  | true =>
    simp only [signedText, if_true, List.cons_append, number?, hm, Option.map_some,
      List.length_cons]
  | false =>
    obtain ⟨c, cs, hc, hdigit⟩ := text_start d
    have hne := isDigit_ne c '-' hdigit (by decide)
    simp only [signedText, Bool.false_eq_true, if_false]
    rw [hc, List.cons_append, number?.eq_2 _ (fun _ heq => hne (List.cons.inj heq).1),
      ← List.cons_append, ← hc]
    exact hm

lemma lexes_number (negative : Bool) (d : WrittenDecimal) :
    Lexes (signedText negative d.text) (.scalar (writtenValue negative d)) := by
  obtain ⟨c, cs, hc, hdigit⟩ := text_start d
  have hword := word?_of_digit c
  obtain ⟨x, xs, hx, hmark, hspace, hquote, hnone⟩ : ∃ x xs, signedText negative d.text = x :: xs ∧
      isMark x = false ∧ isSpace x = false ∧ x ≠ '"' ∧ ∀ rest, word? (x :: xs ++ rest) = none := by
    cases negative with
    | true =>
      refine ⟨'-', c :: cs, by simp [signedText, hc], by decide, by decide, by decide, fun rest => ?_⟩
      exact (hword (cs ++ rest) hdigit).2
    | false =>
      refine ⟨c, cs, by simp [signedText, hc], ?_, ?_, isDigit_ne c _ hdigit (by decide),
        fun rest => (hword (cs ++ rest) hdigit).1⟩
      · simp [isMark, isDigit_ne c _ hdigit]
      · simp [isSpace, isDigit_ne c _ hdigit]
  rw [hx]
  apply lexes_of_token _ _ _ hspace
  intro offset rest hrest
  have hnumber := number?_written negative d rest hrest
  rw [hx] at hnumber
  unfold token
  rw [if_neg (by simp [hmark]), if_neg hquote, ← List.cons_append, hnone, hnumber]
  rfl

lemma lexes_integerText (n : Int) : Lexes (integerText n) (.scalar (.int n)) := by
  have h := lexes_number (decide (n < 0)) (.ofNat n.natAbs)
  have htext : signedText (decide (n < 0)) (WrittenDecimal.ofNat n.natAbs).text = integerText n := by
    unfold signedText integerText
    simp [WrittenDecimal.text, WrittenDecimal.ofNat, WrittenDecimal.fractionText,
      WrittenDecimal.exponentText]
  have hvalue : writtenValue (decide (n < 0)) (WrittenDecimal.ofNat n.natAbs) = .int n := by
    simp only [writtenValue, WrittenDecimal.ofNat, WrittenDecimal.digits, and_self, if_true,
      List.append_nil, Nat.ofDigitChars_ten_toDigits, decide_eq_true_eq, Value.int.injEq]
    split <;> omega
  rwa [htext, hvalue] at h

/-! ## Limits on digits -/

/-- An integer has no more digits than a text may have for it. -/
def IsShort (limit : Option Nat) (n : Int) : Prop :=
  ∀ digits, limit = some digits → n.natAbs < 10 ^ digits

lemma exceeded?_eq_none_iff (limit : Option Nat) (n : Int) :
    exceeded? limit n = none ↔ IsShort limit n := by
  unfold exceeded? IsShort
  rw [Option.filter_eq_none_iff]
  simp only [decide_eq_true_eq, Nat.not_le, Nat.pow_eq]

lemma isShort_none (n : Int) : IsShort none n := by
  rintro _ ⟨⟩

lemma isShort_of_lt {digits : Nat} {n : Int} (count : Nat) (h : n.natAbs < 10 ^ count)
    (hcount : count ≤ digits) : IsShort (some digits) n := by
  rintro _ ⟨⟩
  exact h.trans_le (Nat.pow_le_pow_right (by decide) hcount)

lemma not_isShort_pow {digits : Nat} (count : Nat) (hcount : digits ≤ count) :
    ¬IsShort (some digits) (10 ^ count) := by
  intro h
  have hlt := h digits rfl
  have hten : (10 : Int).natAbs = 10 := rfl
  rw [Int.natAbs_pow, hten] at hlt
  exact absurd hlt (Nat.not_lt.mpr (Nat.pow_le_pow_right (by decide) hcount))

lemma limitedText_ok (limit : Option Nat) (n : Int) (text : List Char) :
    limitedText limit n = .ok text ↔ IsShort limit n ∧ text = integerText n := by
  rw [← exceeded?_eq_none_iff]
  unfold limitedText
  cases exceeded? limit n with
  | none => exact ⟨fun h => ⟨rfl, (Except.ok.inj h).symm⟩, fun h => congrArg Except.ok h.2.symm⟩
  | some digits => exact ⟨nofun, nofun⟩

/-! ## Words -/

lemma words_eq : words =
    [(['n', 'u', 'l', 'l'], .null), (['t', 'r', 'u', 'e'], .bool true),
      (['f', 'a', 'l', 's', 'e'], .bool false), (['N', 'a', 'N'], .float .nan),
      (['I', 'n', 'f', 'i', 'n', 'i', 't', 'y'], .float (.infinite false)),
      (['-', 'I', 'n', 'f', 'i', 'n', 'i', 't', 'y'], .float (.infinite true))] := by
  simp [words]

lemma lexes_word : ∀ p ∈ words, Lexes p.1 (.scalar p.2) := by
  intro p hp
  simp only [words_eq, List.mem_cons, List.not_mem_nil, or_false] at hp
  rcases hp with rfl | rfl | rfl | rfl | rfl | rfl <;>
    exact lexes_of_token _ _ _ (by decide) (fun offset rest _ => by
      simp [token, isMark, word?, words_eq, List.isPrefixOf])

lemma lexes_floatText (x : Binary64) : Lexes (floatText x) (.scalar (.float x)) := by
  cases x with
  | nan => exact lexes_word ("NaN".toList, .float .nan) (by simp [words])
  | infinite negative =>
    cases negative with
    | true => exact lexes_word ("-Infinity".toList, .float (.infinite true)) (by simp [words])
    | false => exact lexes_word ("Infinity".toList, .float (.infinite false)) (by simp [words])
  | finite negative rank =>
    obtain ⟨d, htext, hint, hreads⟩ := magnitudeText_written rank.val rank.isLt
    have h := lexes_number negative d
    have hvalue : writtenValue negative d = .float (.finite negative rank) := by
      unfold writtenValue
      unfold WrittenDecimal.isInteger at hint
      rw [if_neg hint, hreads negative, ofRank, dif_pos rank.isLt]
    have htext' : signedText negative d.text = floatText (.finite negative rank) := by
      unfold signedText floatText Binary64.text
      rw [htext]
      cases negative <;> rfl
    rwa [hvalue, htext'] at h

end Rulebook.Proofs
