import Mathlib
import Rulebook.Number.Numeral
import Rulebook.Proofs.Number.Decimal

/-!
# Written decimals

A number in text is made of whole digits, the digits of a fraction and an exponent. The texts of
integers and of finite binary64 numbers have this form, and the digits of the latter read back.
-/

namespace Rulebook.Proofs
open Binary64

/-- The digits of a number in text. The whole part is a zero alone or starts with no zero, and an
exponent has a sign, which is true for minus, and at least one digit. -/
structure WrittenDecimal where
  whole : List Char
  fraction : List Char
  exponent : Option (Bool × List Char)
  whole_digits : ∀ c ∈ whole, c.isDigit = true
  whole_start : whole = ['0'] ∨ ∃ c rest, whole = c :: rest ∧ c ≠ '0'
  fraction_digits : ∀ c ∈ fraction, c.isDigit = true
  exponent_digits : ∀ sign digits, exponent = some (sign, digits) →
    digits ≠ [] ∧ ∀ c ∈ digits, c.isDigit = true

namespace WrittenDecimal

/-- A fraction with its point. -/
def fractionText (fraction : List Char) : List Char :=
  if fraction.isEmpty then [] else '.' :: fraction

/-- An exponent with its letter and sign. -/
def exponentText : Option (Bool × List Char) → List Char
  | none => []
  | some (negative, digits) => 'e' :: (if negative then '-' else '+') :: digits

def text (d : WrittenDecimal) : List Char :=
  d.whole ++ fractionText d.fraction ++ exponentText d.exponent

/-- The number that all digits make without the point. -/
def digits (d : WrittenDecimal) : Nat := Nat.ofDigitChars 10 (d.whole ++ d.fraction) 0

/-- The power of ten by which the digits count. -/
def power (d : WrittenDecimal) : Int :=
  (match d.exponent with
    | none => 0
    | some (true, digits) => -(Nat.ofDigitChars 10 digits 0 : Int)
    | some (false, digits) => (Nat.ofDigitChars 10 digits 0 : Int)) - d.fraction.length

def isInteger (d : WrittenDecimal) : Prop := d.fraction = [] ∧ d.exponent = none

end WrittenDecimal

lemma toDigits_start (n : Nat) (hn : 0 < n) :
    ∃ c rest, Nat.toDigits 10 n = c :: rest ∧ c ≠ '0' := by
  induction n using Nat.strong_induction_on with
  | _ n ih =>
    by_cases h : n < 10
    · refine ⟨n.digitChar, [], Nat.toDigits_of_lt_base h, ?_⟩
      rw [ne_eq, Nat.digitChar_eq_zero]
      omega
    · obtain ⟨c, rest, hc, hne⟩ := ih (n / 10) (by omega) (by omega)
      refine ⟨c, rest ++ [(n % 10).digitChar], ?_, hne⟩
      rw [Nat.toDigits_of_base_le (by omega) (by omega), hc]
      rfl

lemma isDigit_of_mem_toDigits_ten (n : Nat) : ∀ c ∈ Nat.toDigits 10 n, c.isDigit = true :=
  fun _ h => Nat.isDigit_of_mem_toDigits (by omega) (by omega) h

/-- The decimal of a natural number. -/
def WrittenDecimal.ofNat (n : Nat) : WrittenDecimal where
  whole := Nat.toDigits 10 n
  fraction := []
  exponent := none
  whole_digits := isDigit_of_mem_toDigits_ten n
  whole_start := by
    rcases Nat.eq_zero_or_pos n with rfl | h
    · exact .inl (Nat.toDigits_zero 10)
    · exact .inr (toDigits_start n h)
  fraction_digits := by simp
  exponent_digits := by simp

/-- Zeros at the end of a text, apart from what stands before them. -/
lemma eq_append_zeros (cs : List Char) :
    ∃ z, cs = (cs.reverse.dropWhile (· == '0')).reverse ++ List.replicate z '0' := by
  refine ⟨(cs.reverse.takeWhile (· == '0')).length, ?_⟩
  have hzeros : cs.reverse.takeWhile (· == '0') =
      List.replicate (cs.reverse.takeWhile (· == '0')).length '0' := by
    rw [List.eq_replicate_iff]
    refine ⟨rfl, fun c hc => ?_⟩
    simpa using List.mem_takeWhile_imp hc
  have hsplit := congrArg List.reverse
    (List.takeWhile_append_dropWhile (p := (· == '0')) (l := cs.reverse))
  rw [List.reverse_append, List.reverse_reverse, hzeros, List.reverse_replicate] at hsplit
  exact hsplit.symm

/-- What the digits of a magnitude are once the zeros at their end are cut. -/
structure CutDigits (rank : Nat) (digits : List Char) (point : Int) : Prop where
  isDigit : ∀ c ∈ digits, c.isDigit = true
  start : (∃ c rest, digits = c :: rest ∧ c ≠ '0') ∨ (digits = ['0'] ∧ point = 1)
  reads : ∀ negative, ofDecimal negative (Nat.ofDigitChars 10 digits 0) (point - digits.length) =
    ofRank negative rank

lemma ofDecimal_shortest_signed (negative : Bool) (rank : Nat) (hr : rank < finiteMagnitudes) :
    ofDecimal negative (shortest rank).1 (shortest rank).2 = ofRank negative rank := by
  have h := ofDecimal_shortest rank hr
  cases negative with
  | false => exact h
  | true =>
    rw [ofDecimal_neg, h]
    unfold ofRank
    split <;> rfl

/-- Zeros cut from the end of the digits count as powers of ten. -/
lemma cutDigits_of_pos (rank : Nat) (hr : rank < finiteMagnitudes) (hpos : 0 < (shortest rank).1) :
    let all := Nat.toDigits 10 (shortest rank).1
    CutDigits rank (all.reverse.dropWhile (· == '0')).reverse (all.length + (shortest rank).2) := by
  dsimp only
  obtain ⟨z, hall⟩ := eq_append_zeros (Nat.toDigits 10 (shortest rank).1)
  obtain ⟨c, rest, hc, hne⟩ := toDigits_start _ hpos
  generalize (List.dropWhile _ (Nat.toDigits 10 (shortest rank).1).reverse).reverse = cut at hall ⊢
  refine ⟨fun c hmem => ?_, .inl ?_, fun negative => ?_⟩
  · apply isDigit_of_mem_toDigits_ten (shortest rank).1
    rw [hall]
    exact List.mem_append_left _ hmem
  · cases cut with
    | nil =>
      rw [hc, List.nil_append] at hall
      have hmem : c ∈ List.replicate z '0' := hall ▸ List.mem_cons_self
      exact absurd (List.eq_of_mem_replicate hmem) hne
    | cons d more =>
      refine ⟨d, more, rfl, ?_⟩
      rw [hc, List.cons_append] at hall
      rw [← (List.cons.inj hall).1]
      exact hne
  · have hvalue : Nat.ofDigitChars 10 cut 0 * 10 ^ z = (shortest rank).1 := by
      rw [← Nat.ofDigitChars_ten_toDigits (n := (shortest rank).1), hall,
        Nat.ofDigitChars_append, Nat.ofDigitChars_replicate_zero, Nat.mul_comm]
    have hlen : (Nat.toDigits 10 (shortest rank).1).length = cut.length + z := by
      rw [hall, List.length_append, List.length_replicate]
    rw [hlen, ← ofDecimal_shortest_signed negative rank hr, ← hvalue, ofDecimal_mul_pow]
    congr 1
    push_cast
    ring

lemma cutDigits_shortest (rank : Nat) (hr : rank < finiteMagnitudes) :
    let all := Nat.toDigits 10 (shortest rank).1
    let digits := if (shortest rank).1 = 0 then all
      else (all.reverse.dropWhile (· == '0')).reverse
    CutDigits rank digits (all.length + (shortest rank).2) := by
  dsimp only
  by_cases hz : rank = 0
  · subst hz
    have hshort : shortest 0 = (0, 0) := rfl
    rw [hshort]
    simp only [Nat.toDigits_zero, if_true]
    refine ⟨by simp, .inr ⟨rfl, rfl⟩, fun negative => ?_⟩
    rw [← ofDecimal_shortest_signed negative 0 hr, hshort]
    simp [Nat.ofDigitChars_cons]
  · have hpos := shortest_pos rank (Nat.pos_of_ne_zero hz) hr
    rw [if_neg hpos.ne']
    exact cutDigits_of_pos rank hr hpos

lemma isDigit_of_mem_zeros (k : Nat) : ∀ c ∈ List.replicate k '0', c.isDigit = true := by
  intro c hc
  rw [List.eq_of_mem_replicate hc]
  rfl

/-- Digits on both sides of a point. -/
lemma pointed_written (whole fraction : List Char) (hwhole : ∀ c ∈ whole, c.isDigit = true)
    (hstart : whole = ['0'] ∨ ∃ c rest, whole = c :: rest ∧ c ≠ '0')
    (hfraction : ∀ c ∈ fraction, c.isDigit = true) (hne : fraction ≠ []) :
    ∃ d : WrittenDecimal, d.text = whole ++ '.' :: fraction ∧ ¬d.isInteger ∧
      d.digits = Nat.ofDigitChars 10 (whole ++ fraction) 0 ∧ d.power = -fraction.length := by
  refine ⟨⟨whole, fraction, none, hwhole, hstart, hfraction, by simp⟩, ?_, ?_, rfl, ?_⟩
  · simp [WrittenDecimal.text, WrittenDecimal.fractionText, WrittenDecimal.exponentText, hne]
  · simp [WrittenDecimal.isInteger, hne]
  · simp [WrittenDecimal.power]

/-- One lemma on pointed digits serves all three places that the point can have. -/
lemma positional_written (digits : List Char) (point : Int)
    (hdigits : ∀ c ∈ digits, c.isDigit = true)
    (hstart : (∃ c rest, digits = c :: rest ∧ c ≠ '0') ∨ (digits = ['0'] ∧ point = 1)) :
    ∃ d : WrittenDecimal, d.text = positional digits point ∧ ¬d.isInteger ∧
      ∀ negative, ofDecimal negative d.digits d.power =
        ofDecimal negative (Nat.ofDigitChars 10 digits 0) (point - digits.length) := by
  have hne : digits ≠ [] := by
    rcases hstart with ⟨c, rest, rfl, -⟩ | ⟨rfl, -⟩ <;> simp
  unfold positional
  by_cases hp : point ≤ 0
  · rw [if_pos hp]
    obtain ⟨d, htext, hint, hd, hpower⟩ := pointed_written ['0']
      (List.replicate (-point).toNat '0' ++ digits) (by simp) (.inl rfl)
      (List.forall_mem_append.mpr ⟨isDigit_of_mem_zeros _, hdigits⟩) (by simp [hne])
    refine ⟨d, htext, hint, fun negative => ?_⟩
    have hvalue : Nat.ofDigitChars 10 (['0'] ++ (List.replicate (-point).toNat '0' ++ digits)) 0 =
        Nat.ofDigitChars 10 digits 0 := by
      simp [Nat.ofDigitChars_cons, Nat.ofDigitChars_append]
    rw [hd, hpower, hvalue, List.length_append, List.length_replicate]
    congr 1
    omega
  · rw [if_neg hp]
    by_cases hlen : digits.length ≤ point.toNat
    · rw [if_pos hlen]
      have hwhole : digits ++ List.replicate (point.toNat - digits.length) '0' = ['0'] ∨
          ∃ c rest, digits ++ List.replicate (point.toNat - digits.length) '0' = c :: rest ∧
            c ≠ '0' := by
        rcases hstart with ⟨c, rest, rfl, hc⟩ | ⟨rfl, rfl⟩
        · exact .inr ⟨c, _, rfl, hc⟩
        · exact .inl rfl
      obtain ⟨d, htext, hint, hd, hpower⟩ := pointed_written _ ['0']
        (List.forall_mem_append.mpr ⟨hdigits, isDigit_of_mem_zeros _⟩) hwhole (by simp) (by simp)
      refine ⟨d, htext, hint, fun negative => ?_⟩
      have hvalue : Nat.ofDigitChars 10
          (digits ++ List.replicate (point.toNat - digits.length) '0' ++ ['0']) 0 =
          Nat.ofDigitChars 10 digits 0 * 10 ^ (point.toNat - digits.length + 1) := by
        rw [List.append_assoc, ← List.replicate_succ', Nat.ofDigitChars_append,
          Nat.ofDigitChars_replicate_zero, Nat.mul_comm]
      rw [hd, hpower, hvalue, ofDecimal_mul_pow, List.length_singleton]
      congr 1
      omega
    · rw [if_neg hlen]
      have hwhole : digits.take point.toNat = ['0'] ∨
          ∃ c rest, digits.take point.toNat = c :: rest ∧ c ≠ '0' := by
        rcases hstart with ⟨c, rest, rfl, hc⟩ | ⟨rfl, rfl⟩
        · obtain ⟨k, hk⟩ := Nat.exists_eq_add_of_lt (show 0 < point.toNat by omega)
          rw [hk]
          exact .inr ⟨c, _, rfl, hc⟩
        · exact .inl rfl
      have hdrop : digits.drop point.toNat ≠ [] := by
        rw [ne_eq, List.drop_eq_nil_iff]
        exact hlen
      obtain ⟨d, htext, hint, hd, hpower⟩ := pointed_written _ _
        (fun c hc => hdigits c (List.mem_of_mem_take hc)) hwhole
        (fun c hc => hdigits c (List.mem_of_mem_drop hc)) hdrop
      refine ⟨d, htext, hint, fun negative => ?_⟩
      rw [hd, hpower, List.take_append_drop, List.length_drop]
      congr 1
      omega

lemma exponential_written (digits : List Char) (exponent : Int)
    (hdigits : ∀ c ∈ digits, c.isDigit = true)
    (hstart : (∃ c rest, digits = c :: rest ∧ c ≠ '0') ∨ digits = ['0']) :
    ∃ d : WrittenDecimal, d.text = exponential digits exponent ∧ ¬d.isInteger ∧
      d.digits = Nat.ofDigitChars 10 digits 0 ∧ d.power = exponent + 1 - digits.length := by
  obtain ⟨c, rest, rfl, hc⟩ : ∃ c rest, digits = c :: rest ∧ (c ≠ '0' ∨ rest = []) := by
    rcases hstart with ⟨c, rest, rfl, hc⟩ | rfl
    · exact ⟨c, rest, rfl, .inl hc⟩
    · exact ⟨'0', [], rfl, .inr rfl⟩
  let power := Nat.toDigits 10 exponent.natAbs
  have hpower : Nat.ofDigitChars 10 (List.replicate (2 - power.length) '0' ++ power) 0 =
      exponent.natAbs := by
    rw [Nat.ofDigitChars_append, Nat.ofDigitChars_replicate_zero, Nat.mul_zero,
      Nat.ofDigitChars_ten_toDigits]
  refine ⟨⟨[c], rest, some (decide (exponent < 0),
    List.replicate (2 - power.length) '0' ++ power), ?_, ?_, ?_, ?_⟩, ?_, ?_, ?_, ?_⟩
  · exact fun x hx => hdigits x (List.mem_cons.mpr (.inl (List.mem_singleton.mp hx)))
  · rcases hc with hc | rfl
    · exact .inr ⟨c, [], rfl, hc⟩
    · by_cases h0 : c = '0'
      · exact .inl (by rw [h0])
      · exact .inr ⟨c, [], rfl, h0⟩
  · exact fun x hx => hdigits x (List.mem_cons_of_mem _ hx)
  · intro sign ds hds
    obtain ⟨-, rfl⟩ := Prod.mk.inj (Option.some.inj hds)
    refine ⟨?_, fun x hx => ?_⟩
    · simp [power, Nat.toDigits_ne_nil]
    · rcases List.mem_append.mp hx with hx | hx
      · exact isDigit_of_mem_zeros _ x hx
      · exact isDigit_of_mem_toDigits_ten _ x hx
  · unfold exponential WrittenDecimal.text WrittenDecimal.exponentText WrittenDecimal.fractionText
    cases rest <;> simp [power]
  · simp [WrittenDecimal.isInteger]
  · rfl
  · simp only [WrittenDecimal.power, List.length_cons]
    by_cases hneg : exponent < 0
    · simp only [hneg, decide_true, hpower]
      omega
    · simp only [hneg, decide_false, hpower]
      omega

/-- The text of a magnitude is a written decimal that is no integer and reads as that magnitude. -/
theorem magnitudeText_written (rank : Nat) (hr : rank < finiteMagnitudes) :
    ∃ d : WrittenDecimal, d.text = magnitudeText rank ∧ ¬d.isInteger ∧
      ∀ negative, ofDecimal negative d.digits d.power = ofRank negative rank := by
  have hcut := cutDigits_shortest rank hr
  unfold magnitudeText
  dsimp only at hcut ⊢
  generalize (if (shortest rank).1 = 0 then _ else _ : List Char) = digits at hcut ⊢
  generalize ((Nat.toDigits 10 (shortest rank).1).length : Int) + (shortest rank).2 = point
    at hcut ⊢
  split
  · obtain ⟨d, htext, hint, hvalue⟩ := positional_written digits point hcut.isDigit hcut.start
    exact ⟨d, htext, hint, fun negative => (hvalue negative).trans (hcut.reads negative)⟩
  · obtain ⟨d, htext, hint, hd, hp⟩ := exponential_written digits (point - 1) hcut.isDigit
      (hcut.start.imp_right And.left)
    refine ⟨d, htext, hint, fun negative => ?_⟩
    rw [hd, hp, show point - 1 + 1 - (digits.length : Int) = point - digits.length by ring]
    exact hcut.reads negative

end Rulebook.Proofs
