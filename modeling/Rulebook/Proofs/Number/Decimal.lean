import Mathlib
import Rulebook.Number.Decimal
import Rulebook.Proofs.Number.Rounding

/-!
# Decimal digits of a binary64 number

Reading `digits * 10 ^ exponent` does not depend on where the decimal point stands, and the digits
that `shortest` finds for a magnitude read as that magnitude.
-/

namespace Rulebook.Proofs
open Binary64

lemma digitCount_pos (n : Nat) : 0 < digitCount n := Nat.length_toDigits_pos

lemma digitCount_le_iff (n k : Nat) (hk : 0 < k) : digitCount n ≤ k ↔ n < 10 ^ k :=
  Nat.length_toDigits_le_iff (by omega) hk

lemma digitCount_mul_pow (n k : Nat) (hn : 0 < n) : digitCount (n * 10 ^ k) = digitCount n + k := by
  induction k with
  | zero => simp
  | succ k ih =>
    have hpos : 0 < n * 10 ^ k := by positivity
    have h := Nat.toDigits_append_toDigits (b := 10) (n := n * 10 ^ k) (d := 0) (by omega) hpos
      (by omega)
    have hlen := congrArg List.length h
    rw [List.length_append, Nat.toDigits_zero] at hlen
    have he : n * 10 ^ (k + 1) = 10 * (n * 10 ^ k) + 0 := by ring
    unfold digitCount at ih ⊢
    rw [he, ← hlen, ih]
    simp only [List.length_cons, List.length_nil]
    omega

lemma tenShifted_den_pos (num den : Nat) (e : Int) (hd : 0 < den) :
    0 < (tenShifted num den e).2 := by
  unfold tenShifted
  split
  · exact Nat.mul_pos hd (Nat.pow_pos (by omega))
  · exact hd

/-- Shifting divides the quotient by a power of ten. -/
lemma tenShifted_quotient (num den : Nat) (e : Int) :
    ((tenShifted num den e).1 : ℚ) / (tenShifted num den e).2 = num / den / 10 ^ e := by
  unfold tenShifted
  by_cases he : 0 ≤ e
  · obtain ⟨k, rfl⟩ := Int.eq_ofNat_of_zero_le he
    simp [div_div]
  · obtain ⟨k, hk⟩ := Int.eq_ofNat_of_zero_le (show 0 ≤ -e by omega)
    rw [if_neg he, hk, show e = -(k : Int) by omega]
    simp only [Int.toNat_natCast, Nat.pow_eq, Nat.cast_mul, Nat.cast_pow, Nat.cast_ofNat, zpow_neg,
      zpow_natCast, div_inv_eq_mul]
    ring

/-- The quotient of two written numbers decides what they round to. -/
lemma ofRatio_congr_quotient (negative : Bool) (a b c d : Nat) (hb : 0 < b) (hd : 0 < d)
    (h : (a : ℚ) / b = c / d) : ofRatio negative a b = ofRatio negative c d := by
  apply ofRatio_congr negative a b c d hb hd
  rw [div_eq_div_iff (by positivity) (by positivity)] at h
  exact_mod_cast h

/-- Zeros at the end of the digits count as powers of ten. -/
theorem ofDecimal_mul_pow (negative : Bool) (n k : Nat) (e : Int) :
    ofDecimal negative (n * 10 ^ k) e = ofDecimal negative n (e + k) := by
  unfold ofDecimal
  dsimp only
  by_cases hn : n = 0
  · simp [hn]
  · have hn' : 0 < n := Nat.pos_of_ne_zero hn
    have hnk : n * 10 ^ k ≠ 0 := by positivity
    have horder : ((digitCount (n * 10 ^ k) : Nat) : Int) + e = digitCount n + (e + k) := by
      rw [digitCount_mul_pow n k hn']
      push_cast
      ring
    have hratio := ofRatio_congr_quotient negative
      (tenShifted (n * 10 ^ k) 1 (-e)).1 (tenShifted (n * 10 ^ k) 1 (-e)).2
      (tenShifted n 1 (-(e + k))).1 (tenShifted n 1 (-(e + k))).2
      (tenShifted_den_pos _ _ _ (by omega)) (tenShifted_den_pos _ _ _ (by omega)) (by
        rw [tenShifted_quotient, tenShifted_quotient, zpow_neg, zpow_neg, div_inv_eq_mul,
          div_inv_eq_mul, zpow_add₀ (by norm_num), zpow_natCast]
        push_cast
        ring)
    simp only [horder, hn, hnk, false_or, hratio]

lemma ofDecimal_neg (n : Nat) (e : Int) : ofDecimal true n e = (ofDecimal false n e).neg := by
  unfold ofDecimal
  dsimp only
  split
  · rfl
  · split
    · rfl
    · exact ofRatio_neg _ _

lemma significand_lt (rank : Nat) : significand rank < 2 ^ 53 := by
  unfold significand binade
  split <;> omega

lemma le_scale (rank : Nat) : -1074 ≤ scale rank := by
  unfold scale
  omega

lemma scale_le (rank : Nat) (h : rank < finiteMagnitudes) : scale rank ≤ 971 := by
  have hdiv : rank / binade < 2047 := by
    apply Nat.div_lt_of_lt_mul
    rw [Nat.mul_comm]
    exact h
  unfold scale
  omega

/-- The exact digits of a magnitude, as a rational number. -/
lemma exactDecimal_value (rank : Nat) :
    ((exactDecimal rank).1 : ℚ) * 10 ^ (exactDecimal rank).2 = significand rank * 2 ^ scale rank := by
  unfold exactDecimal
  dsimp only
  by_cases hs : 0 ≤ scale rank
  · obtain ⟨k, hk⟩ := Int.eq_ofNat_of_zero_le hs
    simp [hk]
  · obtain ⟨k, hk⟩ := Int.eq_ofNat_of_zero_le (show 0 ≤ -scale rank by omega)
    rw [if_neg hs]
    dsimp only
    rw [hk, show scale rank = -(k : Int) by omega]
    have h10 : (10 : ℚ) ^ k = 2 ^ k * 5 ^ k := by rw [← mul_pow]; norm_num
    simp only [Int.toNat_natCast, Nat.pow_eq, Nat.cast_mul, Nat.cast_pow, Nat.cast_ofNat, zpow_neg,
      zpow_natCast, h10]
    field_simp

lemma exactDecimal_pos (rank : Nat) (h : 0 < rank) : 0 < (exactDecimal rank).1 := by
  have hs := significand_pos rank h
  unfold exactDecimal
  dsimp only
  split
  · exact Nat.mul_pos hs (Nat.pow_pos (by omega))
  · exact Nat.mul_pos hs (Nat.pow_pos (by omega))

/-- Up to the largest scale, a power of five has at most 330 digits fewer than its exponent says. -/
lemma le_digitCount_mul_five_pow (n k : Nat) (hn : 0 < n) (hk : k ≤ 1074) :
    k ≤ digitCount (n * 5 ^ k) + 330 := by
  by_contra hcon
  have hpos := digitCount_pos (n * 5 ^ k)
  have hdigits : n * 5 ^ k < 10 ^ (k - 331) :=
    (digitCount_le_iff (n * 5 ^ k) (k - 331) (by omega)).mp (by omega)
  have hfive : 5 ^ k * 10 ^ 331 < 5 ^ k * 2 ^ k := by
    calc 5 ^ k * 10 ^ 331 ≤ n * 5 ^ k * 10 ^ 331 :=
          Nat.mul_le_mul_right _ (Nat.le_mul_of_pos_left _ hn)
      _ < 10 ^ (k - 331) * 10 ^ 331 := Nat.mul_lt_mul_of_pos_right hdigits (by positivity)
      _ = 10 ^ k := by rw [← pow_add]; congr 1; omega
      _ = 5 ^ k * 2 ^ k := by rw [← mul_pow]; norm_num
  have htwo : 10 ^ 331 < 2 ^ k := Nat.lt_of_mul_lt_mul_left hfive
  have hgrows (m : Nat) (h : k ≤ m) : 2 ^ k ≤ 2 ^ m := Nat.pow_le_pow_right (by omega) h
  have hlargest : 2 ^ 1074 < 10 ^ 331 := by decide +kernel
  exact absurd (htwo.trans_le (hgrows 1074 hk)) (not_lt.mpr hlargest.le)

/-- The order of the exact digits lies inside the range that is not settled by order alone. -/
lemma exactDecimal_order (rank : Nat) (h : 0 < rank) (hr : rank < finiteMagnitudes) :
    -330 ≤ (digitCount (exactDecimal rank).1 : Int) + (exactDecimal rank).2 ∧
      (digitCount (exactDecimal rank).1 : Int) + (exactDecimal rank).2 ≤ 320 := by
  have hlt := significand_lt rank
  have hle := le_scale rank
  have hge := scale_le rank hr
  unfold exactDecimal
  dsimp only
  by_cases hscale : 0 ≤ scale rank
  · obtain ⟨k, hk⟩ := Int.eq_ofNat_of_zero_le hscale
    rw [if_pos hscale, hk]
    dsimp only [Int.toNat_natCast, Nat.pow_eq]
    have hcount : digitCount (significand rank * 2 ^ k) ≤ 320 := by
      rw [digitCount_le_iff _ _ (by omega)]
      calc significand rank * 2 ^ k ≤ 2 ^ 53 * 2 ^ 971 :=
            Nat.mul_le_mul hlt.le (Nat.pow_le_pow_right (by omega) (by omega))
        _ < 10 ^ 320 := by decide +kernel
    omega
  · obtain ⟨k, hk⟩ := Int.eq_ofNat_of_zero_le (show 0 ≤ -scale rank by omega)
    rw [if_neg hscale, hk, show scale rank = -(k : Int) by omega]
    simp only [Int.toNat_natCast, Nat.pow_eq]
    have hupper : digitCount (significand rank * 5 ^ k) ≤ 320 + k := by
      rw [digitCount_le_iff _ _ (by omega), pow_add]
      calc significand rank * 5 ^ k ≤ 2 ^ 53 * 10 ^ k :=
            Nat.mul_le_mul hlt.le (Nat.pow_le_pow_left (by omega) k)
        _ < 10 ^ 320 * 10 ^ k := by
          exact Nat.mul_lt_mul_of_pos_right (by decide +kernel) (by positivity)
    have hlower := le_digitCount_mul_five_pow (significand rank) k (significand_pos rank h) (by omega)
    omega

lemma ofDecimal_exactDecimal (rank : Nat) (h : 0 < rank) (hr : rank < finiteMagnitudes) :
    ofDecimal false (exactDecimal rank).1 (exactDecimal rank).2 = ofRank false rank := by
  obtain ⟨hlow, hhigh⟩ := exactDecimal_order rank h hr
  have hpos := exactDecimal_pos rank h
  unfold ofDecimal
  dsimp only
  rw [if_neg (by omega), if_neg (by omega), ← ofRatio_ratio false rank h]
  apply ofRatio_congr_quotient false _ _ _ _ (tenShifted_den_pos _ _ _ (by omega))
    (ratio_den_pos rank)
  rw [tenShifted_quotient, ratio_quotient, ← exactDecimal_value, zpow_neg, div_inv_eq_mul]
  simp

lemma readsAs_of_nearestReading? (rank digits : Nat) (e : Int)
    (h : nearestReading? rank e = some digits) : readsAs rank digits e = true := by
  unfold nearestReading? at h
  dsimp only at h
  split at h
  · next h1 h2 =>
    have hq := Option.some.inj h
    unfold roundedQuotient at hq
    dsimp only at hq
    split at hq
    · exact hq ▸ h1
    · split at hq
      · exact hq ▸ h2
      · rcases Nat.mod_two_eq_zero_or_one
          ((tenShifted (ratio rank).1 (ratio rank).2 e).1 /
            (tenShifted (ratio rank).1 (ratio rank).2 e).2) with hm | hm
        · rw [hm] at hq
          exact hq ▸ h1
        · rw [hm] at hq
          exact hq ▸ h2
  · next h1 h2 => exact Option.some.inj h ▸ h1
  · next h1 h2 => exact Option.some.inj h ▸ h2
  · exact absurd h (by simp)

/-- The digits found for a magnitude read as that magnitude. -/
theorem ofDecimal_shortest (rank : Nat) (hr : rank < finiteMagnitudes) :
    ofDecimal false (shortest rank).1 (shortest rank).2 = ofRank false rank := by
  unfold shortest
  by_cases h : rank = 0
  · subst h
    rfl
  · rw [if_neg h]
    dsimp only
    generalize hfound : List.findSome? _ _ = found
    cases found with
    | none => exact ofDecimal_exactDecimal rank (Nat.pos_of_ne_zero h) hr
    | some p =>
      obtain ⟨i, -, hi⟩ := List.exists_of_findSome?_eq_some hfound
      obtain ⟨digits, hdigits, rfl⟩ := Option.map_eq_some_iff.mp hi
      have hread := readsAs_of_nearestReading? _ _ _ hdigits
      simpa [readsAs] using hread

lemma shortest_pos (rank : Nat) (h : 0 < rank) (hr : rank < finiteMagnitudes) :
    0 < (shortest rank).1 := by
  rcases Nat.eq_zero_or_pos (shortest rank).1 with hz | hz
  · have hread := ofDecimal_shortest rank hr
    unfold ofDecimal ofRank at hread
    simp only [hz, true_or, if_true, hr, dif_pos] at hread
    split at hread
    · simp only [Binary64.finite.injEq, Fin.mk.injEq, true_and] at hread
      omega
    · exact absurd hread (by simp)
  · exact hz

end Rulebook.Proofs
