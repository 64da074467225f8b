import Mathlib
import Rulebook.Number.Binary64

/-!
# Rounding a quotient

`ofRatio` depends on the quotient alone, not on how it is written, and a quotient that is the
magnitude of a rank rounds to that rank.
-/

namespace Rulebook.Proofs
open Binary64

lemma shifted_den_pos (num den : Nat) (e : Int) (hd : 0 < den) : 0 < (shifted num den e).2 := by
  unfold shifted
  split
  · exact Nat.mul_pos hd (Nat.pow_pos (by omega))
  · exact hd

lemma shifted_num_pos (num den : Nat) (e : Int) (hn : 0 < num) : 0 < (shifted num den e).1 := by
  unfold shifted
  split
  · exact hn
  · exact Nat.mul_pos hn (Nat.pow_pos (by omega))

/-- Shifting divides the quotient by a power of two. -/
lemma shifted_quotient (num den : Nat) (e : Int) :
    ((shifted num den e).1 : ℚ) / (shifted num den e).2 = num / den / 2 ^ e := by
  unfold shifted
  by_cases he : 0 ≤ e
  · obtain ⟨k, rfl⟩ := Int.eq_ofNat_of_zero_le he
    simp [div_div]
  · obtain ⟨k, hk⟩ := Int.eq_ofNat_of_zero_le (show 0 ≤ -e by omega)
    rw [if_neg he, hk, show e = -(k : Int) by omega]
    simp only [Int.toNat_natCast, Nat.pow_eq, Nat.cast_mul, Nat.cast_pow, Nat.cast_ofNat, zpow_neg,
      zpow_natCast, div_inv_eq_mul]
    ring

lemma shifted_scale (k num den : Nat) (e : Int) :
    shifted (k * num) (k * den) e = (k * (shifted num den e).1, k * (shifted num den e).2) := by
  unfold shifted
  split <;> simp [Nat.mul_assoc]

/-- The lengths of numerator and denominator leave the order of the quotient open by one. -/
lemma quotient_lt_two_zpow (num den : Nat) (hd : 0 < den) :
    (num : ℚ) / den < 2 ^ ((Nat.log2 num : Int) - Nat.log2 den + 1) := by
  have hnum : (num : ℚ) < 2 ^ ((Nat.log2 num : Int) + 1) := by
    exact_mod_cast Nat.lt_log2_self (n := num)
  have hden : (2 : ℚ) ^ (Nat.log2 den : Int) ≤ den := by
    exact_mod_cast Nat.log2_self_le hd.ne'
  rw [div_lt_iff₀ (by exact_mod_cast hd)]
  calc (num : ℚ) < 2 ^ ((Nat.log2 num : Int) + 1) := hnum
    _ = 2 ^ ((Nat.log2 num : Int) - Nat.log2 den + 1) * 2 ^ (Nat.log2 den : Int) := by
      rw [← zpow_add₀ two_ne_zero]
      congr 1
      ring
    _ ≤ 2 ^ ((Nat.log2 num : Int) - Nat.log2 den + 1) * den := by gcongr

lemma two_zpow_le_quotient (num den : Nat) (hn : 0 < num) (hd : 0 < den) :
    (2 : ℚ) ^ ((Nat.log2 num : Int) - Nat.log2 den - 1) ≤ num / den := by
  have hnum : (2 : ℚ) ^ (Nat.log2 num : Int) ≤ num := by
    exact_mod_cast Nat.log2_self_le hn.ne'
  have hden : (den : ℚ) < 2 ^ ((Nat.log2 den : Int) + 1) := by
    exact_mod_cast Nat.lt_log2_self (n := den)
  rw [le_div_iff₀ (by exact_mod_cast hd)]
  calc (2 : ℚ) ^ ((Nat.log2 num : Int) - Nat.log2 den - 1) * den
      ≤ 2 ^ ((Nat.log2 num : Int) - Nat.log2 den - 1) * 2 ^ ((Nat.log2 den : Int) + 1) := by
        gcongr
    _ = 2 ^ (Nat.log2 num : Int) := by
      rw [← zpow_add₀ two_ne_zero]
      congr 1
      ring
    _ ≤ num := hnum

/-- The comparison by which the order is found says whether the quotient reaches the power. -/
lemma shifted_le_iff (num den : Nat) (e : Int) (hd : 0 < den) :
    (shifted num den e).2 ≤ (shifted num den e).1 ↔ (2 : ℚ) ^ e ≤ num / den := by
  have hpos : (0 : ℚ) < (shifted num den e).2 := by
    exact_mod_cast shifted_den_pos num den e hd
  rw [← Nat.cast_le (α := ℚ), ← one_le_div₀ hpos, shifted_quotient, one_le_div₀ (by positivity)]

lemma eq_log_of_bounds (q : ℚ) (hq : 0 < q) (e : Int) (hlow : (2 : ℚ) ^ e ≤ q)
    (hhigh : q < 2 ^ (e + 1)) : e = Int.log 2 q := by
  have hle := (Int.zpow_le_iff_le_log (b := 2) (by omega) hq).mp (by exact_mod_cast hlow)
  have hlt := (Int.lt_zpow_iff_log_lt (b := 2) (by omega) hq).mp (by exact_mod_cast hhigh)
  omega

/-- The binary order of a quotient is its integer logarithm. -/
lemma binaryOrder_eq_log (num den : Nat) (hn : 0 < num) (hd : 0 < den) :
    binaryOrder num den = Int.log 2 ((num : ℚ) / den) := by
  have hq : (0 : ℚ) < num / den := div_pos (by exact_mod_cast hn) (by exact_mod_cast hd)
  have hreaches := shifted_le_iff num den ((Nat.log2 num : Int) - Nat.log2 den) hd
  unfold binaryOrder
  dsimp only
  split
  · next h =>
    exact eq_log_of_bounds _ hq _ (hreaches.mp h) (quotient_lt_two_zpow num den hd)
  · next h =>
    have hbelow := not_le.mp fun hle => h (hreaches.mpr hle)
    exact eq_log_of_bounds _ hq _ (two_zpow_le_quotient num den hn hd) (by simpa using hbelow)

lemma binaryOrder_scale (k num den : Nat) (hk : 0 < k) (hn : 0 < num) (hd : 0 < den) :
    binaryOrder (k * num) (k * den) = binaryOrder num den := by
  rw [binaryOrder_eq_log _ _ (Nat.mul_pos hk hn) (Nat.mul_pos hk hd), binaryOrder_eq_log _ _ hn hd]
  congr 1
  push_cast
  rw [mul_div_mul_left]
  exact_mod_cast hk.ne'

lemma roundedQuotient_scale (k num den : Nat) (hk : 0 < k) :
    roundedQuotient (k * num) (k * den) = roundedQuotient num den := by
  unfold roundedQuotient
  dsimp only
  rw [Nat.mul_div_mul_left _ _ hk, Nat.mul_mod_mul_left]
  have he : 2 * (k * (num % den)) = k * (2 * (num % den)) := by ring
  simp only [he, Nat.mul_lt_mul_left hk]

lemma roundedQuotient_exact (n d : Nat) (hd : 0 < d) : roundedQuotient (n * d) d = n := by
  unfold roundedQuotient
  simp [Nat.mul_div_cancel _ hd, hd]

lemma ofRatio_scale (negative : Bool) (k num den : Nat) (hk : 0 < k) (hd : 0 < den) :
    ofRatio negative (k * num) (k * den) = ofRatio negative num den := by
  unfold ofRatio
  by_cases hn : num = 0
  · simp [hn]
  · have hn' : 0 < num := Nat.pos_of_ne_zero hn
    have hkn : k * num ≠ 0 := (Nat.mul_pos hk hn').ne'
    rw [if_neg hkn, if_neg hn, binaryOrder_scale k num den hk hn' hd]
    dsimp only
    rw [shifted_scale, roundedQuotient_scale _ _ _ hk]

/-- Two ways to write a quotient round to one number. -/
theorem ofRatio_congr (negative : Bool) (a b c d : Nat) (hb : 0 < b) (hd : 0 < d)
    (h : a * d = c * b) : ofRatio negative a b = ofRatio negative c d := by
  have h1 := ofRatio_scale negative d a b hd hb
  have h2 := ofRatio_scale negative b c d hb hd
  rw [← h1, ← h2, Nat.mul_comm d a, h, Nat.mul_comm c b, Nat.mul_comm d b]

lemma ofRatio_neg (num den : Nat) : ofRatio true num den = (ofRatio false num den).neg := by
  have hrank (k : Nat) : ofRank true k = (ofRank false k).neg := by
    unfold ofRank
    split <;> rfl
  unfold ofRatio
  split <;> exact hrank _

lemma significand_pos (rank : Nat) (h : 0 < rank) : 0 < significand rank := by
  unfold significand
  split
  · exact h
  · exact Nat.add_pos_left (by decide) _

lemma ratio_den_pos (rank : Nat) : 0 < (ratio rank).2 :=
  shifted_den_pos _ _ _ (by omega)

/-- The magnitude of a rank is its significand at its scale. -/
lemma ratio_quotient (rank : Nat) :
    ((ratio rank).1 : ℚ) / (ratio rank).2 = significand rank * 2 ^ scale rank := by
  unfold ratio
  rw [shifted_quotient]
  simp

lemma le_log_mul_two_zpow (n : Nat) (hn : 0 < n) (scale e : Int) (h : (2 : ℚ) ^ e ≤ n) :
    e + scale ≤ Int.log 2 ((n : ℚ) * 2 ^ scale) := by
  have hnq : (0 : ℚ) < n := by exact_mod_cast hn
  apply (Int.zpow_le_iff_le_log (b := 2) (by omega) (by positivity)).mp
  rw [zpow_add₀ (by norm_num)]
  exact mul_le_mul_of_nonneg_right (by exact_mod_cast h) (by positivity)

lemma log_mul_two_zpow_lt (n : Nat) (hn : 0 < n) (scale e : Int) (h : (n : ℚ) < 2 ^ e) :
    Int.log 2 ((n : ℚ) * 2 ^ scale) < e + scale := by
  have hnq : (0 : ℚ) < n := by exact_mod_cast hn
  apply (Int.lt_zpow_iff_log_lt (b := 2) (by omega) (by positivity)).mp
  rw [zpow_add₀ (by norm_num)]
  exact mul_lt_mul_of_pos_right (by exact_mod_cast h) (by positivity)

/-- The scale of a magnitude is found again from its order, which tells the length of its
significand. -/
lemma binaryOrder_ratio (rank : Nat) (h : 0 < rank) :
    max (binaryOrder (ratio rank).1 (ratio rank).2 - 52) (-1074) = scale rank := by
  have hs := significand_pos rank h
  have hn : 0 < (ratio rank).1 := shifted_num_pos _ _ _ hs
  rw [binaryOrder_eq_log _ _ hn (ratio_den_pos rank), ratio_quotient]
  have hlt : significand rank < 2 ^ 53 := by
    unfold significand binade
    split <;> omega
  have hupper := log_mul_two_zpow_lt (significand rank) hs (scale rank) 53 (by exact_mod_cast hlt)
  by_cases hb : rank < binade
  · have hscale : scale rank = -1074 := by
      unfold scale
      rw [Nat.div_eq_of_lt hb]
      rfl
    omega
  · have hge : 2 ^ 52 ≤ significand rank := by
      unfold significand
      rw [if_neg hb]
      unfold binade
      omega
    have hlower := le_log_mul_two_zpow (significand rank) hs (scale rank) 52 (by exact_mod_cast hge)
    have hscale : -1074 ≤ scale rank := by
      unfold scale
      omega
    omega

/-- The magnitude of a rank rounds to that rank. -/
theorem ofRatio_ratio (negative : Bool) (rank : Nat) (h : 0 < rank) :
    ofRatio negative (ratio rank).1 (ratio rank).2 = ofRank negative rank := by
  have hs := significand_pos rank h
  have hn : 0 < (ratio rank).1 := shifted_num_pos _ _ _ hs
  unfold ofRatio
  rw [if_neg hn.ne', binaryOrder_ratio rank h]
  dsimp only
  have hd := shifted_den_pos (ratio rank).1 (ratio rank).2 (scale rank) (ratio_den_pos rank)
  have hq := shifted_quotient (ratio rank).1 (ratio rank).2 (scale rank)
  rw [ratio_quotient, mul_div_assoc, div_self (by positivity), mul_one,
    div_eq_iff (by exact_mod_cast hd.ne')] at hq
  have hq' : (shifted (ratio rank).1 (ratio rank).2 (scale rank)).1 =
      significand rank * (shifted (ratio rank).1 (ratio rank).2 (scale rank)).2 := by
    exact_mod_cast hq
  rw [hq', roundedQuotient_exact _ _ hd]
  congr 1
  unfold scale significand
  by_cases hb : rank < binade
  · rw [if_pos hb, Nat.div_eq_of_lt hb]
    simp
  · rw [if_neg hb]
    have hdiv := Nat.div_add_mod rank binade
    have hpos : 1 ≤ rank / binade := (Nat.le_div_iff_mul_le (by decide)).mpr (by omega)
    rw [max_eq_left hpos, show ((rank / binade : Nat) - 1075 + 1074 : Int).toNat =
      rank / binade - 1 by omega, Nat.sub_mul, Nat.mul_comm (rank / binade)]
    have hmul : binade * 1 ≤ binade * (rank / binade) := Nat.mul_le_mul_left _ hpos
    omega

end Rulebook.Proofs
