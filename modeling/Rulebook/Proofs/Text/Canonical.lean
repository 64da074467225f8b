import Mathlib
import Rulebook.Name

/-!
# Canonical spellings

The canonical spelling of a name is its own canonical spelling: lower case leaves lower case as it
is, and it turns no other character into a blank, so nothing is left to trim.
-/

namespace Rulebook.Proofs
open Text

/-! ## Lower case of lower case -/

/-- Whether no image of the first run is covered by the second, by the places of the two and, for
images and points that both stand two apart, by their parity. -/
def areApart (r r' : CaseRun) : Bool :=
  r.target + (r.last - r.first) < r'.first || r'.last < r.target ||
    (r'.step == 2 && (r.step == 2 || r.first == r.last) && (r.target + r'.first) % 2 == 1)

lemma not_covers_of_areApart (r r' : CaseRun) (h : areApart r r' = true) (n : Nat)
    (hn : r.covers n = true) : r'.covers (r.target + (n - r.first)) = false := by
  unfold areApart at h
  unfold CaseRun.covers at hn ⊢
  simp only [Bool.and_eq_true, Bool.or_eq_true, decide_eq_true_eq, beq_iff_eq] at h hn
  simp only [Bool.and_eq_false_iff, decide_eq_false_iff_not, beq_eq_false_iff_ne]
  obtain ⟨⟨hfirst, hlast⟩, hstep⟩ := hn
  rcases h with (h | h) | ⟨⟨htwo, hr⟩, hodd⟩
  · left; left; omega
  · left; right; omega
  · rw [htwo]
    have heven : (n - r.first) % 2 = 0 := by
      rcases hr with hr | hr
      · rwa [hr] at hstep
      · omega
    by_cases hlow : r'.first ≤ r.target + (n - r.first)
    · right; omega
    · left; left; exact hlow

lemma lowercaseRuns_apart :
    (lowercaseRuns.all fun r => lowercaseRuns.all fun r' => areApart r r') = true := by
  decide +kernel

/-- Whether a code point lies outside the images of a run. -/
def misses (first last : Nat) (r : CaseRun) : Bool :=
  r.target + (r.last - r.first) < first || last < r.target

lemma outside_of_misses (first last : Nat) (r : CaseRun) (h : misses first last r = true) (n : Nat)
    (hn : r.covers n = true) :
    r.target + (n - r.first) < first ∨ last < r.target + (n - r.first) := by
  unfold misses at h
  unfold CaseRun.covers at hn
  simp only [Bool.and_eq_true, Bool.or_eq_true, decide_eq_true_eq] at h hn
  omega

/-- The ranges that lower case never maps into: the code points of no character, the two characters
with a lower case of their own, and the blanks. -/
def untouched : List (Nat × Nat) :=
  (0xD800, 0xDFFF) :: (0x110000, 0x200000) :: (0x3A3, 0x3A3) :: (0x130, 0x130) :: blankRanges

lemma lowercaseRuns_misses :
    ∀ p ∈ untouched, ∀ r ∈ lowercaseRuns, misses p.1 p.2 r = true := by
  decide +kernel

lemma lowercaseRuns_small : ∀ r ∈ lowercaseRuns, r.target + (r.last - r.first) < 0x200000 := by
  decide +kernel

/-- A code point is left alone, or goes where nothing is mapped and nothing is untouched. -/
lemma mapped_cases (n : Nat) :
    mapped lowercaseRuns n = n ∨
      ∃ r ∈ lowercaseRuns,
        r.covers n = true ∧ mapped lowercaseRuns n = r.target + (n - r.first) := by
  unfold mapped
  cases h : lowercaseRuns.find? (·.covers n) with
  | none => exact .inl rfl
  | some r => exact .inr ⟨r, List.mem_of_find?_eq_some h, by simpa using List.find?_some h, rfl⟩

lemma mapped_mapped (n : Nat) :
    mapped lowercaseRuns (mapped lowercaseRuns n) = mapped lowercaseRuns n := by
  rcases mapped_cases n with h | ⟨r, hr, hn, h⟩
  · rw [h]
    exact h
  · rw [h]
    have hnone : lowercaseRuns.find? (·.covers (r.target + (n - r.first))) = none := by
      rw [List.find?_eq_none]
      intro r' hr'
      have hapart := List.all_eq_true.mp (List.all_eq_true.mp lowercaseRuns_apart r hr) r' hr'
      rw [not_covers_of_areApart r r' hapart n hn]
      exact Bool.false_ne_true
    unfold mapped
    rw [hnone]

lemma mapped_outside (first last n : Nat) (hp : (first, last) ∈ untouched)
    (hn : n < first ∨ last < n) :
    mapped lowercaseRuns n < first ∨ last < mapped lowercaseRuns n := by
  rcases mapped_cases n with h | ⟨r, hr, hcovers, h⟩
  · rw [h]
    exact hn
  · rw [h]
    exact outside_of_misses first last r (lowercaseRuns_misses _ hp r hr) n hcovers

lemma isValidChar_mapped (c : Char) : (mapped lowercaseRuns c.toNat).isValidChar := by
  have hc : c.toNat < 0xD800 ∨ 0xDFFF < c.toNat ∧ c.toNat < 0x110000 := c.valid
  have hsurrogate := mapped_outside 0xD800 0xDFFF c.toNat (by simp [untouched]) (by omega)
  have hlarge := mapped_outside 0x110000 0x200000 c.toNat (by simp [untouched]) (by omega)
  have hsmall : mapped lowercaseRuns c.toNat < 0x200000 := by
    rcases mapped_cases c.toNat with h | ⟨r, hr, hcovers, h⟩
    · omega
    · have hr := lowercaseRuns_small r hr
      unfold CaseRun.covers at hcovers
      simp only [Bool.and_eq_true, decide_eq_true_eq] at hcovers
      omega
  unfold Nat.isValidChar
  omega

lemma toNat_ofNat_mapped (c : Char) :
    (Char.ofNat (mapped lowercaseRuns c.toNat)).toNat = mapped lowercaseRuns c.toNat := by
  rw [Char.toNat_ofNat, if_pos (isValidChar_mapped c)]

/-- A character that lower case leaves alone in every context. -/
def IsLower (c : Char) : Prop := c ≠ 'Σ' ∧ lowercaseChar c = [c]

lemma isLower_of_mem_lowercaseChar (c d : Char) (hc : c ≠ 'Σ') (hd : d ∈ lowercaseChar c) :
    IsLower d := by
  unfold lowercaseChar at hd
  split at hd
  · rcases List.mem_cons.mp hd with rfl | hd
    · exact ⟨by decide, by decide⟩
    · obtain rfl := List.mem_singleton.mp hd
      exact ⟨by decide, by decide +kernel⟩
  · next hdot =>
    obtain rfl := List.mem_singleton.mp hd
    have htoNat := toNat_ofNat_mapped c
    have hne (x : Char) (hx : (x.toNat, x.toNat) ∈ untouched) (hcx : c ≠ x) :
        Char.ofNat (mapped lowercaseRuns c.toNat) ≠ x := by
      intro h
      rw [h] at htoNat
      have hcn : c.toNat ≠ x.toNat := fun hn => hcx (Char.toNat_inj.mp hn)
      have hout := mapped_outside x.toNat x.toNat c.toNat hx (by omega)
      omega
    refine ⟨hne 'Σ' (by simp [untouched]) hc, ?_⟩
    unfold lowercaseChar
    rw [if_neg (hne '\u0130' (by simp [untouched]) hdot), htoNat, mapped_mapped]

lemma isLower_of_mem_lowercaseAfter (before cs : List Char) (d : Char)
    (hd : d ∈ lowercaseAfter before cs) : IsLower d := by
  induction cs generalizing before with
  | nil => cases hd
  | cons c rest ih =>
    rw [lowercaseAfter] at hd
    rcases List.mem_append.mp hd with hd | hd
    · split at hd
      · split at hd
        · obtain rfl := List.mem_singleton.mp hd
          exact ⟨by decide, by decide +kernel⟩
        · obtain rfl := List.mem_singleton.mp hd
          exact ⟨by decide, by decide +kernel⟩
      · next hc => exact isLower_of_mem_lowercaseChar c d hc hd
    · exact ih (c :: before) hd

lemma lowercaseAfter_of_isLower (before cs : List Char) (h : ∀ c ∈ cs, IsLower c) :
    lowercaseAfter before cs = cs := by
  induction cs generalizing before with
  | nil => rfl
  | cons c rest ih =>
    obtain ⟨hc, hlower⟩ := h c List.mem_cons_self
    rw [lowercaseAfter, if_neg hc, hlower, ih _ fun x hx => h x (List.mem_cons_of_mem _ hx)]
    rfl

theorem lowercase_lowercase (cs : List Char) : lowercase (lowercase cs) = lowercase cs :=
  lowercaseAfter_of_isLower [] _ (isLower_of_mem_lowercaseAfter [] cs)

/-! ## Trimming -/

/-- A text without blanks at its ends. -/
def IsTrimmed (cs : List Char) : Prop :=
  (∀ c ∈ cs.head?, isBlank c = false) ∧ ∀ c ∈ cs.getLast?, isBlank c = false

lemma head?_dropWhile_isBlank (cs : List Char) :
    ∀ c ∈ (cs.dropWhile isBlank).head?, isBlank c = false := by
  intro c hc
  have h := List.head?_dropWhile_not isBlank cs
  rw [Option.mem_def.mp hc] at h
  simpa using h

lemma isTrimmed_trim (cs : List Char) : IsTrimmed (trim cs) := by
  unfold trim trimRight
  constructor
  · intro c hc
    obtain ⟨dropped, hsplit⟩ := List.dropWhile_suffix isBlank (l := (cs.dropWhile isBlank).reverse)
    have hsplit' : cs.dropWhile isBlank =
        ((cs.dropWhile isBlank).reverse.dropWhile isBlank).reverse ++ dropped.reverse := by
      rw [← List.reverse_append, hsplit, List.reverse_reverse]
    apply head?_dropWhile_isBlank cs
    rw [hsplit', List.head?_append, Option.mem_def.mp hc]
    rfl
  · intro c hc
    rw [List.getLast?_reverse] at hc
    exact head?_dropWhile_isBlank _ c hc

lemma dropWhile_isBlank_of_head? (cs : List Char) (h : ∀ c ∈ cs.head?, isBlank c = false) :
    cs.dropWhile isBlank = cs := by
  cases cs with
  | nil => rfl
  | cons c rest =>
    rw [List.dropWhile_cons_of_neg]
    rw [h c rfl]
    exact Bool.false_ne_true

lemma trim_of_isTrimmed (cs : List Char) (h : IsTrimmed cs) : trim cs = cs := by
  unfold trim trimRight
  rw [dropWhile_isBlank_of_head? cs h.1, dropWhile_isBlank_of_head? cs.reverse,
    List.reverse_reverse]
  rw [List.head?_reverse]
  exact h.2

lemma isBlank_of_mem_lowercaseChar (c d : Char) (hc : isBlank c = false)
    (hd : d ∈ lowercaseChar c) : isBlank d = false := by
  unfold lowercaseChar at hd
  split at hd
  · rcases List.mem_cons.mp hd with rfl | hd
    · decide
    · obtain rfl := List.mem_singleton.mp hd
      decide
  · obtain rfl := List.mem_singleton.mp hd
    unfold isBlank inRanges at hc ⊢
    rw [toNat_ofNat_mapped]
    simp only [List.any_eq_false, Bool.and_eq_true, decide_eq_true_eq, Prod.forall] at hc ⊢
    intro first last hp
    have hout := mapped_outside first last c.toNat
      (List.mem_append_right [(0xD800, 0xDFFF), (0x110000, 0x200000), (0x3A3, 0x3A3),
        (0x130, 0x130)] hp) (by
        have := hc first last hp
        omega)
    omega

/-- The image of a character in some context. -/
lemma lowercaseAfter_cons (before rest : List Char) (c : Char) :
    ∃ image : List Char, image ≠ [] ∧ (isBlank c = false → ∀ d ∈ image, isBlank d = false) ∧
      lowercaseAfter before (c :: rest) = image ++ lowercaseAfter (c :: before) rest := by
  rw [lowercaseAfter]
  split
  · refine ⟨_, by simp, ?_, rfl⟩
    intro _ d hd
    obtain rfl := List.mem_singleton.mp hd
    split <;> decide
  · refine ⟨lowercaseChar c, ?_, fun hc d => isBlank_of_mem_lowercaseChar c d hc, rfl⟩
    unfold lowercaseChar
    split <;> simp

lemma isTrimmed_lowercase (cs : List Char) (h : IsTrimmed cs) : IsTrimmed (lowercase cs) := by
  have hlast (before : List Char) (cs : List Char) (h : ∀ c ∈ cs.getLast?, isBlank c = false) :
      ∀ d ∈ (lowercaseAfter before cs).getLast?, isBlank d = false := by
    induction cs generalizing before with
    | nil => simp [lowercaseAfter]
    | cons c rest ih =>
      obtain ⟨image, hne, hblank, heq⟩ := lowercaseAfter_cons before rest c
      intro d hd
      rw [heq] at hd
      cases rest with
      | nil =>
        rw [lowercaseAfter, List.append_nil] at hd
        exact hblank (h c rfl) d (List.mem_of_getLast? hd)
      | cons c' rest =>
        obtain ⟨image', hne', -, heq'⟩ := lowercaseAfter_cons (c :: before) rest c'
        have hmore : lowercaseAfter (c :: before) (c' :: rest) ≠ [] := by
          rw [heq']
          simp [hne']
        rw [List.getLast?_append_of_ne_nil _ hmore] at hd
        exact ih (c :: before) (by rwa [List.getLast?_cons_cons] at h) d hd
  refine ⟨?_, hlast [] cs h.2⟩
  cases cs with
  | nil => simp [lowercase, lowercaseAfter]
  | cons c rest =>
    obtain ⟨image, hne, hblank, heq⟩ := lowercaseAfter_cons [] rest c
    intro d hd
    unfold lowercase at hd
    rw [heq, List.head?_append_of_ne_nil _ hne] at hd
    exact hblank (h.1 c rfl) d (List.mem_of_head? hd)

/-- A canonical spelling is canonical. -/
theorem canonical_canonical (cs : List Char) : canonical (canonical cs) = canonical cs := by
  unfold canonical
  rw [trim_of_isTrimmed _ (isTrimmed_lowercase _ (isTrimmed_trim cs)), lowercase_lowercase]

end Rulebook.Proofs
