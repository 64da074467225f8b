import Mathlib
import Rulebook.Json.Writer
import Rulebook.Proofs.Number.Written

/-!
# Written tokens

Every mark, word, number and string that is written scans back as one token, whatever ends it.
-/

namespace Rulebook.Proofs
open Json

/-- What may follow a token: nothing, a blank or a mark. -/
def Ends (rest : List Char) : Prop := ∀ c, rest.head? = some c → isSpace c = true ∨ isMark c = true

lemma ends_nil : Ends [] := by
  intro c hc
  simp at hc

lemma ends_cons_of_space (c : Char) (rest : List Char) (h : isSpace c = true) : Ends (c :: rest) := by
  intro x hx
  simp only [List.head?_cons, Option.some.injEq] at hx
  exact .inl (hx ▸ h)

lemma ends_cons_of_mark (c : Char) (rest : List Char) (h : isMark c = true) : Ends (c :: rest) := by
  intro x hx
  simp only [List.head?_cons, Option.some.injEq] at hx
  exact .inr (hx ▸ h)

/-- A text that scans as one token. -/
def Lexes (text : List Char) (t : Token) : Prop :=
  ∀ offset rest, Ends rest →
    scanFrom 0 offset (text ++ rest) = (offset, t) :: scanFrom 0 (offset + text.length) rest

lemma scanFrom_skip (cs rest : List Char) (offset : Nat) :
    scanFrom cs.length offset (cs ++ rest) = scanFrom 0 (offset + cs.length) rest := by
  induction cs generalizing offset with
  | nil => rfl
  | cons c cs ih =>
    simp only [List.length_cons, List.cons_append, scanFrom]
    rw [ih]
    congr 1
    omega

lemma scanFrom_spaces (cs rest : List Char) (offset : Nat) (h : ∀ c ∈ cs, isSpace c = true) :
    scanFrom 0 offset (cs ++ rest) = scanFrom 0 (offset + cs.length) rest := by
  induction cs generalizing offset with
  | nil => rfl
  | cons c cs ih =>
    rw [List.cons_append, scanFrom, if_pos (h c List.mem_cons_self),
      ih _ (fun x hx => h x (List.mem_cons_of_mem _ hx))]
    congr 1
    simp only [List.length_cons]
    omega

lemma lexes_of_token (c : Char) (cs : List Char) (t : Token) (hs : isSpace c = false)
    (h : ∀ offset rest, Ends rest → token offset c (cs ++ rest) = (t, cs.length + 1)) :
    Lexes (c :: cs) t := by
  intro offset rest hrest
  rw [List.cons_append, scanFrom, if_neg (by simp [hs]), h offset rest hrest]
  dsimp only
  rw [scanFrom_skip]
  congr 2
  simp only [List.length_cons]
  omega

/-! ## Strings -/

lemma hexDigits_four (n : Nat) (h : n < 65536) :
    Text.hexDigits 4 n = [(n / 4096).digitChar, (n / 256 % 16).digitChar, (n / 16 % 16).digitChar,
      (n % 16).digitChar] := by
  have hdiv2 : n / 16 / 16 = n / 256 := Nat.div_div_eq_div_mul n 16 16
  have hdiv3 : n / 256 / 16 = n / 4096 := Nat.div_div_eq_div_mul n 256 16
  unfold Text.hexDigits
  dsimp only
  by_cases h1 : n < 16
  · rw [Nat.toDigits_of_lt_base h1, show n / 4096 = 0 by omega, show n / 256 % 16 = 0 by omega,
      show n / 16 % 16 = 0 by omega, show n % 16 = n by omega]
    rfl
  · rw [Nat.toDigits_of_base_le (by omega) (by omega)]
    by_cases h2 : n / 16 < 16
    · rw [Nat.toDigits_of_lt_base h2, show n / 4096 = 0 by omega, show n / 256 % 16 = 0 by omega,
        show n / 16 % 16 = n / 16 by omega]
      rfl
    · rw [Nat.toDigits_of_base_le (by omega) (by omega), hdiv2]
      by_cases h3 : n / 256 < 16
      · rw [Nat.toDigits_of_lt_base h3, show n / 4096 = 0 by omega,
          show n / 256 % 16 = n / 256 by omega]
        rfl
      · rw [Nat.toDigits_of_base_le (by omega) (by omega), hdiv3,
          Nat.toDigits_of_lt_base (by omega)]
        rfl

lemma hexValue?_digitChar : ∀ n < 16, Text.hexValue? n.digitChar = some n := by
  decide

lemma codeUnit?_hexDigits (n : Nat) (more : List Char) (h : n < 65536) (hmore : more ≠ []) :
    codeUnit? (Text.hexDigits 4 n ++ more) = some n := by
  obtain ⟨c, rest, rfl⟩ := List.exists_cons_of_ne_nil hmore
  rw [hexDigits_four n h]
  simp only [List.cons_append, List.nil_append, codeUnit?,
    hexValue?_digitChar (n / 4096) (by omega), hexValue?_digitChar (n / 256 % 16) (by omega),
    hexValue?_digitChar (n / 16 % 16) (by omega), hexValue?_digitChar (n % 16) (by omega),
    Option.bind_eq_bind, Option.bind_some, Option.pure_def, Option.some.injEq]
  omega

lemma hexDigits_four_length (n : Nat) (h : n < 65536) : (Text.hexDigits 4 n).length = 4 := by
  rw [hexDigits_four n h]
  rfl

lemma stringText_skip (start offset : Nat) (cs rest : List Char) :
    stringText start cs.length offset (cs ++ rest) = stringText start 0 (offset + cs.length) rest := by
  induction cs generalizing offset with
  | nil => rfl
  | cons c cs ih =>
    simp only [List.length_cons, List.cons_append, stringText]
    rw [ih]
    congr 1
    omega

lemma stringText_escape (start offset : Nat) (c : Char) (cs rest : List Char)
    (h : escape (cs ++ rest) = .ok (some c, cs.length + 1)) :
    stringText start 0 offset ('\\' :: cs ++ rest) =
      prepend (some c) (stringText start 0 (offset + (cs.length + 1)) rest) := by
  rw [List.cons_append, stringText, if_neg (by decide), if_pos rfl, h]
  dsimp only
  rw [Nat.add_sub_cancel, stringText_skip]
  congr 2
  omega

lemma escape_unit (n : Nat) (more : List Char) (h : n < 65536)
    (hsurrogate : n < 0xD800 ∨ 0xDFFF < n) (hmore : more ≠ []) :
    escape ('u' :: Text.hexDigits 4 n ++ more) = .ok (some (Char.ofNat n), 6) := by
  have hhigh : isHighSurrogate n = false := by
    unfold isHighSurrogate
    rw [Bool.and_eq_false_iff, decide_eq_false_iff_not, decide_eq_false_iff_not]
    omega
  have hlow : isLowSurrogate n = false := by
    unfold isLowSurrogate
    rw [Bool.and_eq_false_iff, decide_eq_false_iff_not, decide_eq_false_iff_not]
    omega
  simp [escape, codeEscape, codeUnit?_hexDigits n more h hmore, hhigh, unitChar, hlow]

lemma escape_pair (high low : Nat) (more : List Char) (hhigh : isHighSurrogate high = true)
    (hlow : isLowSurrogate low = true) (hmore : more ≠ []) :
    escape ('u' :: Text.hexDigits 4 high ++ unitEscape low ++ more) =
      .ok (some (pairChar high low), 12) := by
  have hhigh' := hhigh
  have hlow' := hlow
  simp only [isHighSurrogate, isLowSurrogate, Bool.and_eq_true, decide_eq_true_eq] at hhigh' hlow'
  have hunit := codeUnit?_hexDigits high (unitEscape low ++ more) (by omega) (by simp [unitEscape])
  have hunit' := codeUnit?_hexDigits low more (by omega) hmore
  have hdrop : (Text.hexDigits 4 high ++ (unitEscape low ++ more)).drop 4 =
      '\\' :: 'u' :: (Text.hexDigits 4 low ++ more) := by
    rw [List.drop_left' (hexDigits_four_length high (by omega))]
    rfl
  have hlong : ¬(Text.hexDigits 4 low ++ more).length < 5 := by
    rw [List.length_append, hexDigits_four_length low (by omega)]
    have := List.length_pos_iff.mpr hmore
    omega
  rw [List.cons_append, List.cons_append, List.append_assoc, escape, codeEscape, hunit]
  simp only [hdrop, hhigh, hlong, hunit', hlow, if_true, if_false]

lemma pairChar_of_code (n : Nat) (h : 0x10000 ≤ n) :
    pairChar (0xD800 + (n - 0x10000) / 0x400) (0xDC00 + (n - 0x10000) % 0x400) = Char.ofNat n := by
  unfold pairChar
  exact congrArg Char.ofNat (by omega)

lemma isHighSurrogate_of_code (n : Nat) (h : n < 0x110000) :
    isHighSurrogate (0xD800 + (n - 0x10000) / 0x400) = true := by
  simp only [isHighSurrogate, Bool.and_eq_true, decide_eq_true_eq]
  omega

lemma isLowSurrogate_of_code (n : Nat) :
    isLowSurrogate (0xDC00 + (n - 0x10000) % 0x400) = true := by
  simp only [isLowSurrogate, Bool.and_eq_true, decide_eq_true_eq]
  omega

lemma stringText_unitEscape (start offset n : Nat) (more : List Char) (h : n < 0x10000)
    (hsurrogate : n < 0xD800 ∨ 0xDFFF < n) (hmore : more ≠ []) :
    stringText start 0 offset (unitEscape n ++ more) =
      prepend (some (Char.ofNat n)) (stringText start 0 (offset + (unitEscape n).length) more) := by
  have hlen : ('u' :: Text.hexDigits 4 n).length = 5 := by
    rw [List.length_cons, hexDigits_four_length n h]
  have hesc := escape_unit n more h hsurrogate hmore
  exact stringText_escape start offset (Char.ofNat n) ('u' :: Text.hexDigits 4 n) more
    (by rw [hesc, hlen])

lemma stringText_pairEscape (start offset high low : Nat) (more : List Char)
    (hhigh : isHighSurrogate high = true) (hlow : isLowSurrogate low = true) (hmore : more ≠ []) :
    stringText start 0 offset (unitEscape high ++ unitEscape low ++ more) =
      prepend (some (pairChar high low))
        (stringText start 0 (offset + (unitEscape high ++ unitEscape low).length) more) := by
  have hhigh' := hhigh
  have hlow' := hlow
  simp only [isHighSurrogate, isLowSurrogate, Bool.and_eq_true, decide_eq_true_eq] at hhigh' hlow'
  have hlen : ('u' :: Text.hexDigits 4 high ++ unitEscape low).length = 11 := by
    simp only [unitEscape, List.cons_append, List.length_cons, List.length_append,
      hexDigits_four_length high (by omega), hexDigits_four_length low (by omega)]
  have hesc := escape_pair high low more hhigh hlow hmore
  exact stringText_escape start offset (pairChar high low)
    ('u' :: Text.hexDigits 4 high ++ unitEscape low) more (by rw [hesc, hlen])

lemma char_toNat_ranges (c : Char) :
    c.toNat < 0x110000 ∧ (c.toNat < 0xD800 ∨ 0xDFFF < c.toNat) := by
  have h := c.valid
  simp only [UInt32.isValidChar, Nat.isValidChar] at h
  simp only [Char.toNat]
  omega

lemma stringText_codeEscapes (start offset : Nat) (c : Char) (more : List Char) (hmore : more ≠ []) :
    stringText start 0 offset (codeEscapes c.toNat ++ more) =
      prepend (some c) (stringText start 0 (offset + (codeEscapes c.toNat).length) more) := by
  obtain ⟨hmax, hsurrogate⟩ := char_toNat_ranges c
  have hc := Char.ofNat_toNat c
  generalize c.toNat = n at hmax hsurrogate hc ⊢
  unfold codeEscapes
  by_cases hn : n < 0x10000
  · rw [if_pos hn, stringText_unitEscape start offset n more hn hsurrogate hmore, hc]
  · rw [if_neg hn, stringText_pairEscape start offset _ _ more (isHighSurrogate_of_code n hmax)
      (isLowSurrogate_of_code n) hmore, pairChar_of_code n (by omega), hc]

lemma escape_short (c e : Char) (more : List Char) (he : e ≠ 'u')
    (h : shortEscapes.lookup e = some c) : escape ([e] ++ more) = .ok (some c, 2) := by
  rw [List.singleton_append, escape.eq_3 _ _ (fun heq => he heq), h]

/-- A character of a string reads back from its written form. -/
lemma stringText_stringChar (ascii : Bool) (start offset : Nat) (c : Char) (more : List Char)
    (hmore : more ≠ []) :
    stringText start 0 offset (stringChar ascii c ++ more) =
      prepend (some c) (stringText start 0 (offset + (stringChar ascii c).length) more) := by
  have hshort (e : Char) (he : e ≠ 'u') (h : shortEscapes.lookup e = some c) :
      stringText start 0 offset (['\\', e] ++ more) =
        prepend (some c) (stringText start 0 (offset + ['\\', e].length) more) :=
    stringText_escape start offset c [e] more (escape_short c e more he h)
  unfold stringChar
  by_cases h1 : c = '"'
  · subst h1
    exact hshort '"' (by decide) (by decide)
  by_cases h2 : c = '\\'
  · subst h2
    exact hshort '\\' (by decide) (by decide)
  by_cases h3 : c = '\n'
  · subst h3
    exact hshort 'n' (by decide) (by decide)
  by_cases h4 : c = '\r'
  · subst h4
    exact hshort 'r' (by decide) (by decide)
  by_cases h5 : c = '\t'
  · subst h5
    exact hshort 't' (by decide) (by decide)
  by_cases h6 : c = '\x08'
  · subst h6
    exact hshort 'b' (by decide) (by decide)
  by_cases h7 : c = '\x0c'
  · subst h7
    exact hshort 'f' (by decide) (by decide)
  rw [if_neg h1, if_neg h2, if_neg h3, if_neg h4, if_neg h5, if_neg h6, if_neg h7]
  by_cases h8 : c.toNat < 32 ∨ (ascii = true ∧ 126 < c.toNat)
  · rw [if_pos h8]
    exact stringText_codeEscapes start offset c more hmore
  · rw [if_neg h8, List.singleton_append, stringText, if_neg h1, if_neg h2,
      if_neg (fun h => h8 (.inl h))]
    rfl

lemma stringText_flatMap (ascii : Bool) (start offset : Nat) (cs rest : List Char) :
    stringText start 0 offset (cs.flatMap (stringChar ascii) ++ '"' :: rest) =
      .ok (cs.map some, offset + (cs.flatMap (stringChar ascii)).length + 1) := by
  induction cs generalizing offset with
  | nil => rfl
  | cons c cs ih =>
    rw [List.flatMap_cons, List.append_assoc,
      stringText_stringChar ascii start offset c _ (by simp), ih]
    simp only [prepend, Except.map, List.length_append, List.map_cons]
    congr 2
    omega

lemma stringToken_characters (cs : List Char) :
    stringToken (cs.map some) = .string (String.ofList cs) := by
  have hall : (cs.map some).mapM id = some cs := by
    induction cs with
    | nil => rfl
    | cons c cs ih =>
      rw [List.map_cons, List.mapM_cons, ih]
      rfl
  rw [stringToken, hall]

lemma lexes_quotedString (ascii : Bool) (cs : List Char) :
    Lexes (quotedString ascii cs) (.string (String.ofList cs)) := by
  unfold quotedString
  rw [List.cons_append]
  apply lexes_of_token _ _ _ (by decide)
  intro offset rest _
  unfold token
  rw [if_neg (by decide), if_pos rfl, List.append_assoc, List.singleton_append,
    stringText_flatMap]
  dsimp only
  rw [stringToken_characters]
  congr 1
  simp only [List.length_append, List.length_cons, List.length_nil]
  omega

end Rulebook.Proofs
