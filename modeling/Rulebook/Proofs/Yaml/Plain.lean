import Mathlib
import Rulebook.Yaml.Scalar.Number
import Rulebook.Proofs.Json.Scalar
import Rulebook.Proofs.Outcome
import Rulebook.Proofs.Text.Canonical
import Rulebook.Proofs.Yaml.Quoted

/-!
# Plain scalars and back

What is written without marks around it is read as it was, whether a colon or a line stands behind it,
and the forms of null, truth values and integers suggest their tags.
-/

namespace Rulebook.Proofs
open Yaml

/-! ## What may be plain -/

/-- A text that may be plain, by its first character and those behind it. -/
structure IsPlainText (c : Char) (rest : List Char) : Prop where
  chars : ∀ d ∈ c :: rest, isWritable d = true ∧ isWrittenBreak d = false
  head : c ≠ ' '
  last : rest.getLast?.getD c ≠ ' '
  mark : c ∉ leadingMarks
  spaced : c = '?' ∨ c = ':' ∨ c = '-' → startsWhite rest = false
  indicator : holdsIndicator c rest = false
  dashes : ['-', '-', '-'].isPrefixOf (c :: rest) = false
  dots : ['.', '.', '.'].isPrefixOf (c :: rest) = false

lemma holdsBlankBesideBreak_of_no_break (cs : List Char)
    (h : ∀ c ∈ cs, isWrittenBreak c = false) : holdsBlankBesideBreak cs = false := by
  induction cs with
  | nil => rfl
  | cons c cs ih =>
    rw [List.forall_mem_cons] at h
    cases cs with
    | nil => rfl
    | cons d cs =>
      rw [holdsBlankBesideBreak, ih h.2, h.1, h.2 d List.mem_cons_self]
      simp

lemma allowsPlain_iff (c : Char) (rest : List Char) :
    allowsPlain (c :: rest) = true ↔ IsPlainText c rest := by
  have hlast : (c :: rest).getLast? = some (rest.getLast?.getD c) := List.getLast?_cons
  simp only [allowsPlain, allowsApostrophes, isMultiline, hasLooseEnd, isIndicated, Bool.and_eq_true,
    Bool.not_eq_true', Bool.or_eq_false_iff, List.all_eq_true, List.any_eq_false, hlast,
    List.head?_cons, Option.any_some, decide_eq_false_iff_not, Bool.not_eq_true]
  constructor
  · rintro ⟨⟨⟨⟨hwritable, -⟩, hbreak⟩, ⟨hhead, -⟩, hlast, -⟩, ⟨⟨⟨hdashes, hdots⟩, hmark⟩, hspaced⟩,
      hindicator⟩
    refine ⟨fun d hd => ⟨hwritable d hd, hbreak d hd⟩, hhead, hlast, by simpa using hmark, ?_,
      hindicator, hdashes, hdots⟩
    intro hc
    rw [Bool.and_eq_false_iff] at hspaced
    exact hspaced.resolve_left (by grind)
  · intro h
    have hlastChar : isWrittenBreak (rest.getLast?.getD c) = false :=
      (h.chars _ (List.mem_of_mem_getLast? hlast)).2
    refine ⟨⟨⟨⟨fun d hd => (h.chars d hd).1, ?_⟩, fun d hd => (h.chars d hd).2⟩,
      ⟨h.head, (h.chars c List.mem_cons_self).2⟩, h.last, hlastChar⟩, ⟨⟨⟨h.dashes, h.dots⟩, ?_⟩, ?_⟩,
      h.indicator⟩
    · exact holdsBlankBesideBreak_of_no_break _ fun d hd => (h.chars d hd).2
    · simpa using h.mark
    · rw [Bool.and_eq_false_iff]
      by_cases hc : c = '?' ∨ c = ':' ∨ c = '-'
      · exact .inr (h.spaced hc)
      · exact .inl (by grind)

lemma IsPlainText.separator {c : Char} {rest : List Char} (h : IsPlainText c rest) :
    startsSeparator (c :: rest) = false := by
  rw [startsSeparator, h.dashes, h.dots]
  rfl

lemma IsPlainText.outside {c : Char} {rest : List Char} (h : IsPlainText c rest) :
    ∀ d ∈ c :: rest, isBreak d = false ∧ d ≠ '\t' := by
  intro d hd
  obtain ⟨hwritable, hbreak⟩ := h.chars d hd
  obtain ⟨hsame, htab, -⟩ := isWritable_spec d hwritable
  exact ⟨hsame.trans hbreak, htab⟩

/-! ## Reading -/

/-- What has been met behind a character of a plain scalar. -/
def gapBehind (c : Char) : WordGap := if c = ' ' then .blanks else .nothing

lemma startsWhite_append (cs rest : List Char) (h : startsWhite cs = false) :
    startsWhite (cs ++ rest) = false := by
  cases cs with
  | nil => cases h
  | cons c cs => exact h

/-- The characters of a plain scalar are read one by one. -/
lemma plainPieces_append (indent : Nat) (before : Char) (cs rest : List Char)
    (hcs : ∀ c ∈ cs, isBreak c = false ∧ c ≠ '\t') (hbefore : isWhite before = (before == ' '))
    (h : holdsIndicator before cs = false) :
    plainPieces false indent 0 (gapBehind before) (cs ++ rest) =
      (cs.map charPiece ++
          (plainPieces false indent 0 (gapBehind (cs.getLast?.getD before)) rest).1,
        cs.length + (plainPieces false indent 0 (gapBehind (cs.getLast?.getD before)) rest).2) := by
  induction cs generalizing before with
  | nil => simp
  | cons c cs ih =>
    rw [List.forall_mem_cons] at hcs
    simp only [holdsIndicator, Bool.or_eq_false_iff, Bool.and_eq_false_iff,
      decide_eq_false_iff_not] at h
    obtain ⟨⟨hcolon, hnumber⟩, hrest⟩ := h
    have hwhite : isWhite c = (c == ' ') := by
      simp [isWhite, hcs.1, beq_eq_decide]
    have hlast : ((c :: cs).getLast?).getD before = cs.getLast?.getD c := by
      rw [List.getLast?_cons]
      rfl
    have hmore := ih c hcs.2 hwhite hrest
    rw [hlast, List.cons_append, plainPieces]
    by_cases hblank : c = ' '
    · have hgap : (gapBehind before).addBlank = gapBehind c := by
        unfold gapBehind
        rw [if_pos hblank]
        split <;> rfl
      rw [if_pos hblank, hgap, hmore, List.map_cons, charPiece, if_pos hblank, List.length_cons,
        Nat.add_right_comm]
      rfl
    · have hends : (gapBehind before).ends false indent c = false := by
        unfold gapBehind
        split
        · next heq =>
          rw [hbefore, heq] at hnumber
          simpa [WordGap.ends] using hnumber
        · rfl
      have hword : endsWord false c (cs ++ rest) = false := by
        simp only [endsWord, hcs.1.2, decide_false, Bool.false_or, Bool.false_and, Bool.or_false,
          Bool.and_eq_false_iff, decide_eq_false_iff_not]
        exact hcolon.imp_right (startsWhite_append cs rest)
      have hgap : gapBehind c = .nothing := if_neg hblank
      rw [if_neg hblank, if_neg (by rw [hcs.1.1]; simp), hends, hword, ← hgap]
      simp only [Bool.or_self, Bool.false_eq_true, if_false]
      rw [hmore, List.map_cons, charPiece, if_neg hblank, List.length_cons, Nat.add_right_comm]
      rfl

/-- Whether a piece is a line break. -/
def isNewline : Piece → Bool
  | .newline _ => true
  | _ => false

lemma isChar_charPiece (c : Char) (h : c ≠ ' ') : (charPiece c).isChar = true := by
  rw [charPiece, if_neg h]
  rfl

/-- A plain scalar is read as it was, up to the pieces that do not belong to it. -/
lemma plainScalar_append (indent : Nat) (c : Char) (cs rest : List Char) (h : IsPlainText c cs)
    (gap : List Piece) (width : Nat)
    (hrest : plainPieces false indent 0 .nothing rest = (gap, width))
    (hgap : ∀ p ∈ gap, p.isChar = false) :
    plainScalar false indent (c :: cs ++ rest) =
      ⟨c :: cs, (c :: cs).length + width, gap.reverse.any isNewline⟩ := by
  have hindicator : holdsIndicator '.' (c :: cs) = false := by
    have hnumber : c ≠ '#' := by
      rintro rfl
      exact h.mark (by decide)
    simp only [holdsIndicator, h.indicator, hnumber, decide_false, Bool.false_and, Bool.or_false,
      Bool.and_eq_false_iff, decide_eq_false_iff_not]
    by_cases hcolon : c = ':'
    · exact .inr (h.spaced (.inr (.inl hcolon)))
    · exact .inl hcolon
  have hlast : gapBehind ((c :: cs).getLast?.getD '.') = .nothing := by
    rw [List.getLast?_cons]
    exact if_neg h.last
  have hpieces := plainPieces_append indent '.' (c :: cs) rest h.outside (by decide) hindicator
  rw [hlast, hrest] at hpieces
  obtain ⟨front, last, hsplit⟩ : ∃ front last, c :: cs = front ++ [last] :=
    ⟨_, _, (List.dropLast_append_getLast (List.cons_ne_nil c cs)).symm⟩
  have hchar : (charPiece last).isChar = true := by
    refine isChar_charPiece last ?_
    have heq : (c :: cs).getLast? = some (cs.getLast?.getD c) := List.getLast?_cons
    rw [hsplit, List.getLast?_concat] at heq
    rw [Option.some.inj heq]
    exact h.last
  have htake : (((c :: cs).map charPiece ++ gap).reverse.takeWhile (!·.isChar)) = gap.reverse := by
    rw [hsplit, List.map_append, List.reverse_append, List.reverse_append,
      List.takeWhile_append_of_pos]
    · simp [hchar]
    · intro p hp
      rw [hgap p (List.mem_reverse.mp hp)]
      rfl
  unfold plainScalar
  change plainPieces false indent 0 .nothing _ = _ at hpieces
  rw [hpieces]
  dsimp only
  rw [htake, List.length_reverse, List.length_append, Nat.add_sub_cancel, List.take_left, Gap.empty,
    folded_charPieces]
  rfl

/-- A plain scalar ends before a colon. -/
lemma plainScalar_key (indent : Nat) (c : Char) (cs rest : List Char) (h : IsPlainText c cs)
    (hrest : startsWhite rest = true) :
    plainScalar false indent (c :: cs ++ ':' :: rest) = ⟨c :: cs, (c :: cs).length, false⟩ := by
  refine plainScalar_append indent c cs _ h [] 0 ?_ (by simp)
  have hends : endsWord false ':' rest = true := by simp [endsWord, hrest]
  rw [plainPieces, if_neg (by decide), if_neg (by decide), hends, Bool.or_true, if_pos rfl]

/-- A character that starts a token: no blank, no comment, no line break and no byte order mark. -/
structure IsSolid (c : Char) : Prop where
  blank : c ≠ ' '
  comment : c ≠ '#'
  mark : c ≠ '\uFEFF'
  inline : isBreak c = false

instance (c : Char) : Decidable (IsSolid c) :=
  decidable_of_iff (c ≠ ' ' ∧ c ≠ '#' ∧ c ≠ '\uFEFF' ∧ isBreak c = false)
    ⟨fun h => ⟨h.1, h.2.1, h.2.2.1, h.2.2.2⟩, fun h => ⟨h.blank, h.comment, h.mark, h.inline⟩⟩

/-- A text that starts with a token, or is over. -/
def StartsSolid (cs : List Char) : Prop := ∀ c ∈ cs.head?, IsSolid c

lemma plainPieces_blanks (indent column count : Nat) (rest : List Char) (c : Char)
    (hc : IsSolid c) (hindent : column + count < indent) :
    plainPieces false indent 0 (.line column) (List.replicate count ' ' ++ c :: rest) =
      (List.replicate count (.blank ' '), count) := by
  induction count generalizing column with
  | zero =>
    have hends : (WordGap.line column).ends false indent c = true := by
      simpa [WordGap.ends] using Or.inr hindent
    rw [List.replicate_zero, List.nil_append, plainPieces, if_neg hc.blank,
      if_neg (by simp [hc.inline]), hends, Bool.true_or, if_pos rfl]
    rfl
  | succ count ih =>
    rw [List.replicate_succ, List.cons_append, plainPieces, if_pos rfl, WordGap.addBlank,
      ih (column + 1) (by omega), List.replicate_succ]

lemma isChar_of_mem_blanks (count : Nat) :
    ∀ p ∈ Piece.newline '\n' :: List.replicate count (.blank ' '), p.isChar = false := by
  rw [List.forall_mem_cons]
  refine ⟨rfl, fun p hp => ?_⟩
  rw [List.eq_of_mem_replicate hp]
  rfl

/-- What may stand behind a line in a collection whose items are indented by at least `indent`: nothing,
a line of smaller indentation, or a document separator. -/
inductive FollowsLine (indent : Nat) : Nat → List Char → Prop
  | last : FollowsLine indent 0 []
  | line (count : Nat) (c : Char) (rest : List Char) : IsSolid c → count < indent →
      FollowsLine indent count (c :: rest)
  | separator (rest : List Char) : startsSeparator rest = true → FollowsLine indent 0 rest

lemma FollowsLine.mono {indent indent' count : Nat} {tail : List Char} (hle : indent ≤ indent')
    (h : FollowsLine indent count tail) : FollowsLine indent' count tail := by
  cases h with
  | last => exact .last
  | line _ c rest hc hcount => exact .line count c rest hc (hcount.trans_le hle)
  | separator _ h => exact .separator _ h

lemma FollowsLine.startsSolid {indent count : Nat} {tail : List Char}
    (h : FollowsLine indent count tail) : StartsSolid tail := by
  cases h with
  | last => simp [StartsSolid]
  | line _ c rest hc =>
    intro d hd
    obtain rfl := Option.some.inj hd
    exact hc
  | separator _ h =>
    cases tail with
    | nil => cases h
    | cons c rest =>
      intro d hd
      obtain rfl := Option.some.inj hd
      by_cases hdash : c = '-'
      · subst hdash
        decide
      · by_cases hdot : c = '.'
        · subst hdot
          decide
        · rw [startsSeparator_of_ne c rest hdash hdot] at h
          cases h

/-- A plain scalar ends with its line, and the indentation of the next one is taken with it. -/
lemma plainScalar_line (indent count : Nat) (c : Char) (cs rest : List Char) (h : IsPlainText c cs)
    (hrest : FollowsLine indent count rest) :
    plainScalar false indent (c :: cs ++ (newLine count ++ rest)) =
      ⟨c :: cs, (c :: cs).length + (count + 1), true⟩ := by
  have hany : (Piece.newline '\n' :: List.replicate count (.blank ' ')).reverse.any isNewline =
      true := by
    simp [isNewline]
  have hpieces : plainPieces false indent 0 .nothing (newLine count ++ rest) =
      (.newline '\n' :: List.replicate count (.blank ' '), count + 1) := by
    rw [newLine, List.cons_append, plainPieces, if_neg (by decide), if_pos (by decide)]
    have hwidth : breakWidth ('\n' :: (List.replicate count ' ' ++ rest)) = 1 := rfl
    dsimp only
    rw [hwidth, Nat.sub_self, List.drop_zero]
    cases hrest with
    | last => rfl
    | line _ d more hd hindent =>
      by_cases hseparator : startsSeparator (List.replicate count ' ' ++ d :: more) = true
      · obtain rfl : count = 0 := by
          by_contra hne
          obtain ⟨count, rfl⟩ := Nat.exists_eq_succ_of_ne_zero hne
          exact absurd hseparator (by simp [List.replicate_succ, startsSeparator])
        rw [if_pos hseparator]
        rfl
      · rw [if_neg hseparator, plainPieces_blanks indent 0 count more d hd (by omega)]
        rfl
    | separator _ hseparator =>
      rw [List.replicate_zero, List.nil_append, if_pos hseparator]
      rfl
  rw [plainScalar_append indent c cs _ h _ _ hpieces (isChar_of_mem_blanks count), hany]

/-! ## Integers -/

lemma isDigit_spec (c : Char) (h : c.isDigit = true) : 48 ≤ c.toNat ∧ c.toNat ≤ 57 := by
  simpa [Char.isDigit, UInt32.le_iff_toNat_le] using h

lemma holdsIndicator_of_digits (before : Char) (cs : List Char) (h : ∀ c ∈ cs, c.isDigit = true) :
    holdsIndicator before cs = false := by
  induction cs generalizing before with
  | nil => rfl
  | cons c cs ih =>
    rw [List.forall_mem_cons] at h
    rw [holdsIndicator, ih c h.2]
    simp [isDigit_ne c ':' h.1 (by decide), isDigit_ne c '#' h.1 (by decide)]

/-- The digits of an integer, of which only a single one is a zero in front. -/
lemma toDigits_cons (n : Nat) : ∃ d ds, Nat.toDigits 10 n = d :: ds ∧
    (∀ c ∈ d :: ds, c.isDigit = true) ∧ (d = '0' → ds = []) := by
  have hdigits := isDigit_of_mem_toDigits_ten n
  rcases Nat.eq_zero_or_pos n with rfl | hn
  · exact ⟨'0', [], Nat.toDigits_zero 10, by simp, fun _ => rfl⟩
  · obtain ⟨d, ds, heq, hd⟩ := toDigits_start n hn
    exact ⟨d, ds, heq, heq ▸ hdigits, fun h => absurd h hd⟩

lemma isWritable_of_isDigit (c : Char) (h : c.isDigit = true) :
    isWritable c = true ∧ isWrittenBreak c = false ∧ c ≠ ' ' := by
  have hcode := isDigit_spec c h
  simp only [isWritable, isWrittenBreak, Bool.or_eq_true, Bool.and_eq_true, Bool.or_eq_false_iff,
    decide_eq_true_eq, decide_eq_false_iff_not, ne_eq, ← Char.toNat_inj, Char.reduceToNat]
  omega

/-- The sign and the digits of an integer. -/
lemma integerText_cases (n : Int) : ∃ sign d ds, integerText n = sign ++ d :: ds ∧
    (sign = [] ∧ n = n.natAbs ∨ sign = ['-'] ∧ n = -n.natAbs) ∧
      Nat.toDigits 10 n.natAbs = d :: ds ∧ (∀ c ∈ d :: ds, c.isDigit = true) ∧
      (d = '0' → ds = []) := by
  obtain ⟨d, ds, heq, hdigits, hzero⟩ := toDigits_cons n.natAbs
  unfold integerText
  split
  · exact ⟨['-'], d, ds, by rw [heq]; rfl, .inr ⟨rfl, by omega⟩, heq, hdigits, hzero⟩
  · exact ⟨[], d, ds, by rw [heq]; rfl, .inl ⟨rfl, by omega⟩, heq, hdigits, hzero⟩

lemma not_mem_leadingMarks (c : Char) (h : c.isDigit = true ∨ c = '-') : c ∉ leadingMarks := by
  intro hmem
  have hmarks : ∀ d ∈ leadingMarks, d.isDigit = false ∧ d ≠ '-' := by simp [leadingMarks]
  rcases h with h | h
  · exact isDigit_ne c c h (hmarks c hmem).1 rfl
  · exact (hmarks c hmem).2 h

/-- Digits, with or without a sign, may be plain. -/
lemma allowsPlain_integerText (n : Int) : allowsPlain (integerText n) = true := by
  obtain ⟨sign, d, ds, htext, hsign, -, hdigits, -⟩ := integerText_cases n
  have hd := hdigits d List.mem_cons_self
  have hchar : ∀ c ∈ d :: ds, isWritable c = true ∧ isWrittenBreak c = false ∧ c ≠ ' ' :=
    fun c hc => isWritable_of_isDigit c (hdigits c hc)
  have hwhite : startsWhite (d :: ds) = false := by
    obtain ⟨hwritable, hbreak, hblank⟩ := hchar d List.mem_cons_self
    obtain ⟨hsame, htab, -⟩ := isWritable_spec d hwritable
    simp [startsWhite, isWhite, hblank, htab, hsame, hbreak]
  have hlast : ds.getLast?.getD d ≠ ' ' := by
    have heq : (d :: ds).getLast? = some (ds.getLast?.getD d) := List.getLast?_cons
    exact (hchar _ (List.mem_of_mem_getLast? heq)).2.2
  rw [htext]
  rcases hsign with ⟨rfl, -⟩ | ⟨rfl, -⟩
  · rw [List.nil_append, allowsPlain_iff]
    refine ⟨fun c hc => ⟨(hchar c hc).1, (hchar c hc).2.1⟩, (hchar d List.mem_cons_self).2.2, hlast,
      not_mem_leadingMarks d (.inl hd), ?_, ?_, ?_, ?_⟩
    · rintro (h | h | h) <;> exact absurd h (isDigit_ne d _ hd (by decide))
    · exact holdsIndicator_of_digits d ds fun c hc => hdigits c (List.mem_cons_of_mem d hc)
    · simp [List.isPrefixOf, (isDigit_ne d '-' hd (by decide)).symm]
    · simp [List.isPrefixOf, (isDigit_ne d '.' hd (by decide)).symm]
  · rw [List.singleton_append, allowsPlain_iff]
    refine ⟨?_, by decide, ?_, not_mem_leadingMarks '-' (.inr rfl), fun _ => hwhite, ?_, ?_, ?_⟩
    · rw [List.forall_mem_cons]
      exact ⟨by decide, fun c hc => ⟨(hchar c hc).1, (hchar c hc).2.1⟩⟩
    · rwa [List.getLast?_cons]
    · exact holdsIndicator_of_digits '-' (d :: ds) hdigits
    · simp [List.isPrefixOf, (isDigit_ne d '-' hd (by decide)).symm]
    · simp [List.isPrefixOf]

/-- No word of null or of a truth value looks like a number. -/
lemma words_no_number : ∀ w ∈ nullWords ++ truthWords, ∀ c ∈ w.toList.head?,
    c.isDigit = false ∧ c ≠ '-' := by
  simp [nullWords, truthWords]

lemma isInteger_integerText (n : Int) : isInteger (integerText n) = true := by
  obtain ⟨sign, d, ds, htext, hsign, -, hdigits, hzero⟩ := integerText_cases n
  rw [List.forall_mem_cons] at hdigits
  have hunsigned : unsigned (integerText n) = d :: ds := by
    rw [htext]
    rcases hsign with ⟨rfl, -⟩ | ⟨rfl, -⟩
    · rw [List.nil_append, unsigned.eq_3]
      · rintro rest heq
        exact isDigit_ne d '-' hdigits.1 (by decide) (List.cons.inj heq).1
      · rintro rest heq
        exact isDigit_ne d '+' hdigits.1 (by decide) (List.cons.inj heq).1
    · rfl
  unfold isInteger
  rw [hunsigned]
  by_cases hd : d = '0'
  · rw [hd, hzero hd]
    rfl
  · have hall : ds.all isDigitOrBar = true := by
      rw [List.all_eq_true]
      intro c hc
      rw [isDigitOrBar, hdigits.2 c hc]
      rfl
    split
    · next heq => exact absurd (List.cons.inj heq).1 hd
    · next heq => exact absurd (List.cons.inj heq).1 hd
    · next heq => exact absurd (List.cons.inj heq).1 hd
    · next heq =>
      obtain ⟨rfl, rfl⟩ := List.cons.inj heq
      rw [hdigits.1, hall]
      rfl
    · next heq => cases heq

/-- The form of an integer suggests its tag. -/
lemma resolve_integerText (n : Int) : resolve (integerText n) = .int := by
  obtain ⟨sign, d, ds, htext, hsign, -, hdigits, hzero⟩ := integerText_cases n
  have hd := hdigits d List.mem_cons_self
  obtain ⟨c, cs, hcs, hc⟩ : ∃ c cs, integerText n = c :: cs ∧ (c.isDigit = true ∨ c = '-') := by
    rcases hsign with ⟨rfl, -⟩ | ⟨rfl, -⟩
    · exact ⟨d, ds, htext, .inl hd⟩
    · exact ⟨'-', d :: ds, htext, .inr rfl⟩
  have hword : String.ofList (integerText n) ∉ nullWords ++ truthWords := by
    intro hmem
    obtain ⟨hdigit, hdash⟩ := words_no_number _ hmem c (by rw [String.toList_ofList, hcs]; rfl)
    rcases hc with h | h
    · exact isDigit_ne c c h hdigit rfl
    · exact hdash h
  rw [List.mem_append, not_or] at hword
  have hlast : (integerText n).getLast? ≠ some '\n' := by
    have heq : (d :: ds).getLast? = some (ds.getLast?.getD d) := List.getLast?_cons
    have hdigit := hdigits _ (List.mem_of_mem_getLast? heq)
    have hne := isDigit_ne _ '\n' hdigit (by decide)
    rw [htext, List.getLast?_append, heq]
    simpa using hne
  have hform : formTag (integerText n) = .int := by
    rw [formTag, if_neg (by simpa using hword.1), if_neg (by simpa using hword.2),
      isInteger_integerText, if_pos rfl]
  unfold resolve
  rw [if_neg (by rw [hcs]; simp), if_neg, if_neg hlast, hform]
  intro heq
  rw [heq] at hlast
  exact hlast rfl

lemma digit_cases (c : Char) (h : c.isDigit = true) : ∃ d < 10, c = Nat.digitChar d := by
  obtain ⟨hlow, hhigh⟩ := isDigit_spec c h
  refine ⟨c.toNat - 48, by omega, ?_⟩
  have hcodes : ∀ d < 10, (Nat.digitChar d).toNat = d + 48 := by decide
  apply Char.toNat_inj.mp
  rw [hcodes _ (by omega)]
  omega

/-- A decimal digit is plain, no blank, and counts as itself. -/
lemma digit_spec : ∀ d < 10, Text.digitValue? (Nat.digitChar d) = some d ∧
    Text.isBlank (Nat.digitChar d) = false ∧ Numeral.letterValue (Nat.digitChar d) = d ∧
    (Nat.digitChar d).toNat - 48 = d := by
  decide

section Digits

variable {cs : List Char}

lemma digits_spec (h : ∀ c ∈ cs, c.isDigit = true) :
    ∀ c ∈ cs, ((Text.digitValue? c).map Nat.digitChar).getD c = c ∧ Text.isBlank c = false ∧
      Numeral.letterValue c < 10 ∧ Numeral.letterValue c = c.toNat - 48 := by
  intro c hc
  obtain ⟨d, hd, rfl⟩ := digit_cases c (h c hc)
  obtain ⟨hvalue, hblank, hletter, hcode⟩ := digit_spec d hd
  rw [hvalue, hletter, hcode]
  exact ⟨rfl, hblank, hd, rfl⟩

lemma plainDigits_digits (h : ∀ c ∈ cs, c.isDigit = true) : Numeral.plainDigits cs = cs :=
  (List.map_congr_left fun c hc => (digits_spec h c hc).1).trans (List.map_id' cs)

lemma trim_digits (h : ∀ c ∈ cs, c.isDigit = true) : Text.trim cs = cs := by
  refine trim_of_isTrimmed cs ⟨fun c hc => ?_, fun c hc => ?_⟩
  · exact (digits_spec h c (List.mem_of_mem_head? hc)).2.1
  · exact (digits_spec h c (List.mem_of_mem_getLast? hc)).2.1

lemma sign_digits (hne : cs ≠ []) (h : ∀ c ∈ cs, c.isDigit = true) :
    Numeral.sign cs = (false, cs) := by
  obtain ⟨c, rest, rfl⟩ := List.exists_cons_of_ne_nil hne
  have hc := h c List.mem_cons_self
  unfold Numeral.sign
  split
  · next heq => exact absurd (List.cons.inj heq).1 (isDigit_ne c _ hc (by decide))
  · next heq => exact absurd (List.cons.inj heq).1 (isDigit_ne c _ hc (by decide))
  · rfl

/-- No prefix stands for the base ten. -/
lemma dropBase_ten (cs : List Char) : Numeral.dropBase 10 cs = cs := by
  unfold Numeral.dropBase
  split
  · exact if_neg Bool.false_ne_true
  · rfl

lemma digitsValue_digits (h : ∀ c ∈ cs, c.isDigit = true) :
    Numeral.digitsValue 10 cs = Nat.ofDigitChars 10 cs 0 := by
  unfold Numeral.digitsValue Nat.ofDigitChars
  refine List.foldl_ext _ _ 0 fun n d hd => ?_
  rw [(digits_spec h d hd).2.2.2]
  rfl

/-- An integer in decimal is read as its value. -/
lemma integer?_digits (hne : cs ≠ []) (h : ∀ c ∈ cs, c.isDigit = true) :
    Numeral.integer? 10 cs = some (Nat.ofDigitChars 10 cs 0 : Int) := by
  have hany : cs.any (10 ≤ Numeral.letterValue ·) = false := by
    rw [List.any_eq_false]
    intro d hd
    have hvalue := (digits_spec h d hd).2.2.1
    simpa using hvalue
  unfold Numeral.integer?
  rw [plainDigits_digits h, trim_digits h, sign_digits hne h]
  dsimp only
  rw [dropBase_ten, hany, digitsValue_digits h, List.isEmpty_eq_false_iff.mpr hne]
  rfl

/-- Digits that start with no zero, or are a zero alone, are read in base ten. -/
lemma magnitude_digits (hne : cs ≠ []) (h : ∀ c ∈ cs, c.isDigit = true)
    (hzero : cs.head? = some '0' → cs = ['0']) :
    magnitude cs = .ok (Nat.ofDigitChars 10 cs 0 : Int) := by
  have hinteger : integerIn 10 cs = .ok (Nat.ofDigitChars 10 cs 0 : Int) := by
    rw [integerIn, integer?_digits hne h]
  have hcolon : cs.contains ':' = false := by
    rw [List.contains_eq_mem, decide_eq_false_iff_not]
    exact fun hmem => isDigit_ne ':' ':' (h _ hmem) (by decide) rfl
  by_cases hhead : cs.head? = some '0'
  · obtain rfl := hzero hhead
    rfl
  · unfold magnitude
    split
    · exact absurd rfl hne
    · exact absurd rfl hhead
    · exact absurd rfl hhead
    · exact absurd rfl hhead
    · exact absurd rfl hhead
    · rw [if_neg (by rw [hcolon]; exact Bool.false_ne_true), hinteger]

lemma signed_digits (hne : cs ≠ []) (h : ∀ c ∈ cs, c.isDigit = true) :
    signed cs = .ok (false, cs) := by
  obtain ⟨d, ds, rfl⟩ := List.exists_cons_of_ne_nil hne
  have hd := h d List.mem_cons_self
  unfold signed
  split
  · next heq => cases heq
  · next heq => exact absurd (List.cons.inj heq).1 (isDigit_ne d _ hd (by decide))
  · next heq => exact absurd (List.cons.inj heq).1 (isDigit_ne d _ hd (by decide))
  · rfl

end Digits

/-- The text of an integer is read as the integer. -/
lemma integerOf_integerText (n : Int) : integerOf (integerText n) = .ok n := by
  obtain ⟨sign, d, ds, htext, hsign, hn, hdigits, hzero⟩ := integerText_cases n
  have hmagnitude : magnitude (d :: ds) = .ok (n.natAbs : Int) := by
    rw [magnitude_digits (List.cons_ne_nil d ds) hdigits, ← hn, Nat.ofDigitChars_ten_toDigits]
    intro hhead
    obtain rfl := Option.some.inj hhead
    rw [hzero rfl]
  have hbars : withoutBars (integerText n) = integerText n := by
    rw [htext, withoutBars, List.filter_eq_self]
    intro c hc
    rw [decide_eq_true_eq]
    rcases List.mem_append.mp hc with hc | hc
    · rcases hsign with ⟨rfl, -⟩ | ⟨rfl, -⟩
      · cases hc
      · obtain rfl := List.mem_singleton.mp hc
        decide
    · exact isDigit_ne c '_' (hdigits c hc) (by decide)
  unfold integerOf
  rw [hbars, htext]
  rcases hsign with ⟨rfl, hvalue⟩ | ⟨rfl, hvalue⟩
  · rw [List.nil_append, signed_digits (List.cons_ne_nil d ds) hdigits, ok_bind]
    dsimp only
    rw [hmagnitude, ok_bind, ← hvalue]
    rfl
  · have hsigned : signed (['-'] ++ d :: ds) = .ok (true, d :: ds) := rfl
    rw [hsigned, ok_bind]
    dsimp only
    rw [hmagnitude, ok_bind, if_pos rfl, ← hvalue]
    rfl

end Rulebook.Proofs
