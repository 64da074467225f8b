import Mathlib
import Rulebook.Yaml.Writer
import Rulebook.Proofs.Json.Token

/-!
# Quoted scalars and back

What is written between double quotes is read as it was. What is written between apostrophes is read
with every next line (U+0085) turned into another break: it is written as it is, and counts as a line
feed when it is read.
-/

namespace Rulebook.Proofs
open Yaml

/-! ## Pieces -/

/-- A text reads as pieces, whatever stands behind it. -/
def ReadsPieces (mark : Char) (cs : List Char) (ps : List Piece) : Prop :=
  ∀ rest, quotedPieces mark 0 (cs ++ rest) =
    (quotedPieces mark 0 rest).map fun (qs, n) => (ps ++ qs, cs.length + n)

lemma readsPieces_nil (mark : Char) : ReadsPieces mark [] [] := by
  intro rest
  cases h : quotedPieces mark 0 rest with
  | error fault => simp [h, Except.map]
  | ok result => simp [h, Except.map]

lemma readsPieces_append (mark : Char) (cs ds : List Char) (ps qs : List Piece)
    (h : ReadsPieces mark cs ps) (h' : ReadsPieces mark ds qs) :
    ReadsPieces mark (cs ++ ds) (ps ++ qs) := by
  intro rest
  rw [List.append_assoc, h, h']
  cases quotedPieces mark 0 rest with
  | error fault => rfl
  | ok result => simp [Except.map, Nat.add_assoc]

lemma readsPieces_flatMap {mark : Char} {f : Char → List Char} {g : Char → Piece} (cs : List Char)
    (h : ∀ c ∈ cs, ReadsPieces mark (f c) [g c]) : ReadsPieces mark (cs.flatMap f) (cs.map g) := by
  induction cs with
  | nil => exact readsPieces_nil mark
  | cons c cs ih =>
    rw [List.forall_mem_cons] at h
    exact readsPieces_append mark _ _ [g c] _ h.1 (ih h.2)

lemma quotedPieces_skip (mark : Char) (cs rest : List Char) :
    quotedPieces mark cs.length (cs ++ rest) =
      (quotedPieces mark 0 rest).map fun (qs, n) => (qs, cs.length + n) := by
  induction cs with
  | nil =>
    cases h : quotedPieces mark 0 rest with
    | error fault => simp [h, Except.map]
    | ok result => simp [h, Except.map]
  | cons c cs ih =>
    rw [List.cons_append, List.length_cons, quotedPieces, ih]
    cases quotedPieces mark 0 rest with
    | error fault => rfl
    | ok result =>
      simp only [Except.map]
      rw [Nat.add_right_comm]

/-- A piece that is told from its own characters. -/
lemma readsPieces_piece (mark c : Char) (cs : List Char) (p : Piece)
    (h : ∀ rest, quotedPiece mark c (cs ++ rest) = .ok (some p, cs.length + 1)) :
    ReadsPieces mark (c :: cs) [p] := by
  intro rest
  rw [List.cons_append, quotedPieces, h rest]
  dsimp only
  rw [Nat.add_sub_cancel, quotedPieces_skip]
  cases quotedPieces mark 0 rest with
  | error fault => rfl
  | ok result =>
    simp only [Except.map, List.length_cons, List.singleton_append]
    rw [Nat.add_right_comm]

/-- The piece of a character that stands for itself. -/
def charPiece (c : Char) : Piece := if c = ' ' then .blank c else .char c

lemma readsPieces_char (mark c : Char) (hbreak : isBreak c = false) (htab : c ≠ '\t')
    (hmark : c ≠ mark) (hescape : mark = '"' → c ≠ '\\') : ReadsPieces mark [c] [charPiece c] := by
  apply readsPieces_piece
  intro rest
  unfold quotedPiece charPiece
  by_cases hblank : c = ' '
  · simp only [hbreak, Bool.false_eq_true, if_false]
    rw [if_pos (.inl hblank), if_pos hblank]
    rfl
  · simp only [hbreak, hblank, htab, hmark, Bool.false_eq_true, if_false, or_self, List.nil_append,
      List.length_nil]
    rw [if_neg]
    rintro ⟨hquote, hslash⟩
    exact hescape hquote hslash

/-- Characters that stand for themselves keep their blanks. -/
lemma folded_charPieces (blanks cs : List Char) :
    folded (.blanks blanks) (cs.map charPiece) = blanks ++ cs := by
  induction cs generalizing blanks with
  | nil => simp [folded, Gap.text]
  | cons c cs ih =>
    rw [List.map_cons]
    by_cases hblank : c = ' '
    · rw [charPiece, if_pos hblank, folded, Gap.addBlank, ih, List.append_assoc]
      rfl
    · rw [charPiece, if_neg hblank, folded, Gap.text, Gap.empty, ih]
      rfl

/-! ## Codes -/

lemma hexDigits_succ (width n : Nat) (hwidth : 0 < width) :
    Text.hexDigits (width + 1) n = Text.hexDigits width (n / 16) ++ [(n % 16).digitChar] := by
  unfold Text.hexDigits
  dsimp only
  by_cases hn : n < 16
  · rw [Nat.toDigits_of_lt_base hn, Nat.div_eq_of_lt hn, Nat.mod_eq_of_lt hn]
    obtain ⟨width, rfl⟩ := Nat.exists_eq_succ_of_ne_zero hwidth.ne'
    simp [List.replicate_succ', Nat.toDigits_of_lt_base]
  · rw [Nat.toDigits_of_base_le (by omega) (by omega), List.length_append, List.length_singleton,
      Nat.add_sub_add_right, List.append_assoc]

/-- The code that hexadecimal digits stand for. -/
def codeOf (digits : List Nat) : Nat := digits.foldl (fun n d => 16 * n + d) 0

lemma hexValue?_upper : ∀ d < 16, Text.hexValue? (Char.toUpper d.digitChar) = some d := by
  decide

/-- The digits of a code in upper case are so many as asked for, and have its value. -/
lemma mapM_hexValue?_upper (width n : Nat) (hn : n < 16 ^ (width + 1)) :
    ((Text.hexDigits (width + 1) n).map Char.toUpper).length = width + 1 ∧
      ∃ digits : List Nat,
        ((Text.hexDigits (width + 1) n).map Char.toUpper).mapM Text.hexValue? = some digits ∧
        codeOf digits = n ∧ digits.length = width + 1 := by
  induction width generalizing n with
  | zero =>
    have hdigit : Text.hexDigits 1 n = [n.digitChar] := by
      unfold Text.hexDigits
      rw [Nat.toDigits_of_lt_base (by simpa using hn)]
      rfl
    rw [hdigit]
    refine ⟨rfl, [n], ?_, by simp [codeOf], rfl⟩
    simp [hexValue?_upper n (by simpa using hn)]
  | succ width ih =>
    have hdiv : n / 16 < 16 ^ (width + 1) := by
      rw [Nat.div_lt_iff_lt_mul (by omega)]
      exact hn
    obtain ⟨hlength, digits, hdigits, hcode, hcount⟩ := ih (n / 16) hdiv
    rw [hexDigits_succ _ _ (by omega), List.map_append]
    refine ⟨by rw [List.length_append, hlength]; rfl, digits ++ [n % 16], ?_, ?_, ?_⟩
    · rw [List.mapM_append, hdigits]
      simp [hexValue?_upper (n % 16) (by omega)]
    · unfold codeOf at hcode ⊢
      rw [List.foldl_append, hcode]
      simp only [List.foldl_cons, List.foldl_nil]
      omega
    · rw [List.length_append, hcount]
      rfl

lemma codeChar_toNat (c : Char) : codeChar c.toNat = .ok c := by
  have hcode : c.toNat < 0xD800 ∨ 0xDFFF < c.toNat ∧ c.toNat < 0x110000 := c.valid
  unfold codeChar
  rw [if_neg (by omega), if_neg (by omega), if_neg (by omega), Char.ofNat_toNat]

lemma escapePiece_code (width : Nat) (letter c : Char) (rest : List Char)
    (hshort : shortEscapes.lookup letter = none)
    (hletter : codeLengths.lookup letter = some (width + 1)) (hcode : c.toNat < 16 ^ (width + 1)) :
    escapePiece (letter :: ((Text.hexDigits (width + 1) c.toNat).map Char.toUpper ++ rest)) =
      .ok (.char c, width + 3) := by
  obtain ⟨hlength, digits, hdigits, hvalue, hcount⟩ := mapM_hexValue?_upper width c.toNat hcode
  unfold codeOf at hvalue
  rw [escapePiece, hshort, hletter]
  dsimp only
  rw [List.take_left' hlength, hdigits]
  dsimp only
  rw [if_neg (by omega), hvalue, codeChar_toNat]
  rfl

/-! ## Double quotes -/

lemma lookup_shortEscapes : ∀ p ∈ writtenEscapes, shortEscapes.lookup p.2 = some p.1 := by
  decide

lemma mem_of_lookup {α β : Type} [BEq α] [LawfulBEq α] {entries : List (α × β)} {a : α} {b : β}
    (h : entries.lookup a = some b) : (a, b) ∈ entries := by
  obtain ⟨before, after, rfl, -⟩ := List.lookup_eq_some_iff.mp h
  simp

/-- An escape is read as its character. -/
lemma readsPieces_escape (c : Char) (cs : List Char)
    (h : ∀ rest, escapePiece (cs ++ rest) = .ok (.char c, cs.length + 1)) :
    ReadsPieces '"' ('\\' :: cs) [.char c] := by
  apply readsPieces_piece
  intro rest
  unfold quotedPiece
  simp only [h rest]
  rfl

lemma isBare_spec (c : Char) (h : isBare c = true) :
    isBreak c = false ∧ c ≠ '\t' ∧ c ≠ '"' ∧ c ≠ '\\' ∧ isReadable c = true := by
  simp only [isBare, isBreak, isReadable, List.contains_cons, List.contains_nil, Bool.or_false,
    Bool.and_eq_true, Bool.not_eq_true', Bool.or_eq_false_iff, beq_eq_false_iff_ne, Bool.or_eq_true,
    decide_eq_true_eq, decide_eq_false_iff_not, ne_eq, ← Char.toNat_inj, Char.reduceToNat] at h ⊢
  omega

lemma escapePiece_codeEscape (c : Char) (rest : List Char) :
    escapePiece (codeEscape c.toNat ++ rest) =
      .ok (.char c, (codeEscape c.toNat).length + 1) := by
  have hcode : c.toNat < 0xD800 ∨ 0xDFFF < c.toNat ∧ c.toNat < 0x110000 := c.valid
  have hlength (width : Nat) (h : c.toNat < 16 ^ (width + 1)) :=
    (mapM_hexValue?_upper width c.toNat h).1
  unfold codeEscape
  dsimp only
  split
  · rw [List.cons_append, escapePiece_code 1 'x' c rest rfl rfl (by omega), List.length_cons,
      hlength 1 (by omega)]
  · split
    · rw [List.cons_append, escapePiece_code 3 'u' c rest rfl rfl (by omega), List.length_cons,
        hlength 3 (by omega)]
    · rw [List.cons_append, escapePiece_code 7 'U' c rest rfl rfl (by omega), List.length_cons,
        hlength 7 (by omega)]

/-- A character between double quotes is read as itself. -/
lemma readsPieces_quotedChar (c : Char) : ReadsPieces '"' (quotedChar c) [charPiece c] := by
  unfold quotedChar
  split
  · next hbare =>
    obtain ⟨hbreak, htab, hquote, hslash, -⟩ := isBare_spec c hbare
    exact readsPieces_char '"' c hbreak htab hquote fun _ => hslash
  · next hbare =>
    have hblank : c ≠ ' ' := by
      rintro rfl
      exact hbare rfl
    rw [charPiece, if_neg hblank]
    cases hlookup : writtenEscapes.lookup c with
    | some e =>
      apply readsPieces_escape
      intro rest
      rw [List.cons_append, escapePiece, lookup_shortEscapes _ (mem_of_lookup hlookup)]
      rfl
    | none => exact readsPieces_escape c _ (escapePiece_codeEscape c)

/-- What is written between double quotes is read as it was. -/
lemma quotedScalar_doubleQuotes (cs rest : List Char) :
    quotedScalar '"' (cs.flatMap quotedChar ++ '"' :: rest) =
      .ok (cs, (cs.flatMap quotedChar).length + 1) := by
  have hpieces := readsPieces_flatMap cs fun c _ => readsPieces_quotedChar c
  have hclose : quotedPieces '"' 0 ('"' :: rest) = .ok ([], 1) := rfl
  unfold quotedScalar
  rw [hpieces, hclose]
  simp only [Except.map, List.append_nil]
  rw [Gap.empty, folded_charPieces]
  rfl

/-! ## Apostrophes -/

/-- What line breaks between apostrophes are read as: a next line counts as a line feed, of which one
is dropped in front of others, and becomes a blank where it stands alone. -/
def readBreaks (breaks : List Char) : List Char :=
  if breaks.head? = some '\x85' then
    if breaks.tail.isEmpty then [' '] else breaks.tail.map breakChar
  else breaks.map breakChar

/-- What a text between apostrophes is read as, of which the line breaks before it are given. -/
def readApostrophes : List Char → List Char → List Char
  | breaks, [] => readBreaks breaks
  | breaks, c :: rest =>
    if isWrittenBreak c then readApostrophes (breaks ++ [c]) rest
    else readBreaks breaks ++ c :: readApostrophes [] rest

/-- The pieces of line breaks and of the indentation behind them. -/
def breakPieces (indent : Nat) (breaks : List Char) : List Piece :=
  if breaks.isEmpty then []
  else (if breaks.head? = some '\n' then [.newline '\n'] else []) ++
    breaks.map (fun c => .newline (breakChar c)) ++ List.replicate indent (.blank ' ')

/-- The pieces of a text between apostrophes, of which the line breaks before it are given. -/
def apostrophePieces (indent : Nat) : List Char → List Char → List Piece
  | breaks, [] => breakPieces indent breaks
  | breaks, c :: rest =>
    if isWrittenBreak c then apostrophePieces indent (breaks ++ [c]) rest
    else breakPieces indent breaks ++ charPiece c :: apostrophePieces indent [] rest

lemma isBreak_of_isWrittenBreak (b : Char) (h : isWrittenBreak b = true) :
    isBreak b = true ∧ b ≠ '\r' ∧ b ≠ '-' ∧ b ≠ '.' := by
  simp only [isWrittenBreak, isBreak, Bool.or_eq_true, decide_eq_true_eq, ne_eq,
    ← Char.toNat_inj, Char.reduceToNat] at h ⊢
  omega

lemma breakWidth_of_ne (b : Char) (rest : List Char) (h : b ≠ '\r') :
    breakWidth (b :: rest) = 1 := by
  unfold breakWidth
  split
  · next heq => exact absurd (List.cons.inj heq).1 h
  · rfl

lemma startsSeparator_of_ne (c : Char) (rest : List Char) (h : c ≠ '-') (h' : c ≠ '.') :
    startsSeparator (c :: rest) = false := by
  simp [startsSeparator, h.symm, h'.symm]

lemma isWritable_spec (c : Char) (h : isWritable c = true) :
    isBreak c = isWrittenBreak c ∧ c ≠ '\t' ∧ c ≠ '\uFEFF' ∧ isReadable c = true := by
  rw [Bool.eq_iff_iff]
  simp only [isWritable, isWrittenBreak, isBreak, isReadable, Bool.or_eq_true, Bool.and_eq_true,
    decide_eq_true_eq, ne_eq, ← Char.toNat_inj, Char.reduceToNat] at h ⊢
  omega

lemma readsPieces_break (mark b c : Char) (rest : List Char) (hb : isWrittenBreak b = true)
    (hc : c ≠ '-') (hc' : c ≠ '.') :
    quotedPieces mark 0 (b :: c :: rest) =
      (quotedPieces mark 0 (c :: rest)).map fun (qs, n) => (.newline (breakChar b) :: qs, n + 1) := by
  obtain ⟨hbreak, hreturn, -, -⟩ := isBreak_of_isWrittenBreak b hb
  rw [quotedPieces, quotedPiece]
  simp [hbreak, breakPiece, breakWidth_of_ne b _ hreturn, startsSeparator_of_ne c rest hc hc',
    Except.map]

lemma readsPieces_blanks (count : Nat) :
    ReadsPieces '\'' (List.replicate count ' ') (List.replicate count (.blank ' ')) := by
  have hblank : ∀ c ∈ List.replicate count ' ', ReadsPieces '\'' [c] [charPiece c] := by
    intro c hc
    obtain rfl := List.eq_of_mem_replicate hc
    exact readsPieces_char '\'' ' ' (by decide) (by decide) (by decide) (by simp)
  have h := readsPieces_flatMap _ hblank
  rwa [List.flatMap_singleton', List.map_replicate] at h

/-- Line breaks with blanks behind them are read one by one. -/
lemma readsPieces_breaks (count : Nat) (breaks : List Char)
    (h : ∀ b ∈ breaks, isWrittenBreak b = true) :
    ReadsPieces '\'' (breaks ++ List.replicate (count + 1) ' ')
      (breaks.map (fun b => .newline (breakChar b)) ++
        List.replicate (count + 1) (.blank ' ')) := by
  induction breaks with
  | nil => exact readsPieces_blanks (count + 1)
  | cons b breaks ih =>
    rw [List.forall_mem_cons] at h
    intro rest
    have hnext : ∃ c more, breaks ++ List.replicate (count + 1) ' ' ++ rest = c :: more ∧
        c ≠ '-' ∧ c ≠ '.' := by
      cases breaks with
      | nil => exact ⟨' ', _, rfl, by decide, by decide⟩
      | cons c more =>
        obtain ⟨-, -, hdash, hdot⟩ := isBreak_of_isWrittenBreak c (h.2 c List.mem_cons_self)
        exact ⟨c, _, rfl, hdash, hdot⟩
    obtain ⟨c, more, hmore, hdash, hdot⟩ := hnext
    have hrest := ih h.2 rest
    rw [hmore] at hrest
    rw [List.cons_append, List.cons_append, hmore, readsPieces_break _ b c more h.1 hdash hdot, hrest]
    cases quotedPieces '\'' 0 rest with
    | error fault => rfl
    | ok result =>
      simp only [Except.map, List.map_cons, List.cons_append, List.length_cons]
      rw [Nat.add_right_comm]

lemma readsPieces_writtenBreaks (indent : Nat) (breaks : List Char)
    (h : ∀ b ∈ breaks, isWrittenBreak b = true) :
    ReadsPieces '\'' (if breaks.isEmpty then [] else writtenBreaks (indent + 1) breaks)
      (breakPieces (indent + 1) breaks) := by
  unfold breakPieces writtenBreaks
  split
  · exact readsPieces_nil '\''
  · split
    · exact readsPieces_breaks indent ('\n' :: breaks) (List.forall_mem_cons.mpr ⟨by decide, h⟩)
    · exact readsPieces_breaks indent breaks h

/-- What is written between apostrophes is read piece by piece. -/
lemma readsPieces_apostropheText (indent : Nat) (breaks cs : List Char)
    (hbreaks : ∀ b ∈ breaks, isWrittenBreak b = true) (hcs : ∀ c ∈ cs, isWritable c = true) :
    ReadsPieces '\'' (apostropheText (indent + 1) breaks cs)
      (apostrophePieces (indent + 1) breaks cs) := by
  induction cs generalizing breaks with
  | nil => exact readsPieces_writtenBreaks indent breaks hbreaks
  | cons c rest ih =>
    rw [List.forall_mem_cons] at hcs
    rw [apostropheText, apostrophePieces]
    split
    · next hbreak =>
      refine ih (breaks ++ [c]) ?_ hcs.2
      exact List.forall_mem_append.mpr ⟨hbreaks, List.forall_mem_singleton.mpr hbreak⟩
    · next hbreak =>
      rw [List.append_assoc]
      refine readsPieces_append _ _ _ _ _ (readsPieces_writtenBreaks indent breaks hbreaks) ?_
      refine readsPieces_append _ _ _ [charPiece c] _ ?_ (ih [] (by simp) hcs.2)
      split
      · next hmark =>
        subst hmark
        exact readsPieces_piece _ _ _ _ fun rest => rfl
      · next hmark =>
        obtain ⟨hsame, htab, -⟩ := isWritable_spec c hcs.1
        rw [Bool.not_eq_true, ← hsame] at hbreak
        exact readsPieces_char '\'' c hbreak htab hmark (by simp)

lemma folded_newlines (first : Option Char) (more breaks : List Char) (ps : List Piece) :
    folded (.breaks first more) (breaks.map (fun b => .newline (breakChar b)) ++ ps) =
      folded (.breaks first (more ++ breaks.map breakChar)) ps := by
  induction breaks generalizing more with
  | nil => rw [List.map_nil, List.map_nil, List.nil_append, List.append_nil]
  | cons b breaks ih =>
    rw [List.map_cons, List.cons_append, folded, Gap.addBreak, ih, List.map_cons, List.append_assoc]
    rfl

lemma folded_blanks (first : Option Char) (more : List Char) (count : Nat) (ps : List Piece) :
    folded (.breaks first more) (List.replicate count (.blank ' ') ++ ps) =
      folded (.breaks first more) ps := by
  induction count with
  | zero => rfl
  | succ count ih => exact ih

/-- The first line break behind a gap without blanks, with those behind it and the indentation. -/
lemma folded_firstNewline (indent : Nat) (c : Char) (breaks : List Char) (ps : List Piece) :
    folded .empty (.newline c :: breaks.map (fun b => .newline (breakChar b)) ++
        List.replicate indent (.blank ' ') ++ ps) =
      folded (.breaks (some c) (breaks.map breakChar)) ps := by
  rw [List.append_assoc]
  calc folded .empty (.newline c :: breaks.map (fun b => .newline (breakChar b)) ++
          (List.replicate indent (.blank ' ') ++ ps))
      = folded (.breaks (some c) []) (breaks.map (fun b => .newline (breakChar b)) ++
          (List.replicate indent (.blank ' ') ++ ps)) := rfl
    _ = folded (.breaks (some c) (breaks.map breakChar)) ps := by
        rw [folded_newlines, folded_blanks, List.nil_append]

/-- Line breaks with their indentation fold to a gap. -/
lemma folded_breakPieces (indent : Nat) (breaks : List Char) (hne : breaks ≠ [])
    (h : ∀ b ∈ breaks, isWrittenBreak b = true) :
    ∃ gap : Gap, gap.text = readBreaks breaks ∧
      ∀ ps, folded .empty (breakPieces indent breaks ++ ps) = folded gap ps := by
  obtain ⟨b, breaks, rfl⟩ := List.exists_cons_of_ne_nil hne
  by_cases hfeed : b = '\n'
  · subst hfeed
    exact ⟨.breaks (some '\n') (('\n' :: breaks).map breakChar), rfl,
      fun ps => folded_firstNewline indent '\n' ('\n' :: breaks) ps⟩
  · refine ⟨.breaks (some (breakChar b)) (breaks.map breakChar), ?_, fun ps => ?_⟩
    · by_cases hnext : b = '\x85'
      · subst hnext
        cases breaks <;> rfl
      · have hb := h b List.mem_cons_self
        have hsame : breakChar b = b := if_pos (by simpa [isWrittenBreak, hfeed, hnext] using hb)
        rw [Gap.text, hsame, if_pos hfeed, readBreaks, if_neg (by simpa using hnext), List.map_cons,
          hsame]
    · rw [← folded_firstNewline indent, breakPieces, if_neg (by simp), if_neg (by simpa using hfeed),
        List.nil_append]
      rfl

lemma holdsBlankBesideBreak_cons (c : Char) (rest : List Char)
    (h : holdsBlankBesideBreak (c :: rest) = false) :
    holdsBlankBesideBreak rest = false ∧ (isWrittenBreak c = true → rest.head? ≠ some ' ') ∧
      (c = ' ' → ∀ d ∈ rest.head?, isWrittenBreak d = false) := by
  cases rest with
  | nil => simp [holdsBlankBesideBreak]
  | cons d rest =>
    simp only [holdsBlankBesideBreak, Bool.or_eq_false_iff, Bool.and_eq_false_iff,
      decide_eq_false_iff_not] at h
    refine ⟨h.2, fun hc => ?_, fun hc => ?_⟩
    · simpa [hc] using h.1.2
    · simpa [hc] using h.1.1

/-- The pieces between apostrophes fold to what the text is read as. Before it stand line breaks,
which no blank follows, or blanks, which no line break follows. -/
lemma folded_apostrophePieces (indent : Nat) (cs : List Char)
    (hcs : holdsBlankBesideBreak cs = false) :
    (∀ breaks, breaks ≠ [] → (∀ b ∈ breaks, isWrittenBreak b = true) → cs.head? ≠ some ' ' →
        folded .empty (apostrophePieces indent breaks cs) = readApostrophes breaks cs) ∧
      ∀ blanks, (blanks ≠ [] → ∀ c ∈ cs.head?, isWrittenBreak c = false) →
        folded (.blanks blanks) (apostrophePieces indent [] cs) =
          blanks ++ readApostrophes [] cs := by
  induction cs with
  | nil =>
    constructor
    · intro breaks hne hbreaks _
      obtain ⟨gap, hgap, hfold⟩ := folded_breakPieces indent breaks hne hbreaks
      rw [apostrophePieces, readApostrophes, ← hgap, ← List.append_nil (breakPieces indent breaks),
        hfold, folded]
    · intro blanks _
      rw [apostrophePieces, readApostrophes]
      exact (List.append_nil blanks).symm
  | cons c rest ih =>
    obtain ⟨hrest, hbeside, hblank⟩ := holdsBlankBesideBreak_cons c rest hcs
    obtain ⟨ihbreaks, ihblanks⟩ := ih hrest
    have hplain := ihblanks [] (by simp)
    constructor
    · intro breaks hne hbreaks hhead
      rw [apostrophePieces, readApostrophes]
      split
      · next hbreak =>
        refine ihbreaks _ (by simp) ?_ (hbeside hbreak)
        exact List.forall_mem_append.mpr ⟨hbreaks, List.forall_mem_singleton.mpr hbreak⟩
      · have hc : c ≠ ' ' := by simpa using hhead
        obtain ⟨gap, hgap, hfold⟩ := folded_breakPieces indent breaks hne hbreaks
        rw [hfold, charPiece, if_neg hc, folded, hgap, Gap.empty, hplain]
        rfl
    · intro blanks hblanks
      rw [apostrophePieces, readApostrophes]
      split
      · next hbreak =>
        have hnone : blanks = [] := by
          by_contra hne
          simpa [hbreak] using hblanks hne c rfl
        subst hnone
        refine ihbreaks [c] (by simp) (List.forall_mem_singleton.mpr hbreak) (hbeside hbreak)
      · by_cases hc : c = ' '
        · have hmore := ihblanks (blanks ++ [c]) fun _ => hblank hc
          rw [charPiece, if_pos hc]
          change folded (.blanks (blanks ++ [c])) _ = _
          rw [hmore, List.append_assoc]
          rfl
        · rw [charPiece, if_neg hc]
          change blanks ++ c :: folded (.blanks []) _ = _
          rw [hplain]
          rfl

/-- What is written between apostrophes is read as every next line counts as a line feed. -/
lemma quotedScalar_apostrophes (indent : Nat) (cs rest : List Char)
    (hcs : allowsApostrophes cs = true) (hrest : rest.head? ≠ some '\'') :
    quotedScalar '\'' (apostropheText (indent + 1) [] cs ++ '\'' :: rest) =
      .ok (readApostrophes [] cs, (apostropheText (indent + 1) [] cs).length + 1) := by
  rw [allowsApostrophes, Bool.and_eq_true, List.all_eq_true, Bool.not_eq_true'] at hcs
  have hpieces := readsPieces_apostropheText indent [] cs (by simp) hcs.1
  have hclose : quotedPieces '\'' 0 ('\'' :: rest) = .ok ([], 1) := by
    have hopen : isBreak '\'' = false := by decide
    rw [quotedPieces, quotedPiece]
    simp [hrest, hopen]
  unfold quotedScalar
  rw [hpieces, hclose]
  simp only [Except.map, List.append_nil]
  have hfold := (folded_apostrophePieces (indent + 1) cs hcs.2).2 [] (by simp)
  rw [Gap.empty, hfold]
  rfl

/-! ## Next lines -/

lemma breakChar_of_isWrittenBreak (b : Char) (h : isWrittenBreak b = true) (hnext : b ≠ '\x85') :
    breakChar b = b := by
  unfold breakChar
  split
  · rfl
  · next hsep =>
    rw [not_or] at hsep
    simp only [isWrittenBreak, hnext, hsep, decide_false, Bool.or_false, decide_eq_true_eq] at h
    exact h.symm

lemma readBreaks_of_not_mem (breaks : List Char) (h : ∀ b ∈ breaks, isWrittenBreak b = true)
    (hnext : '\x85' ∉ breaks) : readBreaks breaks = breaks := by
  unfold readBreaks
  rw [if_neg fun hhead : breaks.head? = _ => hnext (List.mem_of_mem_head? hhead)]
  refine (List.map_congr_left fun b hb => ?_).trans (List.map_id' breaks)
  exact breakChar_of_isWrittenBreak b (h b hb) fun heq => hnext (heq ▸ hb)

/-- A text without next lines is read as it is. -/
lemma readApostrophes_of_not_mem (breaks cs : List Char)
    (hbreaks : ∀ b ∈ breaks, isWrittenBreak b = true) (h : '\x85' ∉ breaks ++ cs) :
    readApostrophes breaks cs = breaks ++ cs := by
  induction cs generalizing breaks with
  | nil =>
    rw [List.append_nil] at h ⊢
    exact readBreaks_of_not_mem breaks hbreaks h
  | cons c rest ih =>
    have hrest : '\x85' ∉ rest := fun hmem => h (by simp [hmem])
    rw [readApostrophes]
    split
    · next hbreak =>
      rw [ih (breaks ++ [c]), List.append_assoc]
      · rfl
      · exact List.forall_mem_append.mpr ⟨hbreaks, List.forall_mem_singleton.mpr hbreak⟩
      · rwa [List.append_assoc]
    · rw [readBreaks_of_not_mem breaks hbreaks fun hmem => h (by simp [hmem]), ih [] (by simp) hrest]
      rfl

lemma not_mem_readBreaks (breaks : List Char) : '\x85' ∉ readBreaks breaks := by
  have hmap (cs : List Char) : '\x85' ∉ cs.map breakChar := by
    intro hmem
    obtain ⟨b, -, hb⟩ := List.mem_map.mp hmem
    unfold breakChar at hb
    split at hb
    · next hsep =>
      subst hb
      revert hsep
      decide
    · exact absurd hb (by decide)
  unfold readBreaks
  split
  · split
    · decide
    · exact hmap _
  · exact hmap _

/-- No next line is left of a text between apostrophes. -/
lemma not_mem_readApostrophes (breaks cs : List Char) : '\x85' ∉ readApostrophes breaks cs := by
  induction cs generalizing breaks with
  | nil => exact not_mem_readBreaks breaks
  | cons c rest ih =>
    rw [readApostrophes]
    split
    · exact ih _
    · next hbreak =>
      rw [List.mem_append, List.mem_cons]
      rintro (hmem | hmem | hmem)
      · exact not_mem_readBreaks breaks hmem
      · subst hmem
        exact hbreak (by decide)
      · exact ih [] hmem

end Rulebook.Proofs
