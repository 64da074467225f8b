import Mathlib
import Rulebook.Yaml.Token.Scan
import Rulebook.Proofs.Outcome
import Rulebook.Proofs.Yaml.Plain

/-!
# Scanning token by token

How the scanner goes to a token and past it, for the tokens that are written.
-/

namespace Rulebook.Proofs
open Yaml Scanner

/-! ## Places -/

lemma rest_next (c : Cursor) : c.next.rest = c.rest.drop 1 := by
  unfold Cursor.next
  split
  · next heq => rw [heq]; rfl
  · next heq =>
    rw [heq]
    split <;> rfl

lemma rest_advance (count : Nat) (c : Cursor) : (c.advance count).rest = c.rest.drop count := by
  induction count generalizing c with
  | zero => rfl
  | succ count ih => rw [Cursor.advance, ih, rest_next, List.drop_drop, Nat.add_comm]

lemma line_le_next (c : Cursor) : c.line ≤ c.next.line := by
  unfold Cursor.next
  split
  · exact le_rfl
  · split
    · exact Nat.le_succ _
    · exact le_rfl

lemma line_le_advance (count : Nat) (c : Cursor) : c.line ≤ (c.advance count).line := by
  induction count generalizing c with
  | zero => exact le_rfl
  | succ count ih => exact (line_le_next c).trans (ih c.next)

lemma advance_add (m n : Nat) (c : Cursor) : c.advance (m + n) = (c.advance m).advance n := by
  induction m generalizing c with
  | zero => rw [Nat.zero_add]; rfl
  | succ m ih => rw [Nat.succ_add, Cursor.advance, ih]; rfl

/-- Characters that end no line take a column each. -/
lemma advance_inline (cs rest : List Char) (c : Cursor) (hc : c.rest = cs ++ rest)
    (hcs : ∀ d ∈ cs, isBreak d = false ∧ d ≠ '\uFEFF') :
    c.advance cs.length = ⟨rest, c.offset + cs.length, c.line, c.column + cs.length⟩ := by
  induction cs generalizing c with
  | nil =>
    rw [List.nil_append] at hc
    rw [← hc]
    rfl
  | cons d cs ih =>
    rw [List.forall_mem_cons] at hcs
    have hnext : c.next = ⟨cs ++ rest, c.offset + 1, c.line, c.column + 1⟩ := by
      unfold Cursor.next
      rw [hc]
      simp only [List.cons_append, hcs.1.1, Bool.false_and, Bool.false_eq_true, if_false]
      rw [if_neg hcs.1.2]
    rw [List.length_cons, Cursor.advance, ih _ (by rw [hnext]) hcs.2, hnext]
    simp only [Cursor.mk.injEq, true_and]
    omega

/-- A line break leads to the next line, and the blanks behind it to their column. -/
lemma advance_newLine (count : Nat) (rest : List Char) (c : Cursor)
    (hc : c.rest = newLine count ++ rest) :
    c.advance (count + 1) = ⟨rest, c.offset + (count + 1), c.line + 1, count⟩ := by
  have hnext : c.next = ⟨List.replicate count ' ' ++ rest, c.offset + 1, c.line + 1, 0⟩ := by
    unfold Cursor.next
    rw [hc]
    rfl
  have hblanks := advance_inline (List.replicate count ' ') rest c.next (by rw [hnext]) (by
    intro d hd
    rw [List.eq_of_mem_replicate hd]
    decide)
  rw [List.length_replicate] at hblanks
  rw [Cursor.advance, hblanks, hnext]
  simp only [Cursor.mk.injEq, true_and]
  omega

/-! ## Gaps -/

lemma gapWidth_solid (cs : List Char) (h : StartsSolid cs) : gapWidth false cs = (0, false) := by
  cases cs with
  | nil => rfl
  | cons c cs =>
    obtain ⟨hblank, hcomment, -, hbreak⟩ := h c rfl
    rw [gapWidth, hbreak]
    simp [hblank, hcomment]

lemma gapWidth_blanks (count : Nat) (cs : List Char) (h : StartsSolid cs) :
    gapWidth false (List.replicate count ' ' ++ cs) = (count, false) := by
  induction count with
  | zero => exact gapWidth_solid cs h
  | succ count ih =>
    rw [List.replicate_succ, List.cons_append, gapWidth, if_neg (by decide)]
    simp [ih]

lemma gapWidth_newLine (count : Nat) (cs : List Char) (h : StartsSolid cs) :
    gapWidth false (newLine count ++ cs) = (count + 1, true) := by
  rw [newLine, List.cons_append, gapWidth, if_pos (by decide), gapWidth_blanks count cs h]

/-- Goes to the next token, and closes the block collections that end before it. -/
def prepare (s : Scanner) : Except Yaml.Fault Scanner := do
  let s ← s.dropStale
  let s ← s.skipGap.dropStale
  pure (s.closeBlocks fun column => s.cursor.column < column)

/-- One token is scanned, and it is not the last one. -/
def Steps (s t : Scanner) : Prop :=
  ∃ r c rest, prepare s = .ok r ∧ r.cursor.rest = c :: rest ∧ r.token c rest = .ok t ∧
    t.cursor.rest.length ≤ rest.length ∧ t.tokens.head?.any Scanner.run.isLast = false

lemma length_rest_skipGap (s : Scanner) :
    s.skipGap.cursor.rest.length ≤ s.cursor.rest.length := by
  unfold skipGap
  dsimp only
  rw [rest_advance, List.length_drop]
  split
  · rw [rest_next, List.length_drop]
    omega
  · omega

lemma cursor_dropStale (s s' : Scanner) (h : s.dropStale = .ok s') : s'.cursor = s.cursor := by
  unfold dropStale at h
  dsimp only at h
  split at h
  · cases h
  · rw [← Except.ok.inj h]

lemma cursor_closeBlocks (s : Scanner) (isClosed : Nat → Bool) :
    (s.closeBlocks isClosed).cursor = s.cursor := by
  unfold closeBlocks
  split <;> rfl

/-- What comes of a step is told by the token behind the gap. -/
lemma step_of_prepare (s r : Scanner) (hr : prepare s = .ok r) :
    r.cursor.rest.length ≤ s.cursor.rest.length ∧
      ∃ s', s.dropStale = .ok s' ∧
        s'.step = match r.cursor.rest with
          | [] => do
            let r ← r.boundary
            pure (r.take 0 .streamEnd)
          | c :: rest => r.token c rest := by
  obtain ⟨s', hs', hr⟩ := ok_of_bind hr
  obtain ⟨gone, hgone, hr⟩ := ok_of_bind hr
  obtain rfl : gone.closeBlocks (gone.cursor.column < ·) = r := Except.ok.inj hr
  refine ⟨?_, s', hs', ?_⟩
  · rw [cursor_closeBlocks, cursor_dropStale _ _ hgone, ← cursor_dropStale _ _ hs']
    exact length_rest_skipGap s'
  · conv_lhs => rw [step, hgone]
    rfl

lemma run_of_steps (s t : Scanner) (h : Steps s t) : s.run = t.run := by
  obtain ⟨r, c, rest, hr, hrest, htoken, hlength, hlast⟩ := h
  obtain ⟨hshorter, s', hs', hstep⟩ := step_of_prepare s r hr
  rw [hrest, List.length_cons] at hshorter
  rw [hrest] at hstep
  have hstep : s'.step = .ok t := hstep.trans htoken
  rw [Scanner.run, hs']
  dsimp only
  rw [hstep]
  dsimp only
  rw [if_pos ⟨by omega, hlast⟩]

lemma run_of_reaches (s t : Scanner) (h : Relation.ReflTransGen Steps s t) : s.run = t.run := by
  induction h with
  | refl => rfl
  | tail _ hstep ih => exact ih.trans (run_of_steps _ _ hstep)

/-! ## Standing before a token -/

/-- The scanner stands before a text in a column, with block collections open and tokens scanned, and
no key is pending. -/
structure Standing (s : Scanner) (cs : List Char) (column : Nat) (blocks : List Nat)
    (tokens : List Token) (allowed : Bool) : Prop where
  rest : s.cursor.rest = cs
  column : s.cursor.column = column
  blocks : s.blocks = blocks
  tokens : s.tokens = tokens
  allowed : s.keyAllowed = allowed
  place : s.place = none
  outer : s.outer = []

lemma dropStale_of_free (s : Scanner) (houter : s.outer = [])
    (hplace : ∀ p ∈ s.place, p.required = false) :
    s.dropStale = .ok { s with place := s.place.filter (!·.isStale s.cursor) } := by
  have hany : (s.place :: s.outer).any
      (·.any fun p => p.required && p.isStale s.cursor) = false := by
    rw [houter, List.any_cons, List.any_nil, Bool.or_false]
    cases hp : s.place with
    | none => rfl
    | some p => simp [hplace p hp]
  unfold dropStale
  dsimp only
  rw [hany, if_neg Bool.false_ne_true, houter]
  rfl

lemma skipGap_of_start (s : Scanner) (h : s.cursor.rest.head? ≠ some '\uFEFF') (count : Nat)
    (crosses : Bool) (hgap : gapWidth false s.cursor.rest = (count, crosses)) (houter : s.outer = []) :
    s.skipGap = { s with
      cursor := s.cursor.advance count
      keyAllowed := s.keyAllowed || crosses } := by
  unfold skipGap
  rw [if_neg fun hmark => h hmark.2]
  dsimp only
  rw [hgap]
  simp [inBrackets, houter]

/-- Which block collections are left at a column. -/
def openAt (column : Nat) (blocks : List Nat) : List Nat := blocks.dropWhile fun b => column < b

/-- The tokens for the block collections that end before a column. -/
def endsBefore (column : Nat) (blocks : List Nat) : List Token :=
  (blocks.takeWhile fun b => column < b).map fun _ => .blockEnd

/-- The scanner goes past a gap. Where a key may have begun, the place is given up, for it is on
another line. -/
lemma prepare_gap (s : Scanner) (count : Nat) (crosses : Bool)
    (hmark : s.cursor.rest.head? ≠ some '\uFEFF')
    (hgap : gapWidth false s.cursor.rest = (count, crosses)) (houter : s.outer = [])
    (hplace : ∀ p ∈ s.place, p.required = false ∧ p.line ≠ (s.cursor.advance count).line) :
    ∃ r, prepare s = .ok r ∧ r.cursor = s.cursor.advance count ∧
      Standing r (s.cursor.rest.drop count) (s.cursor.advance count).column
        (openAt (s.cursor.advance count).column s.blocks)
        (endsBefore (s.cursor.advance count).column s.blocks ++ s.tokens)
        (s.keyAllowed || crosses) := by
  have hfree := dropStale_of_free s houter fun p hp => (hplace p hp).1
  let kept : Scanner := { s with place := s.place.filter (!·.isStale s.cursor) }
  have hskip : kept.skipGap = { kept with
      cursor := s.cursor.advance count
      keyAllowed := s.keyAllowed || crosses } :=
    skipGap_of_start kept hmark count crosses hgap houter
  have hkept : ∀ p ∈ kept.place, p ∈ s.place := fun p hp => (Option.mem_filter_iff.mp hp).1
  have hnone : kept.place.filter (!·.isStale (s.cursor.advance count)) = none := by
    rw [Option.filter_eq_none_iff]
    intro p hp
    simp [KeyPlace.isStale, (hplace p (hkept p hp)).2]
  let past : Scanner := {
    cursor := s.cursor.advance count
    tokens := s.tokens
    blocks := s.blocks
    keyAllowed := s.keyAllowed || crosses }
  have hpast : kept.skipGap.dropStale = .ok past := by
    have hfree' := dropStale_of_free kept.skipGap (by rw [hskip]; exact houter) (by
      rw [hskip]
      exact fun p hp => (hplace p (hkept p hp)).1)
    rw [hfree', hskip]
    dsimp only
    rw [hnone]
    change Except.ok { past with outer := s.outer } = _
    rw [houter]
  refine ⟨past.closeBlocks fun column => past.cursor.column < column, ?_,
    cursor_closeBlocks past _, ?_⟩
  · unfold prepare
    rw [hfree, ok_bind, hpast]
    rfl
  · exact ⟨rest_advance count s.cursor, rfl, rfl, rfl, rfl, rfl, rfl⟩

lemma openAt_of_le (column : Nat) (blocks : List Nat) (h : ∀ b ∈ blocks.head?, b ≤ column) :
    openAt column blocks = blocks ∧ endsBefore column blocks = [] := by
  cases blocks with
  | nil => exact ⟨rfl, rfl⟩
  | cons b blocks =>
    have hb : ¬column < b := Nat.not_lt.mpr (h b rfl)
    constructor
    · simp [openAt, hb]
    · simp [endsBefore, hb]

/-- The scanner goes past blanks on a line. -/
lemma prepare_blanks (s : Scanner) (count : Nat) (cs : List Char) (column : Nat) (blocks : List Nat)
    (tokens : List Token) (allowed : Bool)
    (h : Standing s (List.replicate count ' ' ++ cs) column blocks tokens allowed)
    (hcs : StartsSolid cs) (hblocks : ∀ b ∈ blocks.head?, b ≤ column + count) :
    ∃ r, prepare s = .ok r ∧ Standing r cs (column + count) blocks tokens allowed := by
  have hmark : s.cursor.rest.head? ≠ some '\uFEFF' := by
    rw [h.rest]
    cases count with
    | zero =>
      intro hhead
      exact (hcs _ hhead).mark rfl
    | succ count => simp [List.replicate_succ]
  have hgap : gapWidth false s.cursor.rest = (count, false) := by
    rw [h.rest, gapWidth_blanks count cs hcs]
  have hinline := advance_inline (List.replicate count ' ') cs s.cursor h.rest (by
    intro d hd
    rw [List.eq_of_mem_replicate hd]
    decide)
  rw [List.length_replicate] at hinline
  obtain ⟨r, hr, -, hstanding⟩ := prepare_gap s count false hmark hgap h.outer (by simp [h.place])
  obtain ⟨hopen, hends⟩ := openAt_of_le (column + count) blocks hblocks
  rw [hinline, h.blocks, h.tokens, h.allowed, Bool.or_false, h.rest, h.column, hopen, hends,
    List.drop_left' (List.length_replicate ..), List.nil_append] at hstanding
  exact ⟨r, hr, hstanding⟩

/-- The scanner goes to the next line, where a key may begin. -/
lemma prepare_newLine (s : Scanner) (count : Nat) (cs : List Char)
    (hrest : s.cursor.rest = newLine count ++ cs) (hcs : StartsSolid cs) (houter : s.outer = [])
    (hplace : ∀ p ∈ s.place, p.required = false ∧ p.line ≤ s.cursor.line) :
    ∃ r, prepare s = .ok r ∧
      Standing r cs count (openAt count s.blocks) (endsBefore count s.blocks ++ s.tokens) true := by
  have hmark : s.cursor.rest.head? ≠ some '\uFEFF' := by
    rw [hrest]
    simp [newLine]
  have hgap : gapWidth false s.cursor.rest = (count + 1, true) := by
    rw [hrest, gapWidth_newLine count cs hcs]
  have hline := advance_newLine count cs s.cursor hrest
  have hdrop : s.cursor.rest.drop (count + 1) = cs := by
    rw [← rest_advance, hline]
  obtain ⟨r, hr, -, hstanding⟩ := prepare_gap s (count + 1) true hmark hgap houter (by
    intro p hp
    obtain ⟨hrequired, hbefore⟩ := hplace p hp
    rw [hline]
    exact ⟨hrequired, (Nat.lt_succ_of_le hbefore).ne⟩)
  rw [hline, hdrop, Bool.or_true] at hstanding
  exact ⟨r, hr, hstanding⟩

/-! ## Marks -/

/-- Whether a block collection begins at a column, where others are open. -/
def opens (column : Nat) (blocks : List Nat) : Bool := blocks.head?.all (· < column)

/-- The block collections that are open once one is open at a column. -/
def opened (column : Nat) (blocks : List Nat) : List Nat :=
  if opens column blocks then column :: blocks else blocks

/-- The tokens once a block collection is open at a column. -/
def openedTokens (start : Token) (column : Nat) (blocks : List Nat) (tokens : List Token) :
    List Token :=
  if opens column blocks then start :: tokens else tokens

lemma insert_behind (s : Scanner) (front base : List Token) (t : Token)
    (h : s.tokens = front ++ base) :
    s.insert base.length t = { s with tokens := front ++ t :: base } := by
  unfold Scanner.insert
  dsimp only
  rw [h, List.length_append, Nat.add_sub_cancel, List.take_left, List.drop_left]

/-- A block collection starts behind some of the tokens, in front of the others. -/
lemma openBlock_behind (s : Scanner) (front base : List Token) (start : Token) (column : Nat)
    (blocks : List Nat) (htokens : s.tokens = front ++ base) (hblocks : s.blocks = blocks) :
    s.openBlock column base.length start =
      { s with
        blocks := opened column blocks
        tokens := front ++ openedTokens start column blocks base } := by
  unfold openBlock opened openedTokens opens
  rw [insert_behind s front base start htokens, hblocks]
  split
  · rfl
  · rw [← htokens, ← hblocks]

/-- The marks of block collections: a character, its token, and the start of the collection. -/
def blockMarks : List (Char × Token × Token) :=
  [('-', .dash, .sequenceStart), ('?', .key, .mappingStart), (':', .value, .mappingStart)]

/-- A mark at the front of a line opens the block collection that it belongs to. -/
lemma token_mark (r : Scanner) (mark : Char × Token × Token) (hmark : mark ∈ blockMarks)
    (cs : List Char) (column : Nat) (blocks : List Nat) (tokens : List Token)
    (h : Standing r (mark.1 :: ' ' :: cs) column blocks tokens true) :
    ∃ t, r.token mark.1 (' ' :: cs) = .ok t ∧
      Standing t (' ' :: cs) (column + 1) (opened column blocks)
        (mark.2.1 :: openedTokens mark.2.2 column blocks tokens) true := by
  have hopen (start : Token) := openBlock_behind r [] r.tokens start column blocks rfl h.blocks
  have hnext : ∀ m ∈ blockMarks, isBreak m.1 = false ∧ m.1 ≠ '\uFEFF' := by
    simp [blockMarks]
    decide
  have hadvance : r.cursor.advance 1 = ⟨' ' :: cs, r.cursor.offset + 1, r.cursor.line, column + 1⟩ := by
    have hline := advance_inline [mark.1] (' ' :: cs) r.cursor h.rest (by simpa using hnext mark hmark)
    rwa [h.column] at hline
  have hbrackets : r.inBrackets = false := by
    rw [inBrackets, h.outer]
    rfl
  have hwhite : startsWhite (' ' :: cs) = true := rfl
  refine ⟨{ r with
    cursor := r.cursor.advance 1
    blocks := opened column blocks
    tokens := mark.2.1 :: openedTokens mark.2.2 column blocks tokens }, ?_, ?_⟩
  · simp only [blockMarks, List.mem_cons, List.not_mem_nil, or_false] at hmark
    rcases hmark with rfl | rfl | rfl
    · have htoken : r.token '-' (' ' :: cs) = r.dash := by
        simp [token, startsSeparator, hwhite]
      rw [htoken, dash, hbrackets, h.allowed, h.column, hopen]
      simp [forget, h.place, h.tokens, take]
    · have htoken : r.token '?' (' ' :: cs) = r.key := by
        simp [token, startsSeparator, hwhite]
      rw [htoken, key, hbrackets, h.allowed, h.column, hopen]
      simp [forget, h.place, h.tokens, take]
    · have htoken : r.token ':' (' ' :: cs) = r.value := by
        simp [token, startsSeparator, hwhite]
      rw [htoken, value, h.place, hbrackets, h.allowed, h.column, hopen]
      simp [h.place, h.allowed, h.tokens, take]
  · rw [hadvance]
    exact ⟨rfl, rfl, rfl, rfl, h.allowed, h.place, h.outer⟩

/-! ## Scalars and brackets -/

/-- Where a key may begin that starts with the next token. -/
def keyPlace (r : Scanner) : Option KeyPlace :=
  if r.keyAllowed then
    some ⟨r.tokens.length, r.blocks.head? == some r.cursor.column, r.cursor.offset, r.cursor.line,
      r.cursor.column⟩
  else none

/-- The scanner has passed a node of so many characters that may be a key, and has taken tokens,
the latest first. -/
structure Passes (r t : Scanner) (width : Nat) (taken : List Token) (allowed : Bool) : Prop where
  cursor : t.cursor = r.cursor.advance width
  tokens : t.tokens = taken ++ r.tokens
  blocks : t.blocks = r.blocks
  allowed : t.keyAllowed = allowed
  place : t.place = keyPlace r
  outer : t.outer = []

lemma remember_of_free (r : Scanner) (hplace : r.place = none) (houter : r.outer = []) :
    r.remember = .ok { r with place := keyPlace r } := by
  unfold remember keyPlace forget
  rw [hplace]
  split
  · simp only [Option.any_none, Bool.false_eq_true, if_false]
    rw [ok_bind]
    simp [inBrackets, houter]
    rfl
  · rw [← hplace]
    rfl

lemma token_quoted (r : Scanner) (mark : Char) (more text : List Char) (width column : Nat)
    (blocks : List Nat) (tokens : List Token) (allowed : Bool)
    (h : Standing r (mark :: more) column blocks tokens allowed) (hmark : mark = '\'' ∨ mark = '"')
    (hquoted : quotedScalar mark more = .ok (text, width)) :
    ∃ t, r.token mark more = .ok t ∧ Passes r t (width + 1) [.scalar text false] false := by
  have htoken : r.token mark more = r.quoted mark more := by
    rcases hmark with rfl | rfl <;> simp [token, startsSeparator]
  refine ⟨{ r with
    cursor := r.cursor.advance (width + 1)
    tokens := .scalar text false :: r.tokens
    keyAllowed := false
    place := keyPlace r }, ?_, rfl, rfl, rfl, rfl, rfl, h.outer⟩
  rw [htoken, quoted, remember_of_free r h.place h.outer, ok_bind, hquoted, ok_bind]
  rfl

lemma isPrefixOf_thrice_append (d : Char) (cs rest : List Char)
    (h : [d, d, d].isPrefixOf cs = false) (hrest : ∀ e ∈ rest.head?, e ≠ d) :
    [d, d, d].isPrefixOf (cs ++ rest) = false := by
  have hrest (front : List Char) : (d :: front).isPrefixOf rest = false := by
    cases rest with
    | nil => rfl
    | cons e rest => simp [List.isPrefixOf, (hrest e rfl).symm]
  match cs with
  | [] => exact hrest [d, d]
  | [a] => simp [List.isPrefixOf, hrest]
  | [a, b] => simp [List.isPrefixOf, hrest]
  | a :: b :: c :: cs => simpa [List.isPrefixOf] using h

lemma startsSeparator_append (cs rest : List Char) (hdashes : ['-', '-', '-'].isPrefixOf cs = false)
    (hdots : ['.', '.', '.'].isPrefixOf cs = false)
    (hrest : ∀ e ∈ rest.head?, e ≠ '-' ∧ e ≠ '.') : startsSeparator (cs ++ rest) = false := by
  rw [startsSeparator, isPrefixOf_thrice_append '-' cs rest hdashes fun e he => (hrest e he).1,
    isPrefixOf_thrice_append '.' cs rest hdots fun e he => (hrest e he).2]
  rfl

/-- No mark is taken for the start of a plain text, which needs no room behind it. -/
lemma startsPlain_of_isPlainText (c : Char) (cs rest : List Char) (hplain : IsPlainText c cs)
    (hspaced : c = '?' ∨ c = ':' ∨ c = '-' → startsWhite (cs ++ rest) = false) :
    startsPlain false c (cs ++ rest) = true := by
  have hmark := hplain.mark
  have hwhite : isWhite c = false := by
    obtain ⟨hbreak, htab⟩ := hplain.outside c List.mem_cons_self
    simp [isWhite, hplain.head, hbreak, htab]
  unfold startsPlain
  split
  · next hc => simp [hspaced (.inr (.inr hc))]
  · split
    · next hc => simp [hspaced (hc.imp_right .inl)]
    · simp_all [indicators, leadingMarks]

/-- The scanner takes a plain text for one. -/
lemma token_eq_plain (r : Scanner) (c : Char) (cs rest : List Char) (houter : r.outer = [])
    (hplain : IsPlainText c cs) (hrest : ∀ e ∈ rest.head?, e ≠ '-' ∧ e ≠ '.') :
    r.token c (cs ++ rest) = r.plain := by
  have hbrackets : r.inBrackets = false := by
    rw [inBrackets, houter]
    rfl
  have hspaced : c = '?' ∨ c = ':' ∨ c = '-' → startsWhite (cs ++ rest) = false :=
    fun hc => startsWhite_append cs rest (hplain.spaced hc)
  have hseparator : startsSeparator (c :: (cs ++ rest)) = false :=
    startsSeparator_append (c :: cs) rest hplain.dashes hplain.dots hrest
  have hstarts := startsPlain_of_isPlainText c cs rest hplain hspaced
  have hmark := hplain.mark
  simp only [leadingMarks, List.mem_cons, List.not_mem_nil, or_false, not_or] at hmark
  have hnot (d : Char) (hd : d = '?' ∨ d = ':' ∨ d = '-') :
      ¬(c = d ∧ startsWhite (cs ++ rest) = true) := by
    rintro ⟨rfl, hstart⟩
    rw [hspaced hd] at hstart
    cases hstart
  rw [token, hbrackets, if_neg (by simp [hmark]), if_neg (by simp [hseparator]), Bool.false_or,
    if_neg (hnot '-' (by simp)), if_neg (hnot '?' (by simp)), if_neg (hnot ':' (by simp)),
    if_neg (by simp [hmark]), if_pos hstarts]
  all_goals simp [hmark]

lemma token_plain (r : Scanner) (c : Char) (cs rest : List Char) (column : Nat) (blocks : List Nat)
    (tokens : List Token) (allowed : Bool)
    (h : Standing r (c :: cs ++ rest) column blocks tokens allowed) (hplain : IsPlainText c cs)
    (hrest : ∀ e ∈ rest.head?, e ≠ '-' ∧ e ≠ '.') (scalar : PlainScalar)
    (hscalar : plainScalar false r.scalarIndent (c :: cs ++ rest) = scalar) :
    ∃ t, r.token c (cs ++ rest) = .ok t ∧
      Passes r t scalar.width [.scalar scalar.text true] scalar.crossesLine := by
  have hbrackets : r.inBrackets = false := by
    rw [inBrackets, h.outer]
    rfl
  refine ⟨{ r with
    cursor := r.cursor.advance scalar.width
    tokens := .scalar scalar.text true :: r.tokens
    keyAllowed := scalar.crossesLine
    place := keyPlace r }, ?_, rfl, rfl, rfl, rfl, rfl, h.outer⟩
  rw [token_eq_plain r c cs rest h.outer hplain hrest, Scanner.plain,
    remember_of_free r h.place h.outer, ok_bind]
  have hread : plainScalar r.inBrackets r.scalarIndent r.cursor.rest = scalar := by
    rw [hbrackets, h.rest, hscalar]
  subst hread
  rfl

lemma filter_of_fresh (place : Option KeyPlace) (c : Cursor)
    (h : ∀ p ∈ place, p.isStale c = false) : place.filter (!·.isStale c) = place := by
  cases place with
  | none => rfl
  | some p => simp [Option.filter, h p rfl]

lemma dropStale_of_fresh (s : Scanner)
    (h : ∀ place ∈ s.place :: s.outer, ∀ p ∈ place, p.isStale s.cursor = false) :
    s.dropStale = .ok s := by
  have hany : (s.place :: s.outer).any
      (·.any fun p => p.required && p.isStale s.cursor) = false := by
    rw [List.any_eq_false]
    intro place hplace
    cases hp : place with
    | none => simp
    | some p => simp [h place hplace p hp]
  rw [List.forall_mem_cons] at h
  have houter : s.outer.map (Option.filter (!·.isStale s.cursor)) = s.outer :=
    (List.map_congr_left fun place hplace => filter_of_fresh place s.cursor (h.2 place hplace)).trans
      (List.map_id' s.outer)
  unfold dropStale
  dsimp only
  rw [hany, if_neg Bool.false_ne_true, filter_of_fresh s.place s.cursor h.1, houter]

/-- Before a token on the same line the scanner keeps the places where keys may have begun. -/
lemma prepare_of_fresh (s : Scanner) (c : Char) (rest : List Char) (hrest : s.cursor.rest = c :: rest)
    (hc : IsSolid c)
    (hfresh : ∀ place ∈ s.place :: s.outer, ∀ p ∈ place, p.isStale s.cursor = false)
    (hblocks : s.inBrackets = true ∨ ∀ b ∈ s.blocks.head?, b ≤ s.cursor.column) :
    prepare s = .ok s := by
  have hdrop := dropStale_of_fresh s hfresh
  have hskip : s.skipGap = s := by
    have hgap := gapWidth_solid (c :: rest) (fun d hd => Option.some.inj hd ▸ hc)
    unfold skipGap
    rw [hrest, if_neg fun hmark => hc.mark (Option.some.inj hmark.2)]
    dsimp only
    rw [hrest, hgap]
    simp [Cursor.advance]
  have hclose : s.closeBlocks (fun column => s.cursor.column < column) = s := by
    unfold closeBlocks
    rcases hblocks with hbrackets | hblocks
    · rw [if_pos hbrackets]
    · split
      · rfl
      · obtain ⟨hopen, hends⟩ := openAt_of_le s.cursor.column s.blocks hblocks
        unfold openAt at hopen
        unfold endsBefore at hends
        dsimp only
        rw [hopen, hends]
        rfl
  unfold prepare
  rw [hdrop, ok_bind, hskip, hdrop, ok_bind, hclose]
  rfl

/-- The two kinds of brackets, with their tokens. -/
def bracketPairs : List ((Char × Char) × (Token × Token)) :=
  [(('[', ']'), (.listOpen, .listClose)), (('\x7b', '\x7d'), (.mapOpen, .mapClose))]

/-- What the scanner asks of a kind of brackets. -/
structure IsBracketPair (brackets : (Char × Char) × (Token × Token)) : Prop where
  solid : IsSolid brackets.1.1 ∧ IsSolid brackets.1.2
  opens : ∀ (s : Scanner) rest, s.token brackets.1.1 rest = s.openBracket brackets.2.1
  closes : ∀ (s : Scanner) rest, s.token brackets.1.2 rest = s.closeBracket brackets.2.2
  goesOn : Scanner.run.isLast brackets.2.1 = false ∧ Scanner.run.isLast brackets.2.2 = false

lemma isBracketPair_of_mem (brackets : (Char × Char) × (Token × Token))
    (h : brackets ∈ bracketPairs) : IsBracketPair brackets := by
  simp only [bracketPairs, List.mem_cons, List.not_mem_nil, or_false] at h
  rcases h with rfl | rfl
  · exact ⟨by decide, fun s rest => by simp [token, startsSeparator],
      fun s rest => by simp [token, startsSeparator], rfl, rfl⟩
  · exact ⟨by decide, fun s rest => by simp [token, startsSeparator],
      fun s rest => by simp [token, startsSeparator], rfl, rfl⟩

/-- The scanner behind an opening bracket. -/
def insideBrackets (r : Scanner) (opening : Token) : Scanner :=
  { r with
    cursor := r.cursor.advance 1
    tokens := opening :: r.tokens
    outer := [keyPlace r]
    keyAllowed := true }

/-- The scanner behind two brackets with nothing between them. -/
def pastBrackets (r : Scanner) (opening closing : Token) : Scanner :=
  { r with
    cursor := r.cursor.advance 2
    tokens := closing :: opening :: r.tokens
    keyAllowed := false
    place := keyPlace r }

section Brackets

variable {r : Scanner} {brackets : (Char × Char) × (Token × Token)} {rest : List Char} {column : Nat}
  {blocks : List Nat} {tokens : List Token} {allowed : Bool}

lemma cursor_insideBrackets (hbrackets : IsBracketPair brackets)
    (h : Standing r (brackets.1.1 :: brackets.1.2 :: rest) column blocks tokens allowed) :
    (insideBrackets r brackets.2.1).cursor =
      ⟨brackets.1.2 :: rest, r.cursor.offset + 1, r.cursor.line, r.cursor.column + 1⟩ :=
  advance_inline [brackets.1.1] (brackets.1.2 :: rest) r.cursor h.rest
    (List.forall_mem_singleton.mpr ⟨hbrackets.solid.1.inline, hbrackets.solid.1.mark⟩)

lemma steps_openBracket (s : Scanner) (hbrackets : IsBracketPair brackets) (hr : prepare s = .ok r)
    (h : Standing r (brackets.1.1 :: brackets.1.2 :: rest) column blocks tokens allowed) :
    Steps s (insideBrackets r brackets.2.1) := by
  refine ⟨r, brackets.1.1, brackets.1.2 :: rest, hr, h.rest, ?_, ?_, hbrackets.goesOn.1⟩
  · rw [hbrackets.opens, openBracket, remember_of_free r h.place h.outer, ok_bind]
    simp [insideBrackets, Scanner.take, h.outer, h.place]
    rfl
  · rw [cursor_insideBrackets hbrackets h]

/-- The key that may begin with the brackets is still fresh behind the first one. -/
lemma prepare_insideBrackets (hbrackets : IsBracketPair brackets)
    (h : Standing r (brackets.1.1 :: brackets.1.2 :: rest) column blocks tokens allowed) :
    prepare (insideBrackets r brackets.2.1) = .ok (insideBrackets r brackets.2.1) := by
  have hcursor := cursor_insideBrackets hbrackets h
  refine prepare_of_fresh _ brackets.1.2 rest (congrArg Cursor.rest hcursor) hbrackets.solid.2 ?_
    (.inl rfl)
  intro place hplace p hp
  rcases List.mem_cons.mp hplace with rfl | hplace
  · change p ∈ r.place at hp
    rw [h.place] at hp
    cases hp
  · obtain rfl := List.mem_singleton.mp hplace
    unfold keyPlace at hp
    split at hp
    · obtain rfl := Option.some.inj hp
      simp [KeyPlace.isStale, hcursor]
    · cases hp

lemma steps_closeBracket (hbrackets : IsBracketPair brackets)
    (h : Standing r (brackets.1.1 :: brackets.1.2 :: rest) column blocks tokens allowed) :
    Steps (insideBrackets r brackets.2.1) (pastBrackets r brackets.2.1 brackets.2.2) := by
  refine ⟨_, brackets.1.2, rest, prepare_insideBrackets hbrackets h,
    congrArg Cursor.rest (cursor_insideBrackets hbrackets h), ?_, ?_, hbrackets.goesOn.2⟩
  · rw [hbrackets.closes, closeBracket, forget]
    simp [insideBrackets, pastBrackets, Scanner.take, h.outer, h.place]
    exact (advance_add 1 1 r.cursor).symm
  · change (r.cursor.advance 2).rest.length ≤ _
    rw [rest_advance, h.rest]
    rfl

/-- Brackets with nothing between them are passed as one node. -/
lemma passes_brackets (s : Scanner) (hbrackets : IsBracketPair brackets) (hr : prepare s = .ok r)
    (h : Standing r (brackets.1.1 :: brackets.1.2 :: rest) column blocks tokens allowed) :
    ∃ t, Relation.ReflTransGen Steps s t ∧ Passes r t 2 [brackets.2.2, brackets.2.1] false :=
  ⟨pastBrackets r brackets.2.1 brackets.2.2,
    .tail (.single (steps_openBracket s hbrackets hr h)) (steps_closeBracket hbrackets h),
    rfl, rfl, rfl, rfl, rfl, h.outer⟩

end Brackets

/-! ## Keys -/

/-- The colon behind a key takes the mapping for opened where the key began, and puts the mark of a
key before the tokens of the key. -/
lemma value_of_place (t : Scanner) (place : KeyPlace) (scalar : Token) (tokens : List Token)
    (blocks : List Nat) (hplace : t.place = some place) (hindex : place.index = tokens.length)
    (htokens : t.tokens = scalar :: tokens) (hblocks : t.blocks = blocks) (houter : t.outer = []) :
    t.value = .ok { t with
      cursor := t.cursor.advance 1
      blocks := opened place.column blocks
      tokens := .value :: scalar :: .key :: openedTokens .mappingStart place.column blocks tokens
      keyAllowed := false
      place := none } := by
  let keyed : Scanner := { t with
    tokens := scalar :: .key :: tokens
    place := none
    keyAllowed := false }
  have hopen := openBlock_behind keyed [scalar, .key] tokens .mappingStart place.column blocks rfl
    hblocks
  have hinsert := insert_behind t [scalar] tokens .key htokens
  have hinside : keyed.inBrackets = false := by
    simp [keyed, inBrackets, houter]
  rw [value, hplace]
  dsimp only
  rw [hindex, hinsert]
  change Except.ok ((if keyed.inBrackets then keyed else
    keyed.openBlock place.column tokens.length .mappingStart).take 1 .value) = _
  rw [hinside, if_neg Bool.false_ne_true, hopen]
  rfl

/-- A key that stands on the line of its value opens the mapping that it belongs to, once its colon
is met. The colon must be near enough. -/
lemma reaches_value (s r t : Scanner) (cs more : List Char) (column : Nat) (blocks : List Nat)
    (tokens : List Token) (scalar : Token) (allowed : Bool)
    (h : Standing r (cs ++ ':' :: more) column blocks tokens true) (hsteps : Steps s t)
    (ht : Passes r t cs.length [scalar] allowed)
    (hcs : ∀ c ∈ cs, isBreak c = false ∧ c ≠ '\uFEFF') (hlength : cs.length ≤ 1024)
    (hblocks : ∀ b ∈ blocks.head?, b ≤ column) (hmore : startsWhite more = true) :
    ∃ t', Relation.ReflTransGen Steps s t' ∧
      Standing t' more (column + cs.length + 1) (opened column blocks)
        (.value :: scalar :: .key :: openedTokens .mappingStart column blocks tokens) false := by
  have hcursor : t.cursor = ⟨':' :: more, r.cursor.offset + cs.length, r.cursor.line,
      column + cs.length⟩ := by
    rw [ht.cursor, advance_inline cs (':' :: more) r.cursor h.rest hcs, h.column]
  have hplace : t.place = some ⟨tokens.length, r.blocks.head? == some r.cursor.column,
      r.cursor.offset, r.cursor.line, column⟩ := by
    rw [ht.place, keyPlace, h.allowed, if_pos rfl, h.tokens, h.column]
  have htokens : t.tokens = scalar :: tokens := by rw [ht.tokens, h.tokens]; rfl
  have hready : prepare t = .ok t := by
    refine prepare_of_fresh t ':' more (by rw [hcursor]) (by decide) ?_ (.inr ?_)
    · rw [hplace, ht.outer, hcursor]
      simp [KeyPlace.isStale]
      omega
    · rw [ht.blocks, h.blocks, hcursor]
      exact fun b hb => (hblocks b hb).trans (Nat.le_add_right _ _)
  have hvalue := value_of_place t _ scalar tokens blocks hplace rfl htokens (ht.blocks.trans h.blocks)
    ht.outer
  have htoken : t.token ':' more = t.value := by
    simp [token, startsSeparator, hmore]
  have hadvance : t.cursor.advance 1 =
      ⟨more, t.cursor.offset + 1, t.cursor.line, t.cursor.column + 1⟩ :=
    advance_inline [':'] more t.cursor (by rw [hcursor]; rfl)
      (List.forall_mem_singleton.mpr (by decide))
  refine ⟨_, .tail (.single hsteps)
    ⟨t, ':', more, hready, by rw [hcursor], htoken.trans hvalue, ?_, rfl⟩, ?_⟩
  · change (t.cursor.advance 1).rest.length ≤ _
    rw [hadvance]
  · refine ⟨congrArg Cursor.rest hadvance, ?_, rfl, rfl, rfl, rfl, ht.outer⟩
    change (t.cursor.advance 1).column = _
    rw [hadvance, hcursor]

/-! ## Ends of lines -/

/-- The scanner is at the end of a line, or already at the front of the next one, which is indented by
`count`. -/
structure EndsLine (s : Scanner) (count : Nat) (tail : List Char) (blocks : List Nat)
    (tokens : List Token) : Prop where
  blocks : s.blocks = blocks
  tokens : s.tokens = tokens
  outer : s.outer = []
  optional : ∀ p ∈ s.place, p.required = false
  ahead : s.cursor.rest = newLine count ++ tail ∧ (∀ p ∈ s.place, p.line ≤ s.cursor.line) ∨
    s.cursor.rest = tail ∧ s.cursor.column = count ∧ s.keyAllowed = true ∧
      ∀ p ∈ s.place, p.line < s.cursor.line

/-- At the front of a line the block collections are closed that are indented further. -/
lemma prepare_of_endsLine (s : Scanner) (count : Nat) (tail : List Char) (blocks : List Nat)
    (tokens : List Token) (h : EndsLine s count tail blocks tokens) (htail : StartsSolid tail) :
    ∃ r, prepare s = .ok r ∧
      Standing r tail count (openAt count blocks) (endsBefore count blocks ++ tokens) true := by
  rcases h.ahead with ⟨hrest, hline⟩ | ⟨hrest, hcolumn, hallowed, hline⟩
  · obtain ⟨r, hr, hstanding⟩ := prepare_newLine s count tail hrest htail h.outer
      fun p hp => ⟨h.optional p hp, hline p hp⟩
    rw [h.blocks, h.tokens] at hstanding
    exact ⟨r, hr, hstanding⟩
  · have hmark : s.cursor.rest.head? ≠ some '\uFEFF' := by
      rw [hrest]
      exact fun hhead => (htail _ hhead).mark rfl
    have hgap : gapWidth false s.cursor.rest = (0, false) := by
      rw [hrest]
      exact gapWidth_solid tail htail
    obtain ⟨r, hr, -, hstanding⟩ := prepare_gap s 0 false hmark hgap h.outer
      fun p hp => ⟨h.optional p hp, (hline p hp).ne⟩
    rw [Cursor.advance, hcolumn, h.blocks, h.tokens, hallowed, hrest] at hstanding
    exact ⟨r, hr, hstanding⟩

lemma keyPlace_spec (r : Scanner) (p : KeyPlace) (hp : p ∈ keyPlace r) :
    p.line = r.cursor.line ∧ p.required = (r.blocks.head? == some r.cursor.column) := by
  unfold keyPlace at hp
  split at hp
  · obtain rfl := Option.some.inj hp
    exact ⟨rfl, rfl⟩
  · cases hp

/-- A node with a line behind it is passed up to the end of its own line, or the gap behind it is
passed as well. -/
lemma endsLine_of_passes (r t : Scanner) (cs tail : List Char) (count width column : Nat)
    (blocks : List Nat) (tokens taken : List Token) (allowed crosses : Bool)
    (h : Standing r (cs ++ (newLine count ++ tail)) column blocks tokens allowed)
    (ht : Passes r t width taken crosses) (hblocks : ∀ b ∈ blocks.head?, b < column)
    (hwidth : width = cs.length ∨
      width = cs.length + (count + 1) ∧ crosses = true ∧ (∀ c ∈ cs, isBreak c = false ∧ c ≠ '\uFEFF')) :
    EndsLine t count tail blocks (taken ++ tokens) := by
  have hrest : (r.cursor.advance cs.length).rest = newLine count ++ tail := by
    rw [rest_advance, h.rest, List.drop_left]
  refine ⟨ht.blocks.trans h.blocks, by rw [ht.tokens, h.tokens], ht.outer, ?_, ?_⟩
  · intro p hp
    rw [ht.place] at hp
    rw [(keyPlace_spec r p hp).2, h.blocks, h.column, beq_eq_false_iff_ne]
    exact fun hhead => (hblocks column hhead).ne rfl
  · have hplace : ∀ p ∈ t.place, p.line = r.cursor.line := by
      intro p hp
      rw [ht.place] at hp
      exact (keyPlace_spec r p hp).1
    rcases hwidth with hwidth | ⟨hwidth, hcrosses, hcs⟩
    · left
      rw [ht.cursor, hwidth]
      refine ⟨hrest, fun p hp => ?_⟩
      rw [hplace p hp]
      exact line_le_advance _ _
    · right
      have hline := advance_inline cs (newLine count ++ tail) r.cursor h.rest hcs
      have hcursor := advance_newLine count tail (r.cursor.advance cs.length) hrest
      rw [ht.cursor, hwidth, advance_add, hcursor, ht.allowed, hline]
      refine ⟨rfl, rfl, hcrosses, fun p hp => ?_⟩
      rw [hplace p hp]
      exact Nat.lt_succ_self _

/-! ## Ends of texts -/

lemma boundary_of_standing (r : Scanner) (cs : List Char) (column : Nat) (blocks : List Nat)
    (tokens : List Token) (allowed : Bool) (h : Standing r cs column blocks tokens allowed) :
    r.boundary = .ok { r with
      blocks := []
      tokens := blocks.map (fun _ => .blockEnd) ++ tokens
      keyAllowed := false } := by
  unfold boundary closeBlocks inBrackets
  rw [h.outer, h.blocks, h.tokens]
  have htake : blocks.takeWhile (fun _ => true) = blocks := by simp
  have hdrop : blocks.dropWhile (fun _ => true) = [] := by simp
  dsimp only
  rw [htake, hdrop]
  simp [forget, h.place]

/-- The text ends, and so do all block collections. -/
lemma run_of_end (s : Scanner) (blocks : List Nat) (tokens : List Token)
    (h : EndsLine s 0 [] blocks tokens) :
    s.run = tokens.reverse ++ (blocks.map fun _ => Token.blockEnd) ++ [.streamEnd] := by
  obtain ⟨r, hr, hstanding⟩ := prepare_of_endsLine s 0 [] blocks tokens h (by simp [StartsSolid])
  obtain ⟨-, s', hs', hstep⟩ := step_of_prepare s r hr
  have hall : (openAt 0 blocks).map (fun _ => Token.blockEnd) ++ endsBefore 0 blocks =
      blocks.map fun _ => Token.blockEnd := by
    have hcount := congrArg List.length
      (List.takeWhile_append_dropWhile (p := fun b : Nat => decide (0 < b)) (l := blocks))
    rw [List.length_append] at hcount
    unfold openAt endsBefore
    rw [List.map_const', List.map_const', List.map_const', List.replicate_append_replicate,
      Nat.add_comm, hcount]
  rw [hstanding.rest] at hstep
  dsimp only at hstep
  rw [boundary_of_standing r [] 0 _ _ true hstanding, ok_bind, ← List.append_assoc, hall] at hstep
  rw [Scanner.run, hs']
  dsimp only
  rw [hstep]
  dsimp only [pure, Except.pure, Scanner.take]
  rw [if_neg (by simp [Scanner.run.isLast])]
  simp [List.map_const']

/-- A document ends with a mark, and the text with it. -/
lemma run_of_documentEnd (s : Scanner) (tokens : List Token)
    (h : EndsLine s 0 ['.', '.', '.', '\n'] [] tokens) :
    s.run = tokens.reverse ++ [.documentEnd, .streamEnd] := by
  obtain ⟨r, hr, hstanding⟩ := prepare_of_endsLine s 0 _ [] tokens h (by simp [StartsSolid]; decide)
  have hadvance : r.cursor.advance 3 = ⟨['\n'], r.cursor.offset + 3, r.cursor.line, 3⟩ := by
    have hline := advance_inline ['.', '.', '.'] ['\n'] r.cursor hstanding.rest (by simp; decide)
    rwa [hstanding.column] at hline
  let past : Scanner := { r with
    cursor := r.cursor.advance 3
    blocks := []
    tokens := .documentEnd :: tokens
    keyAllowed := false }
  have htoken : r.token '.' ['.', '.', '\n'] = .ok past := by
    rw [token, if_neg (by simp), if_pos ⟨hstanding.column, rfl⟩,
      boundary_of_standing r _ 0 _ _ true hstanding, ok_bind]
    · rfl
    all_goals decide
  have hsteps : Steps s past := by
    refine ⟨r, '.', _, hr, hstanding.rest, htoken, ?_, rfl⟩
    change (r.cursor.advance 3).rest.length ≤ _
    rw [hadvance]
    exact Nat.le_add_left 1 2
  have hend : EndsLine past 0 [] [] (.documentEnd :: tokens) := by
    refine ⟨rfl, rfl, hstanding.outer, ?_, .inl ⟨congrArg Cursor.rest hadvance, ?_⟩⟩
    all_goals
      intro p hp
      change p ∈ r.place at hp
      rw [hstanding.place] at hp
      cases hp
  rw [run_of_steps s past hsteps, run_of_end past [] _ hend]
  simp

end Rulebook.Proofs
