import Mathlib
import Rulebook.Proofs.Yaml.Scanning

/-!
# Tokens of written nodes

A written node is scanned to the tokens of its structure: the marks of its collections, with a start
and an end for each one that is indented further than what it stands in, and its scalars as they are
read back.
-/

namespace Rulebook.Proofs
open Yaml Scanner

/-! ## Scalars -/

/-- A scalar that is a text, or whose form suggests its tag and may be plain. -/
def IsScalarText (tag : Tag) (cs : List Char) : Prop :=
  tag = .str ∨ cs ≠ [] ∧ resolve cs = tag ∧ allowsPlain cs = true

/-- What a written scalar is read as. -/
def readBack (tag : Tag) (cs : List Char) : List Char :=
  if styleOf tag cs = .apostrophes then readApostrophes [] cs else cs

/-- The token of a written scalar. -/
def scalarToken (tag : Tag) (cs : List Char) : Token :=
  .scalar (readBack tag cs) (styleOf tag cs = .plain)

lemma plain_of_styleOf (tag : Tag) (cs : List Char) (hcs : IsScalarText tag cs)
    (h : styleOf tag cs = .plain) :
    ∃ c rest, cs = c :: rest ∧ IsPlainText c rest ∧ resolve cs = tag := by
  have hplain : resolve cs = tag ∧ allowsPlain cs = true := by
    by_contra hne
    rw [styleOf, if_neg hne] at h
    split at h <;> cases h
  have hne : cs ≠ [] := by
    rintro rfl
    rcases hcs with rfl | ⟨hne, -⟩
    · cases hplain.1
    · exact hne rfl
  obtain ⟨c, rest, rfl⟩ := List.exists_cons_of_ne_nil hne
  exact ⟨c, rest, rfl, (allowsPlain_iff c rest).mp hplain.2, hplain.1⟩

lemma apostrophes_of_styleOf (tag : Tag) (cs : List Char) (h : styleOf tag cs = .apostrophes) :
    allowsApostrophes cs = true := by
  unfold styleOf at h
  split at h
  · cases h
  · split at h
    · assumption
    · cases h

lemma steps_of_passes (s r t : Scanner) (c : Char) (rest : List Char) (width : Nat) (taken : Token)
    (crosses : Bool) (hr : prepare s = .ok r) (hrest : r.cursor.rest = c :: rest)
    (htoken : r.token c rest = .ok t) (ht : Passes r t (width + 1) [taken] crosses)
    (htaken : Scanner.run.isLast taken = false) : Steps s t := by
  refine ⟨r, c, rest, hr, hrest, htoken, ?_, ?_⟩
  · rw [ht.cursor, rest_advance, hrest, List.drop_succ_cons, List.length_drop]
    exact Nat.sub_le _ _
  · rw [ht.tokens]
    exact htaken

/-- A written scalar is passed as one token. A plain one takes what is told of its end with it. -/
lemma steps_scalar (s r : Scanner) (indent : Nat) (tag : Tag) (cs following : List Char)
    (column : Nat) (blocks : List Nat) (tokens : List Token) (allowed : Bool)
    (hcs : IsScalarText tag cs) (hr : prepare s = .ok r)
    (h : Standing r (styled (indent + 1) (styleOf tag cs) cs ++ following) column blocks tokens allowed)
    (hfollowing : ∀ e ∈ following.head?, e ≠ '\'' ∧ e ≠ '-' ∧ e ≠ '.') (width : Nat) (crosses : Bool)
    (hplain : styleOf tag cs = .plain →
      plainScalar false r.scalarIndent (cs ++ following) = ⟨cs, cs.length + width, crosses⟩) :
    ∃ t width' crosses', Steps s t ∧ Passes r t width' [scalarToken tag cs] crosses' ∧
      (styleOf tag cs = .plain ∧ width' = cs.length + width ∧ crosses' = crosses ∨
        styleOf tag cs ≠ .plain ∧
          width' = (styled (indent + 1) (styleOf tag cs) cs).length) := by
  unfold scalarToken readBack
  cases hstyle : styleOf tag cs with
  | plain =>
    obtain ⟨c, rest, rfl, htext, -⟩ := plain_of_styleOf tag cs hcs hstyle
    rw [hstyle] at h
    obtain ⟨t, htoken, ht⟩ := token_plain r c rest following column blocks tokens allowed h htext
      (fun e he => (hfollowing e he).2) _ (hplain hstyle)
    refine ⟨t, _, _, ?_, ht, .inl ⟨rfl, rfl, rfl⟩⟩
    have hwidth : (c :: rest).length + width = (rest.length + width) + 1 := by
      rw [List.length_cons, Nat.add_right_comm]
    dsimp only at ht
    rw [hwidth] at ht
    exact steps_of_passes s r t c _ _ _ _ hr h.rest htoken ht rfl
  | apostrophes =>
    have hread := quotedScalar_apostrophes indent cs following
      (apostrophes_of_styleOf tag cs hstyle) fun hhead => (hfollowing _ hhead).1 rfl
    have htext : styled (indent + 1) .apostrophes cs ++ following =
        '\'' :: (apostropheText (indent + 1) [] cs ++ '\'' :: following) := by
      simp [styled]
    rw [hstyle, htext] at h
    obtain ⟨t, htoken, ht⟩ := token_quoted r '\'' _ _ _ column blocks tokens allowed h (.inl rfl) hread
    refine ⟨t, _, _, ?_, ht, .inr ⟨by simp, by simp [styled]⟩⟩
    exact steps_of_passes s r t _ _ _ _ _ hr h.rest htoken ht rfl
  | doubleQuotes =>
    have hread := quotedScalar_doubleQuotes cs following
    have htext : styled (indent + 1) .doubleQuotes cs ++ following =
        '"' :: (cs.flatMap quotedChar ++ '"' :: following) := by
      simp [styled]
    rw [hstyle, htext] at h
    obtain ⟨t, htoken, ht⟩ := token_quoted r '"' _ _ _ column blocks tokens allowed h (.inr rfl) hread
    refine ⟨t, _, _, ?_, ht, .inr ⟨by simp, by simp [styled]⟩⟩
    exact steps_of_passes s r t _ _ _ _ _ hr h.rest htoken ht rfl

/-! ## The characters of a written scalar -/

/-- A character that stands on one line of a text. -/
def IsInline (c : Char) : Prop := isBreak c = false ∧ c ≠ '\uFEFF' ∧ isReadable c = true

lemma isInline_of_printable (c : Char) (h : 0x20 ≤ c.toNat ∧ c.toNat ≤ 0x7E) : IsInline c := by
  simp only [IsInline, isBreak, isReadable, Bool.or_eq_true, Bool.and_eq_true,
    Bool.or_eq_false_iff, decide_eq_true_eq, decide_eq_false_iff_not, ne_eq, ← Char.toNat_inj,
    Char.reduceToNat]
  omega

lemma isInline_of_isWritable (c : Char) (h : isWritable c = true) (hbreak : isWrittenBreak c = false) :
    IsInline c := by
  obtain ⟨hsame, -, hmark, hreadable⟩ := isWritable_spec c h
  exact ⟨hsame.trans hbreak, hmark, hreadable⟩

lemma isInline_of_mem_toDigits (n : Nat) : ∀ c ∈ Nat.toDigits 16 n, IsInline (Char.toUpper c) := by
  have hdigit : ∀ d < 16, 0x20 ≤ (Char.toUpper d.digitChar).toNat ∧
      (Char.toUpper d.digitChar).toNat ≤ 0x7E := by
    decide
  induction n using Nat.strong_induction_on with
  | _ n ih =>
    intro c hc
    by_cases hn : n < 16
    · rw [Nat.toDigits_of_lt_base hn, List.mem_singleton] at hc
      rw [hc]
      exact isInline_of_printable _ (hdigit n hn)
    · rw [Nat.toDigits_of_base_le (by omega) (by omega), List.mem_append, List.mem_singleton] at hc
      rcases hc with hc | rfl
      · exact ih (n / 16) (by omega) c hc
      · exact isInline_of_printable _ (hdigit (n % 16) (by omega))

lemma isInline_codeEscape (n : Nat) : ∀ c ∈ codeEscape n, IsInline c := by
  have hdigits (width : Nat) : ∀ c ∈ (Text.hexDigits width n).map Char.toUpper, IsInline c := by
    rw [List.forall_mem_map]
    intro c hc
    rcases List.mem_append.mp hc with hc | hc
    · rw [List.eq_of_mem_replicate hc]
      exact isInline_of_printable _ (by decide)
    · exact isInline_of_mem_toDigits n c hc
  unfold codeEscape
  dsimp only
  split
  · exact List.forall_mem_cons.mpr ⟨isInline_of_printable 'x' (by decide), hdigits 2⟩
  · split
    · exact List.forall_mem_cons.mpr ⟨isInline_of_printable 'u' (by decide), hdigits 4⟩
    · exact List.forall_mem_cons.mpr ⟨isInline_of_printable 'U' (by decide), hdigits 8⟩

lemma isInline_quotedChar (c : Char) : ∀ d ∈ quotedChar c, IsInline d := by
  have hslash : IsInline '\\' := isInline_of_printable _ (by decide)
  unfold quotedChar
  split
  · next hbare =>
    obtain ⟨hbreak, -, -, -, hreadable⟩ := isBare_spec c hbare
    refine List.forall_mem_singleton.mpr ⟨hbreak, ?_, hreadable⟩
    rintro rfl
    exact absurd hbare (by decide)
  · split
    · next e hlookup =>
      have hletter : ∀ p ∈ writtenEscapes, 0x20 ≤ p.2.toNat ∧ p.2.toNat ≤ 0x7E := by decide
      refine List.forall_mem_cons.mpr ⟨hslash, List.forall_mem_singleton.mpr ?_⟩
      exact isInline_of_printable e (hletter _ (mem_of_lookup hlookup))
    · exact List.forall_mem_cons.mpr ⟨hslash, isInline_codeEscape _⟩

/-- A character of a text between apostrophes, where an apostrophe is written twice. -/
def apostropheChar (c : Char) : List Char := if c = '\'' then ['\'', '\''] else [c]

lemma apostropheText_inline (indent : Nat) (cs : List Char)
    (h : ∀ c ∈ cs, isWrittenBreak c = false) :
    apostropheText indent [] cs = cs.flatMap apostropheChar := by
  induction cs with
  | nil => rfl
  | cons c cs ih =>
    rw [List.forall_mem_cons] at h
    rw [apostropheText, if_neg (by simp [h.1]), ih h.2]
    rfl

/-- A scalar without line breaks is written on one line, whatever the indentation is. -/
lemma styled_inline (indent : Nat) (tag : Tag) (cs : List Char) (hcs : IsScalarText tag cs)
    (h : isMultiline cs = false) :
    styled indent (styleOf tag cs) cs = styled 0 (styleOf tag cs) cs ∧
      ∀ c ∈ styled indent (styleOf tag cs) cs, IsInline c := by
  rw [isMultiline, List.any_eq_false] at h
  have hbreak : ∀ c ∈ cs, isWrittenBreak c = false := fun c hc => by simpa using h c hc
  cases hstyle : styleOf tag cs with
  | plain =>
    obtain ⟨c, rest, rfl, htext, -⟩ := plain_of_styleOf tag cs hcs hstyle
    refine ⟨rfl, fun d hd => ?_⟩
    exact isInline_of_isWritable d (htext.chars d hd).1 (htext.chars d hd).2
  | apostrophes =>
    have hallowed := apostrophes_of_styleOf tag cs hstyle
    rw [allowsApostrophes, Bool.and_eq_true, List.all_eq_true] at hallowed
    have hmark : IsInline '\'' := isInline_of_printable _ (by decide)
    unfold styled
    dsimp only
    rw [apostropheText_inline _ cs hbreak, apostropheText_inline _ cs hbreak]
    refine ⟨rfl, ?_⟩
    rw [List.cons_append, List.forall_mem_cons, List.forall_mem_append, List.forall_mem_singleton]
    refine ⟨hmark, fun d hd => ?_, hmark⟩
    obtain ⟨c, hc, hd⟩ := List.mem_flatMap.mp hd
    unfold apostropheChar at hd
    split at hd
    · simp only [List.mem_cons, List.not_mem_nil, or_false, or_self] at hd
      exact hd ▸ hmark
    · obtain rfl := List.mem_singleton.mp hd
      exact isInline_of_isWritable d (hallowed.1 d hc) (hbreak d hc)
  | doubleQuotes =>
    have hmark : IsInline '"' := isInline_of_printable _ (by decide)
    refine ⟨rfl, ?_⟩
    unfold styled
    dsimp only
    rw [List.cons_append, List.forall_mem_cons, List.forall_mem_append, List.forall_mem_singleton]
    refine ⟨hmark, fun d hd => ?_, hmark⟩
    obtain ⟨c, -, hd⟩ := List.mem_flatMap.mp hd
    exact isInline_quotedChar c d hd

/-! ## Tokens of nodes -/

/-- A key can be found by its colon if it is no longer than the scanner looks back. -/
def IsFindable (cs : List Char) : Prop :=
  (Node.scalar .str cs).isSimpleKey = true → (styled 0 (styleOf .str cs) cs).length ≤ 1024

/-- A node as values have it: collections with their usual tags, scalars with forms that suggest their
tags, and texts that can be found as keys. -/
inductive IsWritten : Node → Prop
  | scalar (tag : Tag) (cs : List Char) : IsScalarText tag cs → IsWritten (.scalar tag cs)
  | sequence (items : List Node) : (∀ item ∈ items, IsWritten item) →
      IsWritten (.sequence .sequence items)
  | mapping (entries : List (Node × Node)) :
      (∀ e ∈ entries, ∃ cs, e.1 = .scalar .str cs ∧ IsFindable cs) →
      (∀ e ∈ entries, IsWritten e.2) → IsWritten (.mapping .mapping entries)

/-- What stands to the left of a value under a key. -/
def valueLeft (key : Node) : Left := if key.isSimpleKey then .key else .mark

/-- The tokens of a block collection, with a start and an end unless it is level with its key. -/
def blockTokens (start : Token) (level : Bool) (tokens : List Token) : List Token :=
  if level then tokens else start :: tokens ++ [.blockEnd]

mutual

/-- The tokens of a written node. -/
def tokensOf (left : Left) : Node → List Token
  | .scalar tag cs => [scalarToken tag cs]
  | .sequence _ [] => [.listOpen, .listClose]
  | .sequence _ (item :: rest) => blockTokens .sequenceStart (left = .key) (itemTokens (item :: rest))
  | .mapping _ [] => [.mapOpen, .mapClose]
  | .mapping _ (entry :: rest) => blockTokens .mappingStart false (entryTokens (entry :: rest))

/-- The tokens of the items of a sequence. -/
def itemTokens : List Node → List Token
  | [] => []
  | item :: rest => .dash :: tokensOf .mark item ++ itemTokens rest

/-- The tokens of the entries of a mapping. -/
def entryTokens : List (Node × Node) → List Token
  | [] => []
  | (key, value) :: rest =>
    .key :: tokensOf .mark key ++ .value :: tokensOf (valueLeft key) value ++ entryTokens rest

end

/-! ## Where nodes begin and end -/

/-- The scanner stands where a node begins: at the front of the text, or behind a mark or a key of a
collection that is indented by `indent`. -/
inductive Begins (s : Scanner) : Left → Nat → List Char → List Nat → List Token → Prop
  | margin (cs : List Char) : Standing s cs 0 [] [] true → Begins s .margin 0 cs [] []
  | mark (indent : Nat) (cs : List Char) (blocks : List Nat) (tokens : List Token) :
      Standing s cs (indent + 1) (indent :: blocks) tokens true →
      Begins s .mark indent cs (indent :: blocks) tokens
  | key (indent column : Nat) (cs : List Char) (blocks : List Nat) (tokens : List Token) :
      indent < column → Standing s cs column (indent :: blocks) tokens false →
      Begins s .key indent cs (indent :: blocks) tokens

/-- The least indentation of what goes on inside block collections. -/
def leastIndent (blocks : List Nat) : Nat := blocks.head?.elim 0 (· + 1)

/-- The scanner comes from one place to the end of a line. Block collections may be left open inside
those that were open before; all tokens are scanned but their ends. -/
def ComesTo (s : Scanner) (count : Nat) (tail : List Char) (blocks : List Nat)
    (tokens : List Token) : Prop :=
  ∃ t inner tokens', Relation.ReflTransGen Steps s t ∧
    EndsLine t count tail (inner ++ blocks) tokens' ∧ (∀ b ∈ inner, leastIndent blocks ≤ b) ∧
    inner.map (fun _ => Token.blockEnd) ++ tokens' = tokens

/-- A node is scanned to its tokens wherever it is written. -/
def Scans (n : Node) : Prop :=
  ∀ s left indent blocks tokens count tail,
    Begins s left indent (n.write indent left ++ (newLine count ++ tail)) blocks tokens →
    FollowsLine (leastIndent blocks) count tail →
    ComesTo s count tail blocks ((tokensOf left n).reverse ++ tokens)

/-! ## Lines of block collections -/

/-- Some lines of a block collection in a column are scanned to tokens, wherever they are written. -/
def ScansAs (start : Token) (column : Nat) (cs : List Char) (taken : List Token) : Prop :=
  ∀ s r blocks tokens count tail, prepare s = .ok r →
    Standing r (cs ++ (newLine count ++ tail)) column blocks tokens true →
    (∀ b ∈ blocks.head?, b ≤ column) → FollowsLine (column + 1) count tail →
    ComesTo s count tail (opened column blocks)
      (taken.reverse ++ openedTokens start column blocks tokens)

lemma opened_of_le (column : Nat) (blocks : List Nat) (h : ∀ b ∈ blocks.head?, b ≤ column) :
    ∃ outer, opened column blocks = column :: outer := by
  cases blocks with
  | nil => exact ⟨[], rfl⟩
  | cons b blocks =>
    by_cases hb : b < column
    · exact ⟨b :: blocks, by simp [opened, opens, hb]⟩
    · obtain rfl : b = column := le_antisymm (h b rfl) (Nat.not_lt.mp hb)
      exact ⟨blocks, by simp [opened, opens]⟩

lemma opened_self (start : Token) (column : Nat) (outer : List Nat) (tokens : List Token) :
    opened column (column :: outer) = column :: outer ∧
      openedTokens start column (column :: outer) tokens = tokens := by
  simp [opened, openedTokens, opens]

/-- A line in a column closes what is open inside the collection of the column. -/
lemma openAt_inner (column : Nat) (inner outer : List Nat) (h : ∀ b ∈ inner, column + 1 ≤ b) :
    openAt column (inner ++ column :: outer) = column :: outer ∧
      endsBefore column (inner ++ column :: outer) = inner.map fun _ => Token.blockEnd := by
  have hinner : ∀ b ∈ inner, decide (column < b) = true := fun b hb => by simpa using h b hb
  unfold openAt endsBefore
  rw [List.dropWhile_append_of_pos hinner, List.takeWhile_append_of_pos hinner]
  simp

lemma ComesTo.next {s : Scanner} {column : Nat} {tail : List Char} {outer : List Nat}
    {tokens : List Token} (h : ComesTo s column tail (column :: outer) tokens)
    (htail : StartsSolid tail) :
    ∃ t r, Relation.ReflTransGen Steps s t ∧ prepare t = .ok r ∧
      Standing r tail column (column :: outer) tokens true := by
  obtain ⟨t, inner, tokens', hsteps, hend, hinner, htokens⟩ := h
  obtain ⟨r, hr, hstanding⟩ := prepare_of_endsLine t column tail _ tokens' hend htail
  obtain ⟨hopen, hends⟩ := openAt_inner column inner outer hinner
  rw [hopen, hends, htokens] at hstanding
  exact ⟨t, r, hsteps, hr, hstanding⟩

lemma ComesTo.trans {s t : Scanner} {count : Nat} {tail : List Char} {blocks : List Nat}
    {tokens : List Token} (hsteps : Relation.ReflTransGen Steps s t)
    (h : ComesTo t count tail blocks tokens) : ComesTo s count tail blocks tokens := by
  obtain ⟨t', inner, tokens', hmore, hrest⟩ := h
  exact ⟨t', inner, tokens', hsteps.trans hmore, hrest⟩

/-- Lines one below another are scanned one after another. -/
lemma scansAs_append (start : Token) (column : Nat) (cs ds : List Char) (d : Char)
    (taken taken' : List Token) (hd : IsSolid d) (h : ScansAs start column cs taken)
    (h' : ScansAs start column (d :: ds) taken') :
    ScansAs start column (cs ++ (newLine column ++ d :: ds)) (taken ++ taken') := by
  intro s r blocks tokens count tail hr hstanding hblocks hfollows
  obtain ⟨outer, houter⟩ := opened_of_le column blocks hblocks
  rw [List.append_assoc, List.append_assoc] at hstanding
  have hline : FollowsLine (column + 1) column (d :: ds ++ (newLine count ++ tail)) :=
    .line column d _ hd (Nat.lt_succ_self column)
  have hfirst := h s r blocks tokens column _ hr hstanding hblocks hline
  rw [houter] at hfirst ⊢
  obtain ⟨t, r', hsteps, hr', hstanding'⟩ := hfirst.next hline.startsSolid
  obtain ⟨hsame, htokens⟩ := opened_self start column outer
    (taken.reverse ++ openedTokens start column blocks tokens)
  have hsecond := h' t r' _ _ count tail hr' hstanding' (by simp) hfollows
  rw [hsame, htokens] at hsecond
  rw [List.reverse_append, List.append_assoc]
  exact hsecond.trans hsteps

lemma write_mark (indent : Nat) (n : Node) : ∃ cs, n.write indent .mark = ' ' :: cs := by
  cases n with
  | scalar tag cs => exact ⟨_, by rw [Node.write]; rfl⟩
  | sequence tag items => cases items <;> exact ⟨_, by rw [Node.write]; rfl⟩
  | mapping tag entries => cases entries <;> exact ⟨_, by rw [Node.write]; rfl⟩

lemma startsWhite_write_key (indent : Nat) (n : Node) (rest : List Char) :
    startsWhite (n.write indent .key ++ rest) = true := by
  cases n with
  | scalar tag cs => rw [Node.write]; rfl
  | sequence tag items => cases items <;> (rw [Node.write]; rfl)
  | mapping tag entries => cases entries <;> (rw [Node.write]; rfl)

/-- A node behind a mark of a block collection. -/
lemma scansAs_marked (mark : Char × Token × Token) (hmark : mark ∈ blockMarks) (column : Nat)
    (n : Node) (hn : Scans n) :
    ScansAs mark.2.2 column (mark.1 :: n.write column .mark) (mark.2.1 :: tokensOf .mark n) := by
  intro s r blocks tokens count tail hr hstanding hblocks hfollows
  obtain ⟨outer, houter⟩ := opened_of_le column blocks hblocks
  obtain ⟨cs, hcs⟩ := write_mark column n
  rw [hcs, List.cons_append, List.cons_append] at hstanding
  obtain ⟨t, htoken, ht⟩ := token_mark r mark hmark _ column blocks tokens hstanding
  have hsteps : Steps s t := by
    refine ⟨r, mark.1, _, hr, hstanding.rest, htoken, by rw [ht.rest], ?_⟩
    rw [ht.tokens]
    revert mark
    simp [blockMarks, Scanner.run.isLast]
  rw [houter] at ht ⊢
  have hnode := hn t .mark column (column :: outer) _ count tail
    (.mark column _ outer _ (by rw [hcs]; exact ht)) hfollows
  rw [List.reverse_cons, List.append_assoc]
  exact hnode.trans (.single hsteps)

/-- A value behind a key on its line. -/
lemma scansAs_keyed (column : Nat) (cs : List Char) (value : Node)
    (hsimple : (Node.scalar .str cs).isSimpleKey = true) (hcs : IsFindable cs) (hvalue : Scans value) :
    ScansAs .mappingStart column
      (styled (column + 2) (styleOf .str cs) cs ++ ':' :: value.write column .key)
      (.key :: scalarToken .str cs :: .value :: tokensOf .key value) := by
  intro s r blocks tokens count tail hr hstanding hblocks hfollows
  obtain ⟨outer, houter⟩ := opened_of_le column blocks hblocks
  have hlength := hcs hsimple
  rw [Node.isSimpleKey, Bool.and_eq_true, Bool.and_eq_true, Bool.not_eq_true',
    Bool.not_eq_true'] at hsimple
  obtain ⟨hsame, hinline⟩ := styled_inline (column + 2) .str cs (.inl rfl) hsimple.1.2
  have hmore := startsWhite_write_key column value (newLine count ++ tail)
  rw [List.append_assoc, List.cons_append] at hstanding
  obtain ⟨t, width, crosses, hsteps, ht, hwidth⟩ := steps_scalar s r (column + 1) .str cs _ column blocks
    tokens true (.inl rfl) hr hstanding (by simp) 0 false (by
      intro hstyle
      obtain ⟨c, rest, rfl, htext, -⟩ := plain_of_styleOf .str cs (.inl rfl) hstyle
      exact plainScalar_key _ c rest _ htext hmore)
  have hall : width = (styled (column + 2) (styleOf .str cs) cs).length := by
    rcases hwidth with ⟨hstyle, rfl, -⟩ | ⟨-, hwidth⟩
    · rw [hstyle]
      rfl
    · exact hwidth
  subst hall
  obtain ⟨t', hreaches, ht'⟩ := reaches_value s r t _ _ column blocks tokens _ crosses hstanding hsteps ht
    (fun c hc => ⟨(hinline c hc).1, (hinline c hc).2.1⟩) (hsame ▸ hlength) hblocks hmore
  rw [houter] at ht' ⊢
  have hnode := hvalue t' .key column (column :: outer) _ count tail
    (.key column _ _ outer _ (by omega) ht') hfollows
  simp only [List.reverse_cons, List.append_assoc, List.singleton_append]
  exact hnode.trans hreaches

/-- All lines of a block collection are scanned when each of its pieces is. -/
lemma scansAs_lines (start : Token) (column : Nat) (pieces : List (List Char × List Token))
    (hne : pieces ≠ []) (h : ∀ p ∈ pieces, ScansAs start column p.1 p.2 ∧
      ∃ c cs, p.1 = c :: cs ∧ IsSolid c) :
    ScansAs start column ((pieces.map Prod.fst).intersperse (newLine column)).flatten
        (pieces.map Prod.snd).flatten ∧
      ∃ c cs, ((pieces.map Prod.fst).intersperse (newLine column)).flatten = c :: cs ∧ IsSolid c := by
  induction pieces with
  | nil => exact absurd rfl hne
  | cons p pieces ih =>
    rw [List.forall_mem_cons] at h
    cases pieces with
    | nil => simpa using h.1
    | cons q pieces =>
      obtain ⟨hrest, c, cs, hcs, hc⟩ := ih (List.cons_ne_nil q pieces) h.2
      obtain ⟨d, ds, hds, hd⟩ := h.1.2
      have hlines : ((p :: q :: pieces).map Prod.fst).intersperse (newLine column) =
          p.1 :: newLine column :: ((q :: pieces).map Prod.fst).intersperse (newLine column) := rfl
      rw [hcs] at hrest
      rw [hlines, List.flatten_cons, List.flatten_cons, hcs, List.map_cons, List.flatten_cons]
      exact ⟨scansAs_append start column p.1 cs c p.2 _ hc h.1.1 hrest, d, _, by rw [hds]; rfl, hd⟩

/-- The text of an entry in a column. -/
def entryText (column : Nat) (e : Node × Node) : List Char :=
  if e.1.isSimpleKey then e.1.write column .margin ++ ':' :: e.2.write column .key
  else '?' :: e.1.write column .mark ++ newLine column ++ ':' :: e.2.write column .mark

lemma writeItems_eq_map (column : Nat) (items : List Node) :
    writeItems column items = items.map fun item => '-' :: item.write column .mark := by
  induction items with
  | nil => rfl
  | cons item rest ih => rw [writeItems, ih, List.map_cons]

lemma itemTokens_eq_flatten (items : List Node) :
    itemTokens items = (items.map fun item => .dash :: tokensOf .mark item).flatten := by
  induction items with
  | nil => rfl
  | cons item rest ih => rw [itemTokens, ih, List.map_cons, List.flatten_cons]

lemma writeEntries_eq_map (column : Nat) (entries : List (Node × Node)) :
    writeEntries column entries = entries.map (entryText column) := by
  induction entries with
  | nil => rfl
  | cons e rest ih => rw [writeEntries, ih, List.map_cons]; rfl

lemma entryTokens_eq_flatten (entries : List (Node × Node)) :
    entryTokens entries = (entries.map fun e =>
      .key :: tokensOf .mark e.1 ++ .value :: tokensOf (valueLeft e.1) e.2).flatten := by
  induction entries with
  | nil => rfl
  | cons e rest ih => rw [entryTokens, ih, List.map_cons, List.flatten_cons]

/-- The lines of a sequence. -/
lemma scansAs_items (column : Nat) (items : List Node) (hne : items ≠ [])
    (h : ∀ item ∈ items, Scans item) :
    ScansAs .sequenceStart column ((writeItems column items).intersperse (newLine column)).flatten
        (itemTokens items) ∧
      ∃ c cs, ((writeItems column items).intersperse (newLine column)).flatten = c :: cs ∧
        IsSolid c := by
  have hlines := scansAs_lines .sequenceStart column
    (items.map fun item => ('-' :: item.write column .mark, .dash :: tokensOf .mark item))
    (by simpa using hne) (by
      rw [List.forall_mem_map]
      intro item hitem
      refine ⟨?_, '-', _, rfl, by decide⟩
      exact scansAs_marked ('-', .dash, .sequenceStart) (by simp [blockMarks]) column item (h item hitem))
  rw [List.map_map, List.map_map] at hlines
  rw [writeItems_eq_map, itemTokens_eq_flatten]
  exact hlines

lemma styled_start (indent : Nat) (tag : Tag) (cs : List Char) (hcs : IsScalarText tag cs) :
    ∃ c ds, styled indent (styleOf tag cs) cs = c :: ds ∧ IsSolid c := by
  cases hstyle : styleOf tag cs with
  | plain =>
    obtain ⟨c, rest, rfl, htext, -⟩ := plain_of_styleOf tag cs hcs hstyle
    refine ⟨c, rest, rfl, htext.head, ?_, ?_, (htext.outside c List.mem_cons_self).1⟩
    · rintro rfl
      exact htext.mark (by decide)
    · exact (isWritable_spec c (htext.chars c List.mem_cons_self).1).2.2.1
  | apostrophes => exact ⟨'\'', _, rfl, by decide⟩
  | doubleQuotes => exact ⟨'"', _, rfl, by decide⟩

/-- An entry, with its key on the line of its value or on one of its own. -/
lemma scansAs_entry (column : Nat) (cs : List Char) (value : Node) (hcs : IsFindable cs)
    (hkey : Scans (.scalar .str cs)) (hvalue : Scans value) :
    ScansAs .mappingStart column (entryText column (.scalar .str cs, value))
        (.key :: tokensOf .mark (.scalar .str cs) ++
          .value :: tokensOf (valueLeft (.scalar .str cs)) value) ∧
      ∃ c ds, entryText column (.scalar .str cs, value) = c :: ds ∧ IsSolid c := by
  unfold entryText valueLeft
  dsimp only
  split
  · next hsimple =>
    have hwrite : (Node.scalar .str cs).write column .margin =
        styled (column + 2) (styleOf .str cs) cs := by
      rw [Node.write]
      rfl
    obtain ⟨c, ds, hds, hc⟩ := styled_start (column + 2) .str cs (.inl rfl)
    rw [hwrite, tokensOf]
    exact ⟨scansAs_keyed column cs value hsimple hcs hvalue, c, _, by rw [hds]; rfl, hc⟩
  · have hfirst := scansAs_marked ('?', .key, .mappingStart) (by simp [blockMarks]) column _ hkey
    have hsecond := scansAs_marked (':', .value, .mappingStart) (by simp [blockMarks]) column _ hvalue
    rw [List.append_assoc]
    exact ⟨scansAs_append .mappingStart column _ _ ':' _ _ (by decide) hfirst hsecond, '?', _, rfl,
      by decide⟩

/-- The lines of a mapping. -/
lemma scansAs_entries (column : Nat) (entries : List (Node × Node)) (hne : entries ≠ [])
    (hkeys : ∀ e ∈ entries, ∃ cs, e.1 = .scalar .str cs ∧ IsFindable cs)
    (hscalars : ∀ cs, Scans (.scalar .str cs)) (hvalues : ∀ e ∈ entries, Scans e.2) :
    ScansAs .mappingStart column
        ((writeEntries column entries).intersperse (newLine column)).flatten (entryTokens entries) ∧
      ∃ c cs, ((writeEntries column entries).intersperse (newLine column)).flatten = c :: cs ∧
        IsSolid c := by
  have hlines := scansAs_lines .mappingStart column
    (entries.map fun e => (entryText column e,
      .key :: tokensOf .mark e.1 ++ .value :: tokensOf (valueLeft e.1) e.2))
    (by simpa using hne) (by
      rw [List.forall_mem_map]
      rintro ⟨key, value⟩ he
      obtain ⟨cs, rfl, hcs⟩ := hkeys _ he
      exact scansAs_entry column cs value hcs (hscalars cs) (hvalues _ he))
  rw [List.map_map, List.map_map] at hlines
  rw [writeEntries_eq_map, entryTokens_eq_flatten]
  exact hlines

/-! ## Nodes -/

/-- The scanner comes to a node that takes no line of its own. -/
lemma prepare_inline (s : Scanner) (left : Left) (indent : Nat) (c : Char) (cs rest : List Char)
    (blocks : List Nat) (tokens : List Token)
    (h : Begins s left indent (inline left (c :: cs) ++ rest) blocks tokens) (hc : IsSolid c) :
    ∃ r column, prepare s = .ok r ∧
      Standing r (c :: cs ++ rest) column blocks tokens (left ≠ .key) ∧
      ∀ b ∈ blocks.head?, b < column := by
  have hsolid : StartsSolid (c :: cs ++ rest) := fun d hd => Option.some.inj hd ▸ hc
  cases h with
  | margin _ h =>
    obtain ⟨r, hr, hstanding⟩ := prepare_blanks s 0 _ 0 [] [] true h hsolid (by simp)
    exact ⟨r, 0, hr, hstanding, by simp⟩
  | mark _ _ blocks _ h =>
    obtain ⟨r, hr, hstanding⟩ := prepare_blanks s 1 (c :: cs ++ rest) _ _ _ _ h hsolid (by
      simp
      omega)
    exact ⟨r, indent + 1 + 1, hr, hstanding, by simp⟩
  | key _ column _ blocks _ hcolumn h =>
    obtain ⟨r, hr, hstanding⟩ := prepare_blanks s 1 (c :: cs ++ rest) _ _ _ _ h hsolid (by
      simp
      omega)
    exact ⟨r, column + 1, hr, hstanding, by simp; omega⟩

/-- The indentation of a block by what stands to its left. -/
def IsIndented (indent inner : Nat) : Left → Prop
  | .margin => inner = indent
  | .mark => inner = indent + 2
  | .key => indent ≤ inner

/-- The scanner comes to the first line of a block. -/
lemma prepare_block (s : Scanner) (left : Left) (indent inner : Nat) (pieces : List (List Char))
    (rest : List Char) (blocks : List Nat) (tokens : List Token)
    (h : Begins s left indent (Yaml.block left inner pieces ++ rest) blocks tokens)
    (hinner : IsIndented indent inner left)
    (hpieces : ∃ c cs, (pieces.intersperse (newLine inner)).flatten = c :: cs ∧ IsSolid c) :
    ∃ r, prepare s = .ok r ∧
      Standing r ((pieces.intersperse (newLine inner)).flatten ++ rest) inner blocks tokens true ∧
      ∀ b ∈ blocks.head?, b ≤ inner := by
  obtain ⟨c, cs, hcs, hc⟩ := hpieces
  have hsolid : StartsSolid ((pieces.intersperse (newLine inner)).flatten ++ rest) := by
    rw [hcs]
    exact fun d hd => Option.some.inj hd ▸ hc
  cases h with
  | margin _ h =>
    obtain rfl : inner = 0 := hinner
    obtain ⟨r, hr, hstanding⟩ := prepare_blanks s 0 _ 0 [] [] true h hsolid (by simp)
    exact ⟨r, hr, hstanding, by simp⟩
  | mark _ _ blocks _ h =>
    obtain rfl : inner = indent + 2 := hinner
    have hblocks : ∀ b ∈ (indent :: blocks).head?, b ≤ indent + 2 := by simp
    obtain ⟨r, hr, hstanding⟩ := prepare_blanks s 1 _ _ _ _ _ h hsolid hblocks
    exact ⟨r, hr, hstanding, hblocks⟩
  | key _ column _ blocks _ hcolumn h =>
    have hle : indent ≤ inner := hinner
    have hblocks : ∀ b ∈ (indent :: blocks).head?, b ≤ inner := by simpa using hle
    have hrest := h.rest
    rw [Yaml.block, List.append_assoc] at hrest
    obtain ⟨r, hr, hstanding⟩ := prepare_newLine s inner _ hrest hsolid h.outer (by simp [h.place])
    obtain ⟨hopen, hends⟩ := openAt_of_le inner (indent :: blocks) hblocks
    rw [h.blocks, h.tokens, hopen, hends, List.nil_append] at hstanding
    exact ⟨r, hr, hstanding, hblocks⟩

lemma leastIndent_le (blocks : List Nat) (column : Nat) (h : ∀ b ∈ blocks.head?, b ≤ column) :
    leastIndent blocks ≤ column + 1 := by
  cases blocks with
  | nil => exact Nat.zero_le _
  | cons b blocks => exact Nat.succ_le_succ (h b rfl)

lemma comesTo_of_endsLine (s t : Scanner) (count : Nat) (tail : List Char) (blocks : List Nat)
    (tokens : List Token) (hsteps : Relation.ReflTransGen Steps s t)
    (h : EndsLine t count tail blocks tokens) : ComesTo s count tail blocks tokens :=
  ⟨t, [], tokens, hsteps, h, by simp, rfl⟩

lemma scans_scalar (tag : Tag) (cs : List Char) (hcs : IsScalarText tag cs) :
    Scans (.scalar tag cs) := by
  intro s left indent blocks tokens count tail hbegins hfollows
  obtain ⟨c, ds, hds, hc⟩ := styled_start (indent + 2) tag cs hcs
  rw [Node.write, hds] at hbegins
  obtain ⟨r, column, hr, hstanding, hblocks⟩ := prepare_inline s left indent c ds _ blocks tokens
    hbegins hc
  rw [← hds] at hstanding
  have hindent : r.scalarIndent = leastIndent blocks := by
    rw [scalarIndent, hstanding.blocks]
    rfl
  have hfollowing : ∀ e ∈ (newLine count ++ tail).head?, e ≠ '\'' ∧ e ≠ '-' ∧ e ≠ '.' := by
    simp [newLine]
  obtain ⟨t, width, crosses, hsteps, ht, hwidth⟩ := steps_scalar s r (indent + 1) tag cs _ column
    blocks tokens _ hcs hr hstanding hfollowing (count + 1) true (by
      intro hstyle
      obtain ⟨c, rest, rfl, htext, -⟩ := plain_of_styleOf tag cs hcs hstyle
      rw [hindent]
      exact plainScalar_line _ count c rest tail htext hfollows)
  refine comesTo_of_endsLine s t count tail blocks _ (.single hsteps) ?_
  refine endsLine_of_passes r t _ tail count width column blocks tokens _ _ crosses hstanding ht
    hblocks ?_
  rcases hwidth with ⟨hstyle, hwidth, hcrosses⟩ | ⟨-, hwidth⟩
  · obtain ⟨c, rest, rfl, htext, -⟩ := plain_of_styleOf tag cs hcs hstyle
    rw [hstyle]
    refine .inr ⟨hwidth, hcrosses, fun d hd => ⟨(htext.outside d hd).1, ?_⟩⟩
    exact (isWritable_spec d (htext.chars d hd).1).2.2.1
  · exact .inl hwidth

/-- Brackets with nothing between them. -/
lemma comesTo_brackets (brackets : (Char × Char) × (Token × Token)) (hbrackets : brackets ∈ bracketPairs)
    (s : Scanner) (left : Left) (indent : Nat) (blocks : List Nat) (tokens : List Token) (count : Nat)
    (tail : List Char)
    (h : Begins s left indent (inline left [brackets.1.1, brackets.1.2] ++ (newLine count ++ tail))
      blocks tokens) :
    ComesTo s count tail blocks ([brackets.2.2, brackets.2.1] ++ tokens) := by
  have hpair := isBracketPair_of_mem brackets hbrackets
  obtain ⟨r, column, hr, hstanding, hblocks⟩ :=
    prepare_inline s left indent _ _ _ blocks tokens h hpair.solid.1
  obtain ⟨t, hsteps, ht⟩ := passes_brackets s hpair hr hstanding
  refine comesTo_of_endsLine s t count tail blocks _ hsteps ?_
  exact endsLine_of_passes r t [brackets.1.1, brackets.1.2] tail count 2 column blocks tokens _ _ false
    hstanding ht hblocks (.inl rfl)

/-- A block with its start and its end, unless it is level with its key. -/
lemma comesTo_block (s : Scanner) (left : Left) (indent inner : Nat) (pieces : List (List Char))
    (start : Token) (level : Bool) (taken : List Token) (blocks : List Nat) (tokens : List Token)
    (count : Nat) (tail : List Char)
    (h : Begins s left indent (Yaml.block left inner pieces ++ (newLine count ++ tail)) blocks tokens)
    (hinner : IsIndented indent inner left) (hlevel : opens inner blocks = !level)
    (hlines : ScansAs start inner (pieces.intersperse (newLine inner)).flatten taken ∧
      ∃ c cs, (pieces.intersperse (newLine inner)).flatten = c :: cs ∧ IsSolid c)
    (hfollows : FollowsLine (leastIndent blocks) count tail) :
    ComesTo s count tail blocks ((blockTokens start level taken).reverse ++ tokens) := by
  obtain ⟨r, hr, hstanding, hblocks⟩ := prepare_block s left indent inner pieces _ blocks tokens h hinner
    hlines.2
  have hcomes := hlines.1 s r blocks tokens count tail hr hstanding hblocks
    (hfollows.mono (leastIndent_le blocks inner hblocks))
  unfold opened openedTokens at hcomes
  cases level with
  | true => simpa [hlevel, blockTokens] using hcomes
  | false =>
    rw [hlevel] at hcomes
    obtain ⟨t, more, tokens', hsteps, hend, hmore, htokens⟩ := hcomes
    simp only [Bool.not_false, if_true] at hend hmore htokens
    refine ⟨t, more ++ [inner], tokens', hsteps, by simpa using hend, ?_, ?_⟩
    · have hopens : leastIndent blocks ≤ inner := by
        cases blocks with
        | nil => exact Nat.zero_le _
        | cons b blocks => simpa [opens, leastIndent] using hlevel
      rw [List.forall_mem_append, List.forall_mem_singleton]
      refine ⟨fun b hb => ?_, hopens⟩
      have hb : inner + 1 ≤ b := hmore b hb
      omega
    · have hends : (more ++ [inner]).map (fun _ => Token.blockEnd) =
          .blockEnd :: more.map fun _ => .blockEnd := by
        rw [List.map_const', List.map_const', List.length_append]
        rfl
      rw [hends, List.cons_append, htokens]
      simp [blockTokens]

/-- Written nodes are scanned to their tokens. -/
lemma scans_of_isWritten (n : Node) (hn : IsWritten n) : Scans n := by
  induction hn with
  | scalar tag cs hcs => exact scans_scalar tag cs hcs
  | sequence items _ ih =>
    intro s left indent blocks tokens count tail hbegins hfollows
    cases items with
    | nil =>
      rw [Node.write] at hbegins
      rw [tokensOf]
      exact comesTo_brackets (('[', ']'), (.listOpen, .listClose)) (by simp [bracketPairs]) s left indent
        blocks tokens count tail hbegins
    | cons item rest =>
      rw [Node.write] at hbegins
      rw [tokensOf]
      refine comesTo_block s left indent (sequenceIndent indent left) _ .sequenceStart _ _ blocks tokens
        count tail hbegins ?_ ?_ (scansAs_items _ (item :: rest) (List.cons_ne_nil _ _) ih) hfollows
      · cases left <;> simp [IsIndented, sequenceIndent]
      · cases hbegins <;> simp [opens, sequenceIndent]
  | mapping entries hkeys _ ih =>
    intro s left indent blocks tokens count tail hbegins hfollows
    cases entries with
    | nil =>
      rw [Node.write] at hbegins
      rw [tokensOf]
      exact comesTo_brackets (('\x7b', '\x7d'), (.mapOpen, .mapClose)) (by simp [bracketPairs]) s left
        indent blocks tokens count tail hbegins
    | cons entry rest =>
      rw [Node.write] at hbegins
      rw [tokensOf]
      refine comesTo_block s left indent (mappingIndent indent left) _ .mappingStart _ _ blocks tokens
        count tail hbegins ?_ ?_ (scansAs_entries _ (entry :: rest) (List.cons_ne_nil _ _) hkeys
          (fun cs => scans_scalar .str cs (.inl rfl)) ih) hfollows
      · cases left <;> simp [IsIndented, mappingIndent]
      · cases hbegins <;> simp [opens, mappingIndent]

/-- The tokens of a written document. -/
theorem scan_text (n : Node) (hn : IsWritten n) :
    scan n.text = tokensOf .margin n ++
      (if n.isPlain then [.documentEnd, .streamEnd] else [.streamEnd]) := by
  let tail : List Char := if n.isPlain then ['.', '.', '.', '\n'] else []
  have hstart : Begins { cursor := { rest := n.text } } .margin 0
      (n.write 0 .margin ++ (newLine 0 ++ tail)) [] [] :=
    .margin _ ⟨rfl, rfl, rfl, rfl, rfl, rfl, rfl⟩
  have hfollows : FollowsLine (leastIndent []) 0 tail := by
    by_cases hplain : n.isPlain
    · exact .separator _ (by rw [show tail = _ from if_pos hplain]; rfl)
    · rw [show tail = _ from if_neg hplain]
      exact .last
  obtain ⟨t, inner, tokens, hsteps, hend, -, htokens⟩ :=
    scans_of_isWritten n hn _ .margin 0 [] [] 0 tail hstart hfollows
  rw [List.append_nil] at hend htokens
  unfold scan
  rw [run_of_reaches _ t hsteps]
  by_cases hplain : n.isPlain
  · -- A plain scalar leaves no collection open, so only the mark of the end is left.
    rw [if_pos hplain]
    rw [show tail = _ from if_pos hplain] at hend
    obtain rfl : inner = [] := by
      cases n with
      | scalar tag cs =>
        rw [tokensOf] at htokens
        cases inner with
        | nil => rfl
        | cons b inner => cases (List.cons.inj htokens).1
      | sequence | mapping => cases hplain
    have hall := congrArg List.reverse htokens
    rw [List.map_nil, List.nil_append, List.reverse_reverse] at hall
    rw [run_of_documentEnd t tokens hend, hall]
  · rw [if_neg hplain]
    rw [show tail = _ from if_neg hplain] at hend
    have hall := congrArg List.reverse htokens
    rw [List.reverse_append, List.reverse_reverse, List.map_const', List.reverse_replicate] at hall
    rw [run_of_end t inner tokens hend, List.map_const', hall]

end Rulebook.Proofs
