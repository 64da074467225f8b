import Mathlib
import Rulebook.Yaml.Codec
import Rulebook.Yaml.Standard
import Rulebook.Proofs.Yaml.Values

/-!
# Values through YAML texts

What is written for a value can be read: its characters are allowed, its tokens hold its node, and
its node has no faults. Its texts come back as they are, but for next lines between apostrophes.
-/

namespace Rulebook.Proofs
open Yaml

/-! ## Characters of written nodes -/

/-- A text of characters that are allowed in a text. -/
def AllReadable (cs : List Char) : Prop := ∀ c ∈ cs, isReadable c = true

lemma allReadable_nil : AllReadable [] := List.forall_mem_nil _

lemma allReadable_cons (c : Char) (cs : List Char) :
    AllReadable (c :: cs) ↔ isReadable c = true ∧ AllReadable cs := List.forall_mem_cons

lemma allReadable_append (cs ds : List Char) :
    AllReadable (cs ++ ds) ↔ AllReadable cs ∧ AllReadable ds := List.forall_mem_append

lemma allReadable_blanks (count : Nat) : AllReadable (List.replicate count ' ') := by
  intro c hc
  rw [List.eq_of_mem_replicate hc]
  rfl

lemma allReadable_newLine (count : Nat) : AllReadable (newLine count) :=
  (allReadable_cons '\n' _).mpr ⟨rfl, allReadable_blanks count⟩

lemma allReadable_writtenBreaks (indent : Nat) (breaks : List Char) (h : AllReadable breaks) :
    AllReadable (if breaks.isEmpty then [] else writtenBreaks indent breaks) := by
  split
  · exact allReadable_nil
  · rw [writtenBreaks, allReadable_append, allReadable_append]
    refine ⟨⟨?_, h⟩, allReadable_blanks indent⟩
    split
    · exact (allReadable_cons '\n' []).mpr ⟨rfl, allReadable_nil⟩
    · exact allReadable_nil

lemma allReadable_apostropheText (indent : Nat) (breaks cs : List Char) (hbreaks : AllReadable breaks)
    (hcs : AllReadable cs) : AllReadable (apostropheText indent breaks cs) := by
  induction cs generalizing breaks with
  | nil =>
    rw [apostropheText]
    exact allReadable_writtenBreaks indent breaks hbreaks
  | cons c rest ih =>
    rw [allReadable_cons] at hcs
    have hone : AllReadable [c] := (allReadable_cons c []).mpr ⟨hcs.1, allReadable_nil⟩
    rw [apostropheText]
    split
    · exact ih _ ((allReadable_append breaks [c]).mpr ⟨hbreaks, hone⟩) hcs.2
    · rw [allReadable_append, allReadable_append]
      refine ⟨⟨allReadable_writtenBreaks indent breaks hbreaks, ?_⟩, ih [] allReadable_nil hcs.2⟩
      split
      · simp [AllReadable, isReadable]
      · exact hone

lemma allReadable_styled (indent : Nat) (tag : Tag) (cs : List Char) (hcs : IsScalarText tag cs) :
    AllReadable (styled indent (styleOf tag cs) cs) := by
  cases hstyle : styleOf tag cs with
  | plain =>
    obtain ⟨c, rest, rfl, htext, -⟩ := plain_of_styleOf tag cs hcs hstyle
    exact fun d hd => (isWritable_spec d (htext.chars d hd).1).2.2.2
  | apostrophes =>
    have hallowed := apostrophes_of_styleOf tag cs hstyle
    rw [allowsApostrophes, Bool.and_eq_true, List.all_eq_true] at hallowed
    rw [styled, List.cons_append, allReadable_cons, allReadable_append, allReadable_cons]
    refine ⟨rfl, allReadable_apostropheText indent [] cs allReadable_nil ?_, rfl, allReadable_nil⟩
    exact fun c hc => (isWritable_spec c (hallowed.1 c hc)).2.2.2
  | doubleQuotes =>
    rw [styled, List.cons_append, allReadable_cons, allReadable_append, allReadable_cons]
    refine ⟨rfl, fun d hd => ?_, rfl, allReadable_nil⟩
    obtain ⟨c, -, hd⟩ := List.mem_flatMap.mp hd
    exact (isInline_quotedChar c d hd).2.2

lemma allReadable_inline (left : Left) (cs : List Char) (h : AllReadable cs) :
    AllReadable (Yaml.inline left cs) := by
  unfold Yaml.inline
  split
  · exact h
  · exact (allReadable_cons ' ' cs).mpr ⟨rfl, h⟩

lemma allReadable_lines (count : Nat) (lines : List (List Char)) (h : ∀ l ∈ lines, AllReadable l) :
    AllReadable (lines.intersperse (newLine count)).flatten := by
  induction lines with
  | nil => exact allReadable_nil
  | cons l rest ih =>
    rw [List.forall_mem_cons] at h
    cases rest with
    | nil => simpa using h.1
    | cons l' rest =>
      rw [List.intersperse_cons_cons, List.flatten_cons, List.flatten_cons, allReadable_append,
        allReadable_append]
      exact ⟨h.1, allReadable_newLine count, ih h.2⟩

lemma allReadable_block (left : Left) (indent : Nat) (pieces : List (List Char))
    (h : ∀ l ∈ pieces, AllReadable l) : AllReadable (Yaml.block left indent pieces) := by
  have hlines := allReadable_lines indent pieces h
  cases left with
  | margin => exact hlines
  | mark => exact (allReadable_cons ' ' _).mpr ⟨rfl, hlines⟩
  | key => exact (allReadable_append _ _).mpr ⟨allReadable_newLine indent, hlines⟩

/-- Written nodes hold nothing but readable characters. -/
lemma allReadable_write (n : Node) (hn : IsWritten n) (indent : Nat) (left : Left) :
    AllReadable (n.write indent left) := by
  induction hn generalizing indent left with
  | scalar tag cs hcs =>
    rw [Node.write]
    exact allReadable_inline left _ (allReadable_styled _ tag cs hcs)
  | sequence items _ ih =>
    cases items with
    | nil =>
      rw [Node.write]
      exact allReadable_inline left _ (by simp [AllReadable, isReadable])
    | cons item rest =>
      rw [Node.write, writeItems_eq_map]
      refine allReadable_block left _ _ (List.forall_mem_map.mpr fun item hitem => ?_)
      exact (allReadable_cons '-' _).mpr ⟨rfl, ih item hitem _ _⟩
  | mapping entries hkeys _ ih =>
    cases entries with
    | nil =>
      rw [Node.write]
      exact allReadable_inline left _ (by simp [AllReadable, isReadable])
    | cons entry rest =>
      rw [Node.write, writeEntries_eq_map]
      refine allReadable_block left _ _ (List.forall_mem_map.mpr fun e he => ?_)
      have hkey (indent : Nat) (left : Left) : AllReadable (e.1.write indent left) := by
        obtain ⟨cs, hcs, -⟩ := hkeys e he
        rw [hcs, Node.write]
        exact allReadable_inline left _ (allReadable_styled _ .str cs (.inl rfl))
      unfold entryText
      split
      · rw [allReadable_append, allReadable_cons]
        exact ⟨hkey _ _, rfl, ih e he _ _⟩
      · rw [List.append_assoc, List.cons_append, allReadable_cons, allReadable_append,
          allReadable_append, allReadable_cons]
        exact ⟨rfl, hkey _ _, allReadable_newLine _, rfl, ih e he _ _⟩

lemma allReadable_text (n : Node) (hn : IsWritten n) : AllReadable n.text := by
  unfold Node.text
  rw [allReadable_append, allReadable_cons]
  refine ⟨allReadable_write n hn 0 .margin, rfl, ?_⟩
  split <;> simp [AllReadable, isReadable]

/-! ## Words -/

lemma toNat_of_isAlpha (c : Char) (h : c.isAlpha = true) : 0x41 ≤ c.toNat ∧ c.toNat ≤ 0x7A := by
  simp only [Char.isAlpha, Char.isUpper, Char.isLower, Bool.or_eq_true, Bool.and_eq_true,
    decide_eq_true_eq, ge_iff_le, UInt32.le_iff_toNat_le] at h
  change (65 ≤ c.toNat ∧ c.toNat ≤ 90) ∨ (97 ≤ c.toNat ∧ c.toNat ≤ 122) at h
  omega

lemma holdsBlankBesideBreak_of_no_blank (cs : List Char) (h : ∀ c ∈ cs, c ≠ ' ') :
    holdsBlankBesideBreak cs = false := by
  induction cs with
  | nil => rfl
  | cons c cs ih =>
    rw [List.forall_mem_cons] at h
    cases cs with
    | nil => rfl
    | cons d cs =>
      rw [holdsBlankBesideBreak, ih h.2]
      simp [h.1, h.2 d List.mem_cons_self]

lemma apostropheText_of_inline (indent : Nat) (cs : List Char)
    (h : ∀ c ∈ cs, isWrittenBreak c = false ∧ c ≠ '\'') : apostropheText indent [] cs = cs := by
  induction cs with
  | nil => rfl
  | cons c cs ih =>
    rw [List.forall_mem_cons] at h
    rw [apostropheText, h.1.1, if_neg (by simp), if_neg h.1.2, ih h.2]
    rfl

lemma styleOf_of_isWord (s : String) (h : IsWord s) : styleOf .str s.toList ≠ .doubleQuotes := by
  have hchar : ∀ c ∈ s.toList, isWritable c = true ∧ c ≠ ' ' := by
    intro c hc
    rcases h.2 c hc with halpha | rfl
    · have hrange := toNat_of_isAlpha c halpha
      refine ⟨?_, ?_⟩
      · simp [isWritable]
        omega
      · rintro rfl
        simp at halpha
    · decide
  have hallowed : allowsApostrophes s.toList = true := by
    rw [allowsApostrophes, Bool.and_eq_true, List.all_eq_true,
      holdsBlankBesideBreak_of_no_blank _ fun c hc => (hchar c hc).2]
    exact ⟨fun c hc => (hchar c hc).1, rfl⟩
  unfold styleOf
  rw [hallowed]
  split <;> simp

lemma isFindable_of_isWord (s : String) (h : IsWord s) : IsFindable s.toList := by
  intro hsimple
  have hlength : s.toList.length < 80 := h.1
  cases hstyle : styleOf .str s.toList with
  | plain => exact hlength.le.trans (by decide)
  | apostrophes =>
    have hinline : ∀ c ∈ s.toList, isWrittenBreak c = false ∧ c ≠ '\'' := by
      intro c hc
      have hbreak : isWrittenBreak c = false := by
        simp only [Node.isSimpleKey, isMultiline, Bool.and_eq_true, Bool.not_eq_true',
          List.any_eq_false, Bool.not_eq_true] at hsimple
        exact hsimple.1.2 c hc
      refine ⟨hbreak, ?_⟩
      rintro rfl
      rcases h.2 _ hc with halpha | heq
      · simp at halpha
      · cases heq
    rw [styled, apostropheText_of_inline 0 _ hinline]
    simp only [List.length_append, List.length_cons, List.length_nil]
    omega
  | doubleQuotes => exact absurd hstyle (styleOf_of_isWord s h)

/-! ## Round trips -/

/-- A written document is read as what its node means. -/
lemma read_text (n : Node) (hn : IsWritten n) (w : Value) (hw : Means (reread n) w) :
    Yaml.read n.text = .ok w := by
  unfold Yaml.read
  rw [if_pos (List.all_eq_true.mpr (allReadable_text n hn)), ofTokens?_scan_text n hn]
  exact value_of_means (reread n) w hw

lemma readText_of_style (s : String) (h : styleOf .str s.toList ≠ .apostrophes) : readText s = s := by
  unfold readText readBack
  rw [if_neg h]
  exact String.ofList_toList

/-- The writer and the reader at hand escape next lines between double quotes only. -/
def renderingStandard : Rendering .standard where
  fits s := IsFindable s.toList
  escapes s := styleOf .str s.toList = .doubleQuotes
  back := readText
  roundTrip := by
    intro settings v _ _ hv _ hfits
    obtain ⟨node, w, h⟩ := exists_isReadAs settings.sortKeys.isTrue v hv hfits
    refine ⟨String.ofList node.text, w, ?_, ?_, h.isReadWith⟩
    · dsimp only [Library.standard]
      rw [h.node_eq]
    · have hread := read_text node h.isWritten w h.means
      rw [← String.toList_ofList (l := node.text)] at hread
      change (Yaml.read _).mapError Fault.failure = _
      rw [hread]
      rfl
  back_of_not_mem := by
    intro s hs
    by_cases hstyle : styleOf .str s.toList = .apostrophes
    · unfold readText readBack
      rw [if_pos hstyle, readApostrophes_of_not_mem [] s.toList (by simp) (by simpa using hs)]
      exact String.ofList_toList
    · exact readText_of_style s hstyle
  back_of_escapes s hs := readText_of_style s (by rw [hs]; decide)
  not_mem_back := by
    intro s hs
    cases hstyle : styleOf .str s.toList with
    | plain =>
      obtain ⟨c, rest, hcs, htext, -⟩ := plain_of_styleOf .str s.toList (.inl rfl) hstyle
      rw [readText_of_style s (by rw [hstyle]; decide), hcs]
      intro hnext
      exact absurd (htext.chars _ hnext).2 (by decide)
    | apostrophes =>
      rw [readText, readBack, if_pos hstyle, String.toList_ofList]
      exact not_mem_readApostrophes [] s.toList
    | doubleQuotes => exact absurd hstyle hs
  words s hs := ⟨isFindable_of_isWord s hs, styleOf_of_isWord s hs⟩

/-! ## Codecs -/

section Codecs

variable {lib : Library} (r : Rendering lib) (c : Codec)

/-- What a codec writes for data is read text by text, as the plain value is. -/
lemma exists_isReadWith (v : Value) (hv : IsJsonData (fun _ => False) v)
    (hshort : HasShortIntegers (some 4300) v) (hfits : ∀ s, Occurs (.str s) v → r.fits s) :
    ∃ text w, (c.textCodec lib).encode v = .ok text ∧
      (c.textCodec lib).decode (.str text) = .ok w ∧ IsReadWith r.back (c.toPlain v) w := by
  have htexts : ∀ s, Occurs (.str s) (c.toPlain v) → r.fits s := by
    intro s hs
    rcases occurs_of_plain c.writesEmptyObject (.str s) rfl rfl v hv hs with hoccurs | heq
    · exact hfits s hoccurs
    · rw [Value.str.inj heq]
      exact (r.words "Undefined" ⟨by decide, by simp⟩).1
  obtain ⟨text, w, htext, hload, hread⟩ := r.roundTrip c.dumpSettings (c.toPlain v) rfl rfl
    (isDecoded_plain _ v hv) (hasShortIntegers_plain _ v hv hshort) htexts
  exact ⟨text, w, ok_of_mapError.mpr htext, ok_of_mapError.mpr hload, hread⟩

/-- The texts of the plain value are read as they are if and only if those of the value are escaped
wherever they have next lines. -/
lemma back_plain_iff (v : Value) (hv : IsJsonData (fun _ => False) v) :
    (∀ s, Occurs (.str s) (c.toPlain v) → r.back s = s) ↔
      ∀ s, Occurs (.str s) v → '\x85' ∈ s.toList → r.escapes s := by
  simp only [← r.back_eq_iff]
  constructor
  · intro h s hs
    exact h s (occurs_plain c.writesEmptyObject (.str s) rfl rfl (by simp) v hv hs)
  · intro h s hs
    rcases occurs_of_plain c.writesEmptyObject (.str s) rfl rfl v hv hs with hoccurs | heq
    · exact h s hoccurs
    · rw [Value.str.inj heq]
      exact r.back_of_not_mem "Undefined" (by decide)

/-- Data of short integers and of texts that fit a line is written to a text that is read, and what is
read equals the plain value if and only if every text with a next line is escaped. No word with a next
line is, so none comes back. -/
theorem decode_encode_yaml_iff :
    (∀ v, IsJsonData (fun _ => False) v → HasShortIntegers (some 4300) v →
      (∀ s, Occurs (.str s) v → r.fits s) →
      ∃ text w, (c.textCodec lib).encode v = .ok text ∧
        (c.textCodec lib).decode (.str text) = .ok w ∧
        (w.equal (c.toPlain v) = true ↔
          ∀ s, Occurs (.str s) v → '\x85' ∈ s.toList → r.escapes s)) ∧
    ∀ s, IsWord s → '\x85' ∈ s.toList →
      ∃ text w, (c.textCodec lib).encode (.str s) = .ok text ∧
        (c.textCodec lib).decode (.str text) = .ok w ∧ w.equal (.str s) = false := by
  have hequal (v w : Value) (hv : IsJsonData (fun _ => False) v)
      (hread : IsReadWith r.back (c.toPlain v) w) : w.equal (c.toPlain v) = true ↔
        ∀ s, Occurs (.str s) v → '\x85' ∈ s.toList → r.escapes s :=
    (r.equal_iff_of_isReadWith _ w hread (isDecoded_plain _ v hv)).trans (back_plain_iff r c v hv)
  constructor
  · intro v hv hshort hfits
    obtain ⟨text, w, htext, hdecode, hread⟩ := exists_isReadWith r c v hv hshort hfits
    exact ⟨text, w, htext, hdecode, hequal v w hv hread⟩
  · intro s hs hnext
    have hatom (t : String) (ht : Occurs (.str t) (.str s)) : t = s :=
      Value.str.inj (occurs_atom _ _ ht rfl (by simp))
    obtain ⟨hfits, hescapes⟩ := r.words s hs
    obtain ⟨text, w, htext, hdecode, hread⟩ := exists_isReadWith r c (.str s) (.str s)
      (hasShortIntegers_str s) fun t ht => hatom t ht ▸ hfits
    refine ⟨text, w, htext, hdecode, Bool.eq_false_iff.mpr fun h => hescapes ?_⟩
    exact (hequal (.str s) w (.str s) hread).mp h s .self hnext

end Codecs

/-- A codec that sorts members and writes empty mappings for no value. -/
def sortingYaml : Yaml.Codec where
  undefinedEncoding := .str "empty_object"
  sortKeys := .bool true

/-- A key that is a truth value without its marks, an apostrophe beside line breaks, and a next line
between double quotes. -/
def brokenLines : Value :=
  .dict [(.str "on", .tuple [.str "it's\nso\u2028", .undefined]), (.str "- x", .str "\t\x85")]

lemma isJsonData_brokenLines : IsJsonData (fun _ => False) brokenLines := by
  refine .dict [("on", .tuple [.str "it's\nso\u2028", .undefined]), ("- x", .str "\t\x85")]
    (by decide) ?_
  rw [List.forall_mem_cons, List.forall_mem_singleton]
  refine ⟨.tuple _ ?_, .str _⟩
  rw [List.forall_mem_cons, List.forall_mem_singleton]
  exact ⟨.str _, .undefined⟩

lemma texts_brokenLines (s : String) (hs : Occurs (.str s) brokenLines) :
    s ∈ ["on", "it's\nso\u2028", "- x", "\t\x85"] := by
  obtain ⟨e, he, hoccurs⟩ := occurs_entries _ _ hs (by simp)
  simp only [List.mem_cons, List.not_mem_nil, or_false] at he
  rcases he with rfl | rfl <;> rcases hoccurs with hkey | hvalue
  · simp [Value.str.inj (occurs_atom _ _ hkey rfl (by simp))]
  · obtain ⟨item, hitem, hoccurs⟩ := occurs_items _ _ _ rfl hvalue (by simp)
    simp only [List.mem_cons, List.not_mem_nil, or_false] at hitem
    rcases hitem with rfl | rfl
    · simp [Value.str.inj (occurs_atom _ _ hoccurs rfl (by simp))]
    · exact absurd hoccurs (not_occurs_text _ s rfl (by simp) rfl)
  · simp [Value.str.inj (occurs_atom _ _ hkey rfl (by simp))]
  · simp [Value.str.inj (occurs_atom _ _ hvalue rfl (by simp))]

/-- All of them come back, and two letters with a next line between them do not. -/
theorem decode_encode_yaml_brokenLines :
    (∃ text w, (sortingYaml.textCodec .standard).encode brokenLines = .ok text ∧
      (sortingYaml.textCodec .standard).decode (.str text) = .ok w ∧
      w.equal (sortingYaml.toPlain brokenLines) = true) ∧
    ∃ text w, (sortingYaml.textCodec .standard).encode (.str "a\x85b") = .ok text ∧
      (sortingYaml.textCodec .standard).decode (.str text) = .ok w ∧
      w.equal (.str "a\x85b") = false := by
  obtain ⟨hdata, hwords⟩ := decode_encode_yaml_iff renderingStandard sortingYaml
  refine ⟨?_, hwords "a\x85b" ⟨by decide, by simp⟩ (by decide)⟩
  have hfits : ∀ s ∈ ["on", "it's\nso\u2028", "- x", "\t\x85"], IsFindable s.toList := by
    unfold IsFindable
    decide
  have hescapes : ∀ s ∈ ["on", "it's\nso\u2028", "- x", "\t\x85"], '\x85' ∈ s.toList →
      styleOf .str s.toList = .doubleQuotes := by
    decide
  obtain ⟨text, w, hencode, hdecode, hequal⟩ := hdata brokenLines isJsonData_brokenLines
    (by simp [brokenLines]) fun s hs => hfits s (texts_brokenLines s hs)
  exact ⟨text, w, hencode, hdecode, hequal.mpr fun s hs => hescapes s (texts_brokenLines s hs)⟩

/-- A next line between apostrophes comes back as a blank. -/
theorem not_decode_encode_yaml_nextLine :
    ∃ text w, (sortingYaml.textCodec .standard).encode (.str "a\x85b") = .ok text ∧
      (sortingYaml.textCodec .standard).decode (.str text) = .ok w ∧ w.equal (.str "a b") = true ∧
      w.equal (sortingYaml.toPlain (.str "a\x85b")) = false := by
  have hdecode : ((sortingYaml.textCodec .standard).decode (.str "'a\x85  b'\n")).toOption.any
      (fun w => w.equal (.str "a b") && !w.equal (.str "a\x85b")) = true := by
    decide +kernel
  obtain ⟨w, hw, hequal⟩ := exists_of_any_toOption hdecode
  rw [Bool.and_eq_true, Bool.not_eq_true'] at hequal
  have hencode : ((sortingYaml.textCodec .standard).encode (.str "a\x85b")).toOption =
      some "'a\x85  b'\n" := by
    decide +kernel
  exact ⟨_, w, ok_of_toOption hencode, hw, hequal.1, hequal.2⟩

end Rulebook.Proofs
