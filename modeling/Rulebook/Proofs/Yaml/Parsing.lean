import Mathlib
import Rulebook.Proofs.Yaml.Tokens

/-!
# Reading the tokens of written nodes

The tokens of a written node are read as the node, with its scalars as they are read back. The bound
of a reader goes down with each of its calls; it suffices that it is four times the number of the
tokens.
-/

namespace Rulebook.Proofs
open Yaml Reader

mutual

/-- What a written node is read as. -/
def reread : Node → Node
  | .scalar tag cs => .scalar tag (readBack tag cs)
  | .sequence tag items => .sequence tag (rereadItems items)
  | .mapping tag entries => .mapping tag (rereadEntries entries)

def rereadItems : List Node → List Node
  | [] => []
  | item :: rest => reread item :: rereadItems rest

def rereadEntries : List (Node × Node) → List (Node × Node)
  | [] => []
  | (key, value) :: rest => (reread key, reread value) :: rereadEntries rest

end

variable {handles : Handles} {α β : Type}

/-! ## Single readers -/

/-- A reader takes tokens and gives a result, whatever is anchored. -/
def Takes (reader : Reader α) (tokens rest : List Token) (a : α) : Prop :=
  ∀ anchors, reader.run ⟨tokens, anchors⟩ = .ok (a, ⟨rest, anchors⟩)

lemma Takes.bind {m : Reader α} {f : α → Reader β} {tokens between rest : List Token} {a : α}
    {b : β} (hm : Takes m tokens between a) (hf : Takes (f a) between rest b) :
    Takes (m >>= f) tokens rest b := by
  intro anchors
  rw [StateT.run_bind, hm anchors]
  exact hf anchors

lemma takes_pure (a : α) (tokens : List Token) : Takes (pure a) tokens tokens a := fun _ => rfl

lemma takes_advance (t : Token) (ts : List Token) : Takes advance (t :: ts) ts () := fun _ => rfl

/-- The tokens that the content of a node starts with. -/
inductive StartsContent : Token → Prop
  | scalar (text : List Char) (plain : Bool) : StartsContent (.scalar text plain)
  | listOpen : StartsContent .listOpen
  | mapOpen : StartsContent .mapOpen
  | sequenceStart : StartsContent .sequenceStart
  | mappingStart : StartsContent .mappingStart
  | dash : StartsContent .dash

lemma takes_peek (t : Token) (ts : List Token) (ht : StartsContent t) :
    Takes peek (t :: ts) (t :: ts) t := by
  cases ht <;> exact fun _ => rfl

lemma takes_properties (t : Token) (ts : List Token) (ht : StartsContent t) :
    Takes (properties handles) (t :: ts) (t :: ts) {} := by
  cases ht <;> exact fun _ => rfl

/-- A node without an anchor and a tag is its content. -/
lemma takes_node (fuel : Nat) (position : Position) (t : Token) (ts rest : List Token) (n : Node)
    (ht : StartsContent t) (hempty : position.isEmpty t = false)
    (h : Takes (readContent handles fuel position {}) (t :: ts) rest n) :
    Takes (readNode handles (fuel + 1) position) (t :: ts) rest n := by
  rw [readNode]
  refine (takes_peek t ts ht).bind ?_
  rw [hempty, if_neg Bool.false_ne_true]
  have hproperties : Takes (properties handles) (t :: ts) (t :: ts) {} := takes_properties t ts ht
  have hpeek := takes_peek t ts ht
  cases ht <;> exact hproperties.bind <| hpeek.bind <| h.bind (takes_pure n rest)

lemma takes_content_scalar (fuel : Nat) (position : Position) (text : List Char) (plain : Bool)
    (ts : List Token) :
    Takes (readContent handles (fuel + 1) position {}) (.scalar text plain :: ts) ts
      (.scalar (if plain then resolve text else .str) text) := by
  rw [readContent]
  cases plain <;> exact fun _ => rfl

lemma takes_content_emptyList (fuel : Nat) (position : Position) (ts : List Token) :
    Takes (readContent handles (fuel + 2) position {}) (.listOpen :: .listClose :: ts) ts
      (.sequence .sequence []) := by
  rw [readContent, readList]
  exact fun _ => rfl

lemma takes_content_emptyMap (fuel : Nat) (position : Position) (ts : List Token) :
    Takes (readContent handles (fuel + 2) position {}) (.mapOpen :: .mapClose :: ts) ts
      (.mapping .mapping []) := by
  rw [readContent, readMap]
  exact fun _ => rfl

lemma takes_content_items (fuel : Nat) (position : Position) (ts rest : List Token)
    (items : List Node) (h : Takes (readItems handles fuel) ts rest items) :
    Takes (readContent handles (fuel + 1) position {}) (.sequenceStart :: ts) rest
      (.sequence .sequence items) := by
  rw [readContent]
  exact (takes_peek _ ts .sequenceStart).bind <| (takes_advance _ ts).bind <|
    h.bind (takes_pure _ rest)

lemma takes_content_levelItems (fuel : Nat) (ts rest : List Token) (items : List Node)
    (h : Takes (readLevelItems handles fuel) (.dash :: ts) rest items) :
    Takes (readContent handles (fuel + 1) .blockEntry {}) (.dash :: ts) rest
      (.sequence .sequence items) := by
  rw [readContent]
  exact (takes_peek _ ts .dash).bind <| h.bind (takes_pure _ rest)

lemma takes_content_entries (fuel : Nat) (position : Position) (ts rest : List Token)
    (entries : List (Node × Node)) (h : Takes (readEntries handles fuel) ts rest entries) :
    Takes (readContent handles (fuel + 1) position {}) (.mappingStart :: ts) rest
      (.mapping .mapping entries) := by
  rw [readContent]
  exact (takes_peek _ ts .mappingStart).bind <| (takes_advance _ ts).bind <|
    h.bind (takes_pure _ rest)

lemma takes_items_cons (fuel : Nat) (ts between rest : List Token) (item : Node) (items : List Node)
    (hitem : Takes (readNode handles fuel .blockItem) ts between item)
    (hitems : Takes (readItems handles fuel) between rest items) :
    Takes (readItems handles (fuel + 1)) (.dash :: ts) rest (item :: items) := by
  rw [readItems]
  exact (takes_peek _ ts .dash).bind <| (takes_advance _ ts).bind <| hitem.bind <|
    hitems.bind (takes_pure _ rest)

lemma takes_items_end (fuel : Nat) (ts : List Token) :
    Takes (readItems handles (fuel + 1)) (.blockEnd :: ts) ts [] := by
  rw [readItems]
  exact fun _ => rfl

lemma takes_levelItems_cons (fuel : Nat) (ts between rest : List Token) (item : Node)
    (items : List Node) (hitem : Takes (readNode handles fuel .levelItem) ts between item)
    (hitems : Takes (readLevelItems handles fuel) between rest items) :
    Takes (readLevelItems handles (fuel + 1)) (.dash :: ts) rest (item :: items) := by
  rw [readLevelItems]
  exact (takes_peek _ ts .dash).bind <| (takes_advance _ ts).bind <| hitem.bind <|
    hitems.bind (takes_pure _ rest)

/-- What a sequence that is level with its key ends before. -/
def EndsLevel (ts : List Token) : Prop := ∃ t rest, ts = t :: rest ∧ (t = .key ∨ t = .blockEnd)

lemma takes_levelItems_end (fuel : Nat) (ts : List Token) (hts : EndsLevel ts) :
    Takes (readLevelItems handles (fuel + 1)) ts ts [] := by
  obtain ⟨t, rest, rfl, rfl | rfl⟩ := hts <;>
  · rw [readLevelItems]
    exact fun _ => rfl

lemma takes_entries_cons (fuel : Nat) (ts ts' between rest : List Token) (key value : Node)
    (entries : List (Node × Node))
    (hkey : Takes (readNode handles (fuel + 1) .blockEntry) ts (.value :: ts') key)
    (hvalue : Takes (readNode handles fuel .blockEntry) ts' between value)
    (hentries : Takes (readEntries handles (fuel + 1)) between rest entries) :
    Takes (readEntries handles (fuel + 2)) (.key :: ts) rest ((key, value) :: entries) := by
  have hcolon : Takes (readValue handles (fuel + 1) .blockEntry) (.value :: ts') between value := by
    rw [readValue]
    exact Takes.bind (fun _ => rfl) <| (takes_advance _ ts').bind hvalue
  rw [readEntries]
  exact Takes.bind (fun _ => rfl) <| (takes_advance _ ts).bind <| hkey.bind <| hcolon.bind <|
    hentries.bind (takes_pure _ rest)

lemma takes_entries_end (fuel : Nat) (ts : List Token) :
    Takes (readEntries handles (fuel + 1)) (.blockEnd :: ts) ts [] := by
  rw [readEntries]
  exact fun _ => rfl

/-! ## Nodes -/

/-- Where a node is read, by what stands to its left. -/
inductive Fits : Left → Position → Prop
  | bare : Fits .margin .bare
  | blockItem : Fits .mark .blockItem
  | levelItem : Fits .mark .levelItem
  | blockEntry (left : Left) : Fits left .blockEntry

/-- No node that fits a position is taken for an empty place. -/
lemma Fits.isEmpty {left : Left} {position : Position} (h : Fits left position) {t : Token}
    (ht : StartsContent t) (hdash : t = .dash → left = .key) : position.isEmpty t = false := by
  cases h <;> cases ht <;> first | rfl | cases hdash rfl

/-- The tokens of a node are read as the node, wherever it may stand. -/
def ReadsBack (n : Node) : Prop :=
  ∀ handles left position fuel rest, Fits left position → 4 * (tokensOf left n).length ≤ fuel →
    (left = .key → EndsLevel rest) →
    Takes (readNode handles fuel position) (tokensOf left n ++ rest) rest (reread n)

/-- A scalar has the tag that its style tells. -/
lemma tag_of_styleOf (tag : Tag) (cs : List Char) (hcs : IsScalarText tag cs) :
    (if decide (styleOf tag cs = .plain) then resolve (readBack tag cs) else .str) = tag := by
  simp only [decide_eq_true_eq]
  split
  · next hplain =>
    obtain ⟨-, -, -, -, htag⟩ := plain_of_styleOf tag cs hcs hplain
    rwa [readBack, if_neg (by rw [hplain]; decide)]
  · next hplain =>
    rcases hcs with rfl | ⟨-, htag, hallowed⟩
    · rfl
    · rw [styleOf, if_pos ⟨htag, hallowed⟩] at hplain
      exact absurd rfl hplain

lemma readsBack_scalar (tag : Tag) (cs : List Char) (hcs : IsScalarText tag cs) :
    ReadsBack (.scalar tag cs) := by
  intro handles left position fuel rest hfits hfuel _
  rw [tokensOf, List.length_singleton] at hfuel
  obtain ⟨fuel, rfl⟩ := Nat.exists_eq_add_of_le' (show 2 ≤ fuel by omega)
  rw [tokensOf, reread]
  refine takes_node (fuel + 1) position _ _ _ _ (.scalar _ _)
    (hfits.isEmpty (.scalar _ _) (by simp [scalarToken])) ?_
  have hread : Takes (readContent handles (fuel + 1) position {}) _ rest _ :=
    takes_content_scalar fuel position (readBack tag cs) (styleOf tag cs = .plain) rest
  rwa [tag_of_styleOf tag cs hcs] at hread

lemma takes_items (items : List Node) (h : ∀ item ∈ items, ReadsBack item) (fuel : Nat)
    (rest : List Token) (hfuel : 4 * (itemTokens items).length < fuel) :
    Takes (readItems handles fuel) (itemTokens items ++ .blockEnd :: rest) rest
      (rereadItems items) := by
  induction items generalizing fuel with
  | nil =>
    obtain ⟨fuel, rfl⟩ := Nat.exists_eq_add_of_le' (Nat.zero_lt_of_lt hfuel)
    exact takes_items_end fuel rest
  | cons item items ih =>
    rw [List.forall_mem_cons] at h
    obtain ⟨fuel, rfl⟩ := Nat.exists_eq_add_of_le' (Nat.zero_lt_of_lt hfuel)
    rw [itemTokens, List.cons_append, List.length_cons, List.length_append] at hfuel
    rw [itemTokens, List.cons_append, List.cons_append, List.append_assoc, rereadItems]
    exact takes_items_cons fuel _ _ rest _ _
      (h.1 _ _ _ _ _ .blockItem (by omega) (by simp)) (ih h.2 fuel (by omega))

lemma takes_levelItems (items : List Node) (h : ∀ item ∈ items, ReadsBack item) (fuel : Nat)
    (rest : List Token) (hrest : EndsLevel rest) (hpos : 0 < fuel)
    (hfuel : 4 * (itemTokens items).length ≤ fuel + 2) :
    Takes (readLevelItems handles fuel) (itemTokens items ++ rest) rest (rereadItems items) := by
  induction items generalizing fuel with
  | nil =>
    obtain ⟨fuel, rfl⟩ := Nat.exists_eq_add_of_le' hpos
    exact takes_levelItems_end fuel rest hrest
  | cons item items ih =>
    rw [List.forall_mem_cons] at h
    obtain ⟨fuel, rfl⟩ := Nat.exists_eq_add_of_le' hpos
    rw [itemTokens, List.cons_append, List.length_cons, List.length_append] at hfuel
    rw [itemTokens, List.cons_append, List.cons_append, List.append_assoc, rereadItems]
    exact takes_levelItems_cons fuel _ _ rest _ _
      (h.1 _ _ _ _ _ .levelItem (by omega) (by simp)) (ih h.2 fuel (by omega) (by omega))

lemma endsLevel_entryTokens (entries : List (Node × Node)) (rest : List Token) :
    EndsLevel (entryTokens entries ++ .blockEnd :: rest) := by
  cases entries with
  | nil => exact ⟨.blockEnd, rest, rfl, .inr rfl⟩
  | cons entry entries =>
    rw [entryTokens]
    exact ⟨.key, _, rfl, .inl rfl⟩

lemma takes_entries (entries : List (Node × Node)) (hkeys : ∀ e ∈ entries, ReadsBack e.1)
    (hvalues : ∀ e ∈ entries, ReadsBack e.2) (fuel : Nat) (rest : List Token)
    (hfuel : 4 * (entryTokens entries).length < fuel) :
    Takes (readEntries handles fuel) (entryTokens entries ++ .blockEnd :: rest) rest
      (rereadEntries entries) := by
  induction entries generalizing fuel with
  | nil =>
    obtain ⟨fuel, rfl⟩ := Nat.exists_eq_add_of_le' (Nat.zero_lt_of_lt hfuel)
    exact takes_entries_end fuel rest
  | cons entry entries ih =>
    rw [List.forall_mem_cons] at hkeys hvalues
    rw [entryTokens] at hfuel
    simp only [List.cons_append, List.length_cons, List.length_append] at hfuel
    obtain ⟨fuel, rfl⟩ := Nat.exists_eq_add_of_le' (show 2 ≤ fuel by omega)
    rw [entryTokens, rereadEntries]
    simp only [List.cons_append, List.append_assoc]
    exact takes_entries_cons fuel _ _ _ rest _ _ _
      (hkeys.1 _ _ _ _ _ (.blockEntry .mark) (by omega) (by simp))
      (hvalues.1 _ _ _ _ _ (.blockEntry _) (by omega) fun _ => endsLevel_entryTokens entries rest)
      (ih hkeys.2 hvalues.2 (fuel + 1) (by omega))

/-- A sequence under a key is read without brackets of its own, and ends where the tokens of its level
do. -/
lemma readsBack_sequence (items : List Node) (h : ∀ item ∈ items, ReadsBack item) :
    ReadsBack (.sequence .sequence items) := by
  intro handles left position fuel rest hfits hfuel hrest
  cases items with
  | nil =>
    rw [tokensOf] at hfuel ⊢
    obtain ⟨fuel, rfl⟩ := Nat.exists_eq_add_of_le' (show 3 ≤ fuel from le_trans (by decide) hfuel)
    exact takes_node (fuel + 2) position _ _ _ _ .listOpen (hfits.isEmpty .listOpen (by simp))
      (takes_content_emptyList fuel position rest)
  | cons item items =>
    rw [tokensOf] at hfuel ⊢
    rw [reread]
    by_cases hkey : left = .key
    · subst hkey
      obtain rfl : position = .blockEntry := by cases hfits; rfl
      rw [blockTokens, if_pos (by simp)] at hfuel ⊢
      have hsome : 0 < (itemTokens (item :: items)).length := by
        rw [itemTokens]
        exact Nat.succ_pos _
      obtain ⟨fuel, rfl⟩ := Nat.exists_eq_add_of_le' (show 2 ≤ fuel by omega)
      refine takes_node (fuel + 1) _ .dash _ _ _ .dash (hfits.isEmpty .dash fun _ => rfl) ?_
      exact takes_content_levelItems fuel _ rest _
        (takes_levelItems (item :: items) h fuel rest (hrest rfl) (by omega) (by omega))
    · rw [blockTokens, if_neg (by simpa using hkey)] at hfuel ⊢
      simp only [List.cons_append, List.length_cons, List.length_append, List.length_nil] at hfuel
      obtain ⟨fuel, rfl⟩ := Nat.exists_eq_add_of_le' (show 2 ≤ fuel by omega)
      rw [List.cons_append, List.cons_append, List.append_assoc]
      refine takes_node (fuel + 1) _ _ _ _ _ .sequenceStart (hfits.isEmpty .sequenceStart (by simp)) ?_
      exact takes_content_items fuel position _ rest _
        (takes_items (item :: items) h fuel rest (by omega))

lemma readsBack_mapping (entries : List (Node × Node)) (hkeys : ∀ e ∈ entries, ReadsBack e.1)
    (hvalues : ∀ e ∈ entries, ReadsBack e.2) : ReadsBack (.mapping .mapping entries) := by
  intro handles left position fuel rest hfits hfuel _
  cases entries with
  | nil =>
    rw [tokensOf] at hfuel ⊢
    obtain ⟨fuel, rfl⟩ := Nat.exists_eq_add_of_le' (show 3 ≤ fuel from le_trans (by decide) hfuel)
    exact takes_node (fuel + 2) position _ _ _ _ .mapOpen (hfits.isEmpty .mapOpen (by simp))
      (takes_content_emptyMap fuel position rest)
  | cons entry entries =>
    rw [tokensOf] at hfuel ⊢
    rw [reread, blockTokens, if_neg Bool.false_ne_true] at *
    simp only [List.cons_append, List.length_cons, List.length_append, List.length_nil] at hfuel
    obtain ⟨fuel, rfl⟩ := Nat.exists_eq_add_of_le' (show 2 ≤ fuel by omega)
    rw [List.cons_append, List.cons_append, List.append_assoc]
    refine takes_node (fuel + 1) _ _ _ _ _ .mappingStart (hfits.isEmpty .mappingStart (by simp)) ?_
    exact takes_content_entries fuel position _ rest _
      (takes_entries (entry :: entries) hkeys hvalues fuel rest (by omega))

/-- Written nodes are read back. -/
theorem readsBack_of_isWritten (n : Node) (hn : IsWritten n) : ReadsBack n := by
  induction hn with
  | scalar tag cs hcs => exact readsBack_scalar tag cs hcs
  | sequence items _ ih => exact readsBack_sequence items ih
  | mapping entries hkeys _ ih =>
    refine readsBack_mapping entries (fun e he => ?_) ih
    obtain ⟨cs, hcs, -⟩ := hkeys e he
    rw [hcs]
    exact readsBack_scalar .str cs (.inl rfl)

/-! ## Documents -/

/-- A written node starts with content. -/
lemma tokensOf_margin (n : Node) : ∃ t ts, tokensOf .margin n = t :: ts ∧ StartsContent t := by
  cases n with
  | scalar tag cs => exact ⟨_, _, by rw [tokensOf]; rfl, .scalar _ _⟩
  | sequence tag items =>
    cases items with
    | nil => exact ⟨_, _, by rw [tokensOf], .listOpen⟩
    | cons item items => exact ⟨_, _, by rw [tokensOf]; rfl, .sequenceStart⟩
  | mapping tag entries =>
    cases entries with
    | nil => exact ⟨_, _, by rw [tokensOf], .mapOpen⟩
    | cons entry entries => exact ⟨_, _, by rw [tokensOf]; rfl, .mappingStart⟩

lemma takes_document (n : Node) (hn : IsWritten n) (fuel : Nat) (rest : List Token)
    (hfuel : 4 * (tokensOf .margin n).length ≤ fuel) :
    Takes (readDocument fuel) (tokensOf .margin n ++ rest) rest (some (reread n)) := by
  have hread := readsBack_of_isWritten n hn .default .margin .bare fuel rest .bare hfuel (by simp)
  obtain ⟨t, ts, hts, ht⟩ := tokensOf_margin n
  rw [hts, List.cons_append] at hread ⊢
  unfold readDocument
  refine (takes_peek t _ ht).bind ?_
  cases ht <;> exact hread.bind (takes_pure _ rest)

lemma takes_end (fuel : Nat) (hfuel : 2 ≤ fuel) (plain : Bool) :
    Takes (readEnd fuel) (if plain then [.documentEnd, .streamEnd] else [.streamEnd]) [.streamEnd]
      () := by
  obtain ⟨fuel, rfl⟩ := Nat.exists_eq_add_of_le' hfuel
  cases plain <;> exact fun _ => rfl

/-- The tokens of a written document hold the node. -/
theorem ofTokens?_scan_text (n : Node) (hn : IsWritten n) :
    Node.ofTokens? (scan n.text) = .ok (some (reread n)) := by
  let ending : List Token := if n.isPlain then [.documentEnd, .streamEnd] else [.streamEnd]
  let bound := 4 * (tokensOf .margin n ++ ending).length + 4
  have hbound : 4 * (tokensOf .margin n).length + 4 ≤ bound := by simp [bound]
  have hdocument := takes_document n hn bound ending (by omega) []
  have hend := takes_end bound (by omega) n.isPlain []
  rw [scan_text n hn]
  unfold Node.ofTokens?
  dsimp only
  rw [StateT.run_bind, hdocument, ok_bind, StateT.run_bind, hend]
  rfl

end Rulebook.Proofs
