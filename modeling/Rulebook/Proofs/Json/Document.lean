import Mathlib
import Rulebook.Proofs.Json.ReadBack

/-!
# Whole documents

What can be written, and what a codec reads from a text that a codec has written.
-/

namespace Rulebook.Proofs
open Json

/-! ## Values that can be written -/

/-- A value that a layout writes at every depth. -/
def IsWritable (layout : Layout) (v : Value) : Prop := ∀ depth, ∃ text, write layout depth v = .ok text

lemma writeItems_isOk (layout : Layout) (depth : Nat) (items : List Value)
    (h : ∀ item ∈ items, IsWritable layout item) :
    ∃ pieces, writeItems layout depth items = .ok pieces := by
  induction items with
  | nil => exact ⟨[], rfl⟩
  | cons item rest ih =>
    obtain ⟨piece, hpiece⟩ := h item List.mem_cons_self depth
    obtain ⟨pieces, hpieces⟩ := ih fun x hx => h x (List.mem_cons_of_mem _ hx)
    exact ⟨piece :: pieces, by rw [writeItems, hpiece, ok_bind, hpieces]; rfl⟩

lemma isWritable_list (layout : Layout) (items : List Value)
    (h : ∀ item ∈ items, IsWritable layout item) : IsWritable layout (.list items) := by
  intro depth
  obtain ⟨pieces, hpieces⟩ := writeItems_isOk layout (depth + 1) items h
  exact ⟨_, by rw [write, hpieces, ok_bind]; rfl⟩

lemma isWritable_tuple (layout : Layout) (items : List Value)
    (h : ∀ item ∈ items, IsWritable layout item) : IsWritable layout (.tuple items) := by
  intro depth
  obtain ⟨pieces, hpieces⟩ := writeItems_isOk layout (depth + 1) items h
  exact ⟨_, by rw [write, hpieces, ok_bind]; rfl⟩

lemma isWritable_node (layout : Layout) (tag payload : Value) (htag : IsWritable layout tag)
    (hpayload : IsWritable layout payload) : IsWritable layout (.node tag payload) := by
  intro depth
  obtain ⟨tagText, htag⟩ := htag (depth + 1)
  obtain ⟨payloadText, hpayload⟩ := hpayload (depth + 1)
  exact ⟨_, by rw [write, htag, ok_bind, hpayload, ok_bind]; rfl⟩

lemma number?_of_text? (v : Value) (s : String) (h : v.text? = some s) : v.number? = none := by
  unfold Value.text? at h
  split at h
  · rfl
  · rfl
  · cases h

lemma before_isOk_of_text? (a b : Value) (s t : String) (ha : a.text? = some s)
    (hb : b.text? = some t) : ∃ x, a.before b = .ok x := by
  have hscalar : a.before b = a.scalarBefore b := by
    unfold Value.text? at ha
    split at ha
    · rfl
    · rfl
    · cases ha
  rw [hscalar]
  unfold Value.scalarBefore
  rw [number?_of_text? a s ha, number?_of_text? b t hb, ha, hb]
  exact ⟨_, rfl⟩

lemma before_isOk_of_number? (a b : Value) (x y : Number) (ha : a.number? = some x)
    (hb : b.number? = some y) : ∃ z, a.before b = .ok z := by
  have hscalar : a.before b = a.scalarBefore b := by
    cases a <;> first | rfl | cases ha
  rw [hscalar]
  unfold Value.scalarBefore
  rw [ha, hb]
  exact ⟨_, rfl⟩

/-- Names that can be sorted: a single one, only texts, or only numbers. -/
def AreSortable (names : List Value) : Prop :=
  names.length ≤ 1 ∨ (∀ name ∈ names, name.text?.isSome = true) ∨
    ∀ name ∈ names, name.number?.isSome = true

lemma sortBy_isOk_of_areSortable (members : List (Value × Written))
    (h : AreSortable (members.map Prod.fst)) :
    ∃ result, sortBy (fun a b : Value × Written => a.1.before b.1) members = .ok result := by
  rcases h with hlength | htexts | hnumbers
  · match members, hlength with
    | [], _ => exact ⟨_, rfl⟩
    | [member], _ => exact ⟨_, rfl⟩
  · refine sortBy_isOk _ members fun a ha b hb => ?_
    obtain ⟨s, hs⟩ := Option.isSome_iff_exists.mp (htexts _ (List.mem_map_of_mem ha))
    obtain ⟨t, ht⟩ := Option.isSome_iff_exists.mp (htexts _ (List.mem_map_of_mem hb))
    exact before_isOk_of_text? a.1 b.1 s t hs ht
  · refine sortBy_isOk _ members fun a ha b hb => ?_
    obtain ⟨x, hx⟩ := Option.isSome_iff_exists.mp (hnumbers _ (List.mem_map_of_mem ha))
    obtain ⟨y, hy⟩ := Option.isSome_iff_exists.mp (hnumbers _ (List.mem_map_of_mem hb))
    exact before_isOk_of_number? a.1 b.1 x y hx hy

lemma orderMembers_isOk (layout : Layout) (members : List (Value × Written))
    (h : layout.sorted = true → AreSortable (members.map Prod.fst)) :
    ∃ result, orderMembers layout members = .ok result := by
  unfold orderMembers
  split
  · next hsorted =>
    obtain ⟨result, hresult⟩ := sortBy_isOk_of_areSortable members (h hsorted)
    rw [hresult]
    exact ⟨result, rfl⟩
  · exact ⟨members, rfl⟩

lemma mem_of_orderMembers (layout : Layout) (members result : List (Value × Written))
    (h : orderMembers layout members = .ok result) (m : Value × Written) (hm : m ∈ result) :
    m ∈ members := by
  rw [← ordered_of_orderMembers layout members result h] at hm
  exact mem_of_mem_ordered layout members m hm

lemma memberName_of_text? (limit : Option Nat) (key : Value) (s : String)
    (h : key.text? = some s) : memberName limit key = .ok s.toList := by
  unfold Value.text? at h
  split at h
  · obtain rfl := Option.some.inj h
    rfl
  · obtain rfl := Option.some.inj h
    rfl
  · cases h

lemma nameText_of_text? (key : Value) (s : String) (h : key.text? = some s) : nameText key = s := by
  rw [nameText_of_memberName none key _ (memberName_of_text? none key s h)]
  exact String.ofList_toList

lemma map_fst_writeMembers (layout : Layout) (depth : Nat) (entries : Entries) :
    (writeMembers layout depth entries).map Prod.fst = entries.map Prod.fst := by
  rw [writeMembers_eq_map, List.map_map]
  rfl

/-- A mapping can be written when its keys are names, which can be sorted if they have to be, and its
values can be written. -/
lemma isWritable_mapping (layout : Layout) (entries : Entries)
    (hnames : ∀ e ∈ entries, ∃ name, memberName layout.digits e.1 = .ok name)
    (hsortable : layout.sorted = true → AreSortable (entries.map Prod.fst))
    (h : ∀ e ∈ entries, IsWritable layout e.2) : IsWritable layout (.dict entries) := by
  intro depth
  obtain ⟨members, hmembers⟩ := orderMembers_isOk layout (writeMembers layout (depth + 1) entries)
    (by rwa [map_fst_writeMembers])
  have hpieces : ∃ pieces, members.mapM (memberText layout) = .ok pieces := by
    apply mapM_isOk
    intro m hm
    have hm := mem_of_orderMembers layout _ members hmembers m hm
    rw [writeMembers_eq_map] at hm
    obtain ⟨e, he, rfl⟩ := List.mem_map.mp hm
    obtain ⟨name, hname⟩ := hnames e he
    obtain ⟨text, htext⟩ := h e he (depth + 1)
    unfold memberText
    rw [hname, ok_bind, htext]
    exact ⟨_, rfl⟩
  obtain ⟨pieces, hpieces⟩ := hpieces
  refine ⟨block layout depth '\x7b' '\x7d' pieces, ?_⟩
  rw [write, hmembers, ok_bind, hpieces]
  rfl

/-- A mapping with texts as keys can be written when its values can. -/
lemma isWritable_dict (layout : Layout) (entries : Entries)
    (hkeys : ∀ e ∈ entries, ∃ s, e.1.text? = some s) (h : ∀ e ∈ entries, IsWritable layout e.2) :
    IsWritable layout (.dict entries) := by
  refine isWritable_mapping layout entries (fun e he => ?_) (fun _ => .inr (.inl ?_)) h
  · obtain ⟨s, hs⟩ := hkeys e he
    exact ⟨_, memberName_of_text? _ e.1 s hs⟩
  · rw [List.forall_mem_map]
    exact fun e he => Option.isSome_iff_exists.mpr (hkeys e he)

/-! ## Codecs -/

lemma not_byteOrderMark_of_read (limit : Option Nat) (text : List Char) (v : Value)
    (h : Json.read limit text = .ok v) : text.head? ≠ some '\uFEFF' := by
  cases text with
  | nil => simp
  | cons c rest =>
    intro hc
    obtain rfl := Option.some.inj hc
    have htoken : token 0 '\uFEFF' rest = (.junk, 0) := by
      have hword : word? ('\uFEFF' :: rest) = none := by
        simp [word?, words, List.isPrefixOf]
      have hnumber : number? ('\uFEFF' :: rest) = none := by
        have hwhole : wholeDigits ('\uFEFF' :: rest) = [] := rfl
        change (magnitude? false ('\uFEFF' :: rest)) = none
        unfold magnitude?
        rw [hwhole]
        rfl
      unfold token
      rw [if_neg (by decide), if_neg (by decide), hword, hnumber]
      rfl
    unfold Json.read scan at h
    rw [scanFrom, if_neg (by decide), htoken] at h
    cases h

/-- The text of a value reads as what the layout of the codec makes of the value. -/
theorem decode_encode (c : Codec) (indent : Option (List Char)) (v : Value) (text : String)
    (hindent : c.indentation = .ok indent) (hlayout : IsBlankLayout (c.layout indent))
    (h : c.encode v = .ok text) :
    c.decode (.str text) = .ok (reading (c.layout indent) v) := by
  have hwrite : write (c.layout indent) 0 v = .ok text.toList := by
    unfold Codec.encode at h
    split at h
    · next s hs =>
      obtain rfl := Except.ok.inj h
      rw [String.toList_ofList]
      unfold Value.text? at hs
      split at hs
      · obtain rfl := Option.some.inj hs
        rfl
      · obtain rfl := Option.some.inj hs
        rfl
      · cases hs
    · rw [hindent, ok_bind] at h
      obtain ⟨cs, hcs, h⟩ := ok_of_bind h
      obtain rfl := Except.ok.inj h
      rw [hcs, String.toList_ofList]
  have hread : Json.read c.digits text.toList = .ok (reading (c.layout indent) v) :=
    read_write (c.layout indent) hlayout v text.toList hwrite
  unfold Codec.decode readUnmarked
  dsimp only [Value.text?]
  rw [if_neg (not_byteOrderMark_of_read _ _ _ hread), hread]
  rfl

/-- No indentation, or a count of blanks that fits an index; a negative count is none of them. -/
def IsCount (indent : Value) : Prop :=
  indent = .null ∨ (∃ b, indent = .bool b) ∨
    ∃ n : Int, indent = .int n ∧ -2 ^ 63 ≤ n ∧ n < 2 ^ 63

lemma isBlankLayout_none (c : Codec) : IsBlankLayout (c.layout none) := by
  intro indent hindent
  cases hindent

lemma indentation_of_isCount (c : Codec) (h : IsCount c.indent) :
    ∃ indent, c.indentation = .ok indent ∧ IsBlankLayout (c.layout indent) := by
  have hblanks (n : Int) (hn : -2 ^ 63 ≤ n ∧ n < 2 ^ 63) :
      ∃ indent, Codec.blanks n = .ok indent ∧ IsBlankLayout (c.layout indent) := by
    refine ⟨some (List.replicate n.toNat ' '), ?_, ?_⟩
    · unfold Codec.blanks
      rw [if_neg (by omega)]
    · intro indent hindent x hx
      obtain rfl := Option.some.inj hindent
      rw [List.eq_of_mem_replicate hx]
      decide
  unfold Codec.indentation
  rcases h with h | ⟨b, h⟩ | ⟨n, h, hn⟩
  · rw [h]
    exact ⟨none, rfl, isBlankLayout_none c⟩
  · rw [h]
    cases b with
    | true => exact hblanks 1 (by decide)
    | false => exact hblanks 0 (by decide)
  · rw [h]
    exact hblanks n hn

lemma encode_isOk (c : Codec) (indent : Option (List Char)) (v : Value)
    (hindent : c.indentation = .ok indent) (h : IsWritable (c.layout indent) v) :
    ∃ text, c.encode v = .ok text := by
  unfold Codec.encode
  split
  · exact ⟨_, rfl⟩
  · obtain ⟨text, htext⟩ := h 0
    exact ⟨_, by rw [hindent, ok_bind, htext, ok_bind]; rfl⟩

end Rulebook.Proofs
