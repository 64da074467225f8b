import Mathlib
import Rulebook.Proofs.Json.Document
import Rulebook.Proofs.Value.Occurrence

/-!
# Values that have a text

Which values a codec encodes. Besides its indentation, only the sorting of members matters: names that
the codec can write need not go with each other in an order.
-/

namespace Rulebook.Proofs
open Json

/-! ## The order of names -/

/-- Whether a value is a number, and whether it is a text. -/
def orderKind (v : Value) : Bool × Bool := (v.number?.isSome, v.text?.isSome)

lemma orderKind_of_number? (v : Value) (x : Number) (h : v.number? = some x) :
    orderKind v = (true, false) := by
  cases v <;> first | rfl | cases h

lemma orderKind_of_text? (v : Value) (s : String) (h : v.text? = some s) :
    orderKind v = (false, true) := by
  unfold orderKind
  rw [number?_of_text? v s h, h]
  rfl

lemma orderKind_of_tupleItems? (v : Value) (items : List Value) (h : v.tupleItems? = some items) :
    orderKind v = (false, false) := by
  cases v <;> first | rfl | cases h

lemma orderKind_of_scalarBefore (a b : Value) (x : Bool) (h : a.scalarBefore b = .ok x) :
    orderKind a = orderKind b := by
  unfold Value.scalarBefore at h
  split at h
  · next hx hy => rw [orderKind_of_number? a _ hx, orderKind_of_number? b _ hy]
  · next s t hs ht _ => rw [orderKind_of_text? a _ hs, orderKind_of_text? b _ ht]
  · split at h
    · rfl
    · rfl
    · cases h

lemma orderKind_of_before (a b : Value) (x : Bool) (h : a.before b = .ok x) :
    orderKind a = orderKind b := by
  cases a with
  | tuple items =>
    rw [Value.before] at h
    split at h
    · next others hothers => exact (orderKind_of_tupleItems? b others hothers).symm
    · cases h
  | node tag payload =>
    rw [Value.before] at h
    split at h
    · next hothers => exact (orderKind_of_tupleItems? b _ hothers).symm
    · next hothers => exact (orderKind_of_tupleItems? b _ hothers).symm
    · next hothers => exact (orderKind_of_tupleItems? b _ hothers).symm
    · cases h
  | _ => exact orderKind_of_scalarBefore _ b x h

lemma memberName_isOk (limit : Option Nat) (key : Value) (name : List Char)
    (h : memberName limit key = .ok name) :
    key = .null ∨ key.text?.isSome = true ∨ key.number?.isSome = true := by
  unfold memberName at h
  split at h
  · exact .inr (.inl rfl)
  · exact .inr (.inl rfl)
  · exact .inr (.inr rfl)
  · exact .inr (.inr rfl)
  · exact .inl rfl
  · exact .inr (.inr rfl)
  · cases h

/-- Names that have been sorted can be sorted: null is the one name that goes with no other. -/
lemma areSortable_of_sortBy (limit : Option Nat) (members result : List (Value × Written))
    (hnames : ∀ m ∈ members, ∃ name, memberName limit m.1 = .ok name)
    (h : sortBy (fun a b : Value × Written => a.1.before b.1) members = .ok result) :
    AreSortable (members.map Prod.fst) := by
  match members with
  | [] => exact .inl (by simp)
  | [member] => exact .inl (by simp)
  | first :: second :: rest =>
    obtain ⟨⟨x, hx⟩, hkinds⟩ := kind_of_sortBy (fun m : Value × Written => orderKind m.1)
      (fun a b => orderKind_of_before a.1 b.1) first second rest result h
    right
    -- All names are of the kind of the first. Null is compared with nothing, not even with itself.
    obtain ⟨name, hname⟩ := hnames first (by simp)
    rcases memberName_isOk limit first.1 name hname with hnull | htext | hnumber
    · obtain ⟨name', hname'⟩ := hnames second (by simp)
      have hsecond := hkinds second (by simp)
      rw [hnull] at hsecond hx
      rcases memberName_isOk limit second.1 name' hname' with hnull' | htext' | hnumber'
      · rw [hnull'] at hx
        cases hx
      · exact absurd (htext'.symm.trans (congrArg Prod.snd hsecond)) (by decide)
      · exact absurd (hnumber'.symm.trans (congrArg Prod.fst hsecond)) (by decide)
    · left
      intro key hkey
      obtain ⟨m, hm, rfl⟩ := List.mem_map.mp hkey
      exact (congrArg Prod.snd (hkinds m hm)).trans htext
    · right
      intro key hkey
      obtain ⟨m, hm, rfl⟩ := List.mem_map.mp hkey
      exact (congrArg Prod.fst (hkinds m hm)).trans hnumber

/-! ## Values with a text -/

/-- A value that has a text, where `limit` is the number of digits that an integer may have and
`sorted` tells whether the members of mappings are sorted by their names. -/
inductive Encodable (limit : Option Nat) (sorted : Bool) : Value → Prop
  | null : Encodable limit sorted .null
  | bool (b : Bool) : Encodable limit sorted (.bool b)
  | int (n : Int) : IsShort limit n → Encodable limit sorted (.int n)
  | float (x : Binary64) : Encodable limit sorted (.float x)
  | str (s : String) : Encodable limit sorted (.str s)
  | member (s : String) : Encodable limit sorted (.member (.str s))
  | undefined : Encodable limit sorted .undefined
  | list (items : List Value) : (∀ item ∈ items, Encodable limit sorted item) →
      Encodable limit sorted (.list items)
  | tuple (items : List Value) : (∀ item ∈ items, Encodable limit sorted item) →
      Encodable limit sorted (.tuple items)
  | node (tag payload : Value) : Encodable limit sorted tag → Encodable limit sorted payload →
      Encodable limit sorted (.node tag payload)
  | dict (entries : Entries) : (∀ e ∈ entries, ∃ name, memberName limit e.1 = .ok name) →
      (sorted = true → AreSortable (entries.map Prod.fst)) →
      (∀ e ∈ entries, Encodable limit sorted e.2) → Encodable limit sorted (.dict entries)

lemma isWritable_of_encodable (layout : Layout) (v : Value)
    (h : Encodable layout.digits layout.sorted v) : IsWritable layout v := by
  induction h with
  | int n hshort => exact fun depth => ⟨_, (limitedText_ok layout.digits n _).mpr ⟨hshort, rfl⟩⟩
  | list items _ ih => exact isWritable_list layout items ih
  | tuple items _ ih => exact isWritable_tuple layout items ih
  | node tag payload _ _ ihtag ihpayload => exact isWritable_node layout tag payload ihtag ihpayload
  | dict entries hnames hsortable _ ih =>
    exact isWritable_mapping layout entries hnames hsortable ih
  | _ => exact fun depth => ⟨_, rfl⟩

/-- The names of a mapping that has been written are names, and sorted ones can be sorted. -/
lemma names_of_write (layout : Layout) (depth : Nat) (entries : Entries) (text : List Char)
    (h : write layout depth (.dict entries) = .ok text) :
    (∀ e ∈ entries, ∃ name, memberName layout.digits e.1 = .ok name) ∧
      (∀ e ∈ entries, ∃ text, write layout (depth + 1) e.2 = .ok text) ∧
      (layout.sorted = true → AreSortable (entries.map Prod.fst)) := by
  rw [write] at h
  obtain ⟨members, hmembers, h⟩ := ok_of_bind h
  obtain ⟨pieces, hpieces, -⟩ := ok_of_bind h
  have hperm := ordered_perm layout (writeMembers layout (depth + 1) entries)
  rw [ordered_of_orderMembers layout _ members hmembers] at hperm
  have hwritten : ∀ m ∈ members,
      (∃ name, memberName layout.digits m.1 = .ok name) ∧ ∃ text, m.2 = .ok text := by
    intro m hm
    obtain ⟨piece, hpiece⟩ := (exists_forall₂ members).mp ⟨pieces, (mapM_ok _ _ _).mp hpieces⟩ m hm
    unfold memberText at hpiece
    obtain ⟨name, hname, hpiece⟩ := ok_of_bind hpiece
    obtain ⟨text, htext, -⟩ := ok_of_bind hpiece
    exact ⟨⟨name, hname⟩, text, htext⟩
  have hall : ∀ m ∈ writeMembers layout (depth + 1) entries,
      (∃ name, memberName layout.digits m.1 = .ok name) ∧ ∃ text, m.2 = .ok text :=
    fun m hm => hwritten m (hperm.mem_iff.mpr hm)
  rw [writeMembers_eq_map, List.forall_mem_map] at hall
  refine ⟨fun e he => (hall e he).1, fun e he => (hall e he).2, fun hsorted => ?_⟩
  have hsortable := areSortable_of_sortBy layout.digits _ members
    (fun m hm => (hwritten m (hperm.mem_iff.mpr hm)).1)
    (sortBy_of_orderMembers layout _ members hsorted hmembers)
  rwa [writeMembers_eq_map, List.map_map] at hsortable

mutual

/-- What has been written has a text in every layout that sorts or does not sort as the one did. -/
theorem encodable_of_write (layout : Layout) (depth : Nat) (v : Value) (text : List Char)
    (h : write layout depth v = .ok text) : Encodable layout.digits layout.sorted v := by
  match v with
  | .null => exact .null
  | .bool b => exact .bool b
  | .int n => exact .int n ((limitedText_ok layout.digits n text).mp h).1
  | .float x => exact .float x
  | .str s => exact .str s
  | .member (.str s) => exact .member s
  | .undefined => exact .undefined
  | .list items =>
    rw [write] at h
    obtain ⟨pieces, hpieces, -⟩ := ok_of_bind h
    exact .list items (encodable_of_writeItems layout _ items pieces hpieces)
  | .tuple items =>
    rw [write] at h
    obtain ⟨pieces, hpieces, -⟩ := ok_of_bind h
    exact .tuple items (encodable_of_writeItems layout _ items pieces hpieces)
  | .node tag payload =>
    rw [write] at h
    obtain ⟨tagText, htag, h⟩ := ok_of_bind h
    obtain ⟨payloadText, hpayload, -⟩ := ok_of_bind h
    exact .node tag payload (encodable_of_write layout _ tag tagText htag)
      (encodable_of_write layout _ payload payloadText hpayload)
  | .dict entries =>
    obtain ⟨hnames, hvalues, hsortable⟩ := names_of_write layout depth entries text h
    exact .dict entries hnames hsortable (encodable_of_writeEntries layout (depth + 1) entries hvalues)
  | .bytes _ | .set _ | .timestamp _ | .rule _ | .brokenRule _ | .constant _ | .inert => cases h
  | .member .null | .member (.bool _) | .member (.int _) | .member (.float _) | .member (.bytes _)
  | .member (.list _) | .member (.tuple _) | .member (.dict _) | .member (.set _)
  | .member (.timestamp _) | .member .undefined | .member (.node ..) | .member (.rule _)
  | .member (.brokenRule _) | .member (.member _) | .member (.constant _) | .member .inert => cases h

theorem encodable_of_writeItems (layout : Layout) (depth : Nat) (items : List Value)
    (pieces : List (List Char)) (h : writeItems layout depth items = .ok pieces) :
    ∀ item ∈ items, Encodable layout.digits layout.sorted item := by
  match items with
  | [] => simp
  | item :: rest =>
    rw [writeItems] at h
    obtain ⟨piece, hpiece, h⟩ := ok_of_bind h
    obtain ⟨more, hmore, -⟩ := ok_of_bind h
    exact List.forall_mem_cons.mpr ⟨encodable_of_write layout depth item piece hpiece,
      encodable_of_writeItems layout depth rest more hmore⟩

theorem encodable_of_writeEntries (layout : Layout) (depth : Nat) (entries : Entries)
    (h : ∀ e ∈ entries, ∃ text, write layout depth e.2 = .ok text) :
    ∀ e ∈ entries, Encodable layout.digits layout.sorted e.2 := by
  match entries with
  | [] => simp
  | (key, v) :: rest =>
    obtain ⟨⟨text, hv⟩, hrest⟩ := List.forall_mem_cons.mp h
    exact List.forall_mem_cons.mpr ⟨encodable_of_write layout depth v text hv,
      encodable_of_writeEntries layout depth rest hrest⟩

end

/-! ## Sorted and unsorted -/

variable {limit : Option Nat}

lemma encodable_items (sorted : Bool) (v : Value) (items : List Value) (hitems : v.items? = some items)
    (h : Encodable limit sorted v) : ∀ item ∈ items, Encodable limit sorted item := by
  cases h with
  | list _ hall | tuple _ hall =>
    obtain rfl := Option.some.inj hitems
    exact hall
  | node tag payload htag hpayload =>
    obtain rfl := Option.some.inj hitems
    exact List.forall_mem_cons.mpr ⟨htag, List.forall_mem_singleton.mpr hpayload⟩
  | _ => cases hitems

lemma encodable_name (sorted : Bool) (key : Value) (name : List Char)
    (h : memberName limit key = .ok name) : Encodable limit sorted key := by
  unfold memberName at h
  split at h
  · exact .str _
  · exact .member _
  · exact .float _
  · exact .bool _
  · exact .null
  · exact .int _ ((limitedText_ok limit _ name).mp h).1
  · cases h

lemma sortable_of_encodable (v : Value) (h : Encodable limit true v) (entries : Entries)
    (hoccurs : Occurs (.dict entries) v) : AreSortable (entries.map Prod.fst) := by
  induction hoccurs with
  | self =>
    cases h with
    | dict _ _ hsortable _ => exact hsortable rfl
  | item v items item hitems hitem _ ih => exact ih (encodable_items true v items hitems h item hitem)
  | key members e he _ ih =>
    cases h with
    | dict _ hnames _ _ =>
      obtain ⟨name, hname⟩ := hnames e he
      exact ih (encodable_name true e.1 name hname)
  | value members e he _ ih =>
    cases h with
    | dict _ _ _ hvalues => exact ih (hvalues e he)

/-- A value with a text has no integer that is too long, in a key or elsewhere. -/
lemma hasShortIntegers_of_encodable (sorted : Bool) (v : Value) (h : Encodable limit sorted v) :
    HasShortIntegers limit v := by
  intro n hoccurs
  induction hoccurs with
  | self =>
    cases h with
    | int _ hshort => exact hshort
  | item v items item hitems hitem _ ih => exact ih (encodable_items sorted v items hitems h item hitem)
  | key members e he _ ih =>
    cases h with
    | dict _ hnames _ _ =>
      obtain ⟨name, hname⟩ := hnames e he
      exact ih (encodable_name sorted e.1 name hname)
  | value members e he _ ih =>
    cases h with
    | dict _ _ _ hvalues => exact ih (hvalues e he)

/-- Sorting members needs, besides a text without sorting, names that can be sorted in every mapping. -/
lemma encodable_sorted_iff (v : Value) :
    Encodable limit true v ↔
      Encodable limit false v ∧
        ∀ entries, Occurs (.dict entries) v → AreSortable (entries.map Prod.fst) := by
  refine ⟨fun h => ⟨?_, sortable_of_encodable v h⟩, ?_⟩
  · induction h with
    | list items _ ih => exact .list items ih
    | tuple items _ ih => exact .tuple items ih
    | node tag payload _ _ ihtag ihpayload => exact .node tag payload ihtag ihpayload
    | dict entries hnames _ _ ih => exact .dict entries hnames (by simp) ih
    | int n hshort => exact .int n hshort
    | _ => constructor
  · rintro ⟨h, hsortable⟩
    induction h with
    | list items _ ih =>
      refine .list items fun item hitem => ih item hitem fun entries hoccurs => ?_
      exact hsortable entries (.item _ items item rfl hitem hoccurs)
    | tuple items _ ih =>
      refine .tuple items fun item hitem => ih item hitem fun entries hoccurs => ?_
      exact hsortable entries (.item _ items item rfl hitem hoccurs)
    | node tag payload _ _ ihtag ihpayload =>
      refine .node tag payload (ihtag fun entries hoccurs => ?_) (ihpayload fun entries hoccurs => ?_)
      · exact hsortable entries (.item _ _ tag rfl (by simp) hoccurs)
      · exact hsortable entries (.item _ _ payload rfl (by simp) hoccurs)
    | dict members hnames _ _ ih =>
      refine .dict members hnames (fun _ => hsortable members .self) fun e he => ih e he ?_
      exact fun entries hoccurs => hsortable entries (.value members e he hoccurs)
    | int n hshort => exact .int n hshort
    | _ => constructor

/-- A codec encodes a value when the value has a text and the indentation can be used, for which a text
on its own does not matter. -/
theorem encode_isOk_iff (c : Codec) (v : Value) :
    (∃ text, c.encode v = .ok text) ↔
      Encodable c.digits c.sortKeys.isTrue v ∧
        (v.text?.isSome = true ∨ ∃ indent, c.indentation = .ok indent) := by
  constructor
  · rintro ⟨text, h⟩
    unfold Codec.encode at h
    cases htext : v.text? with
    | some s => exact ⟨encodable_name _ v _ (memberName_of_text? _ v s htext), .inl rfl⟩
    | none =>
      rw [htext] at h
      obtain ⟨indent, hindent, h⟩ := ok_of_bind h
      obtain ⟨cs, hcs, -⟩ := ok_of_bind h
      exact ⟨encodable_of_write (c.layout indent) 0 v cs hcs, .inr ⟨indent, hindent⟩⟩
  · rintro ⟨h, htext | ⟨indent, hindent⟩⟩
    · obtain ⟨s, hs⟩ := Option.isSome_iff_exists.mp htext
      unfold Codec.encode
      rw [hs]
      exact ⟨_, rfl⟩
    · exact encode_isOk c indent v hindent (isWritable_of_encodable (c.layout indent) v h)

/-! ## Faults of a value with a text -/

section Faults

variable {α β : Type}

/-- An outcome that can only be a fault of the order of names, and none without sorting. -/
def FailsByOrder (sorted : Bool) (x : Except WritingFault α) : Prop :=
  ∀ fault, x = .error fault → sorted = true ∧ ∃ u, fault = .unordered u

lemma failsByOrder_ok (sorted : Bool) (a : α) : FailsByOrder sorted (.ok a) := by
  intro fault h
  cases h

lemma failsByOrder_bind {sorted : Bool} {x : Except WritingFault α} {f : α → Except WritingFault β}
    (hx : FailsByOrder sorted x) (hf : ∀ a, x = .ok a → FailsByOrder sorted (f a)) :
    FailsByOrder sorted (x >>= f) := by
  intro fault h
  cases hcase : x with
  | error e =>
    rw [hcase] at h
    obtain rfl := Except.error.inj h
    exact hx e hcase
  | ok a =>
    rw [hcase, ok_bind] at h
    exact hf a hcase fault h

lemma failsByOrder_mapM {sorted : Bool} (f : α → Except WritingFault β) (as : List α)
    (h : ∀ a ∈ as, FailsByOrder sorted (f a)) : FailsByOrder sorted (as.mapM f) := by
  induction as with
  | nil => exact failsByOrder_ok sorted []
  | cons a rest ih =>
    obtain ⟨ha, hrest⟩ := List.forall_mem_cons.mp h
    rw [List.mapM_cons]
    exact failsByOrder_bind ha fun _ _ => failsByOrder_bind (ih hrest) fun _ _ =>
      failsByOrder_ok sorted _

lemma failsByOrder_orderMembers (layout : Layout) (members : List (Value × Written)) :
    FailsByOrder layout.sorted (orderMembers layout members) := by
  intro fault h
  unfold orderMembers at h
  split at h
  · next hsorted =>
    obtain ⟨u, -, rfl⟩ := error_of_mapError h
    exact ⟨hsorted, u, rfl⟩
  · cases h

lemma failsByOrder_writeItems (layout : Layout) (depth : Nat) (items : List Value)
    (h : ∀ item ∈ items, ∀ depth, FailsByOrder layout.sorted (write layout depth item)) :
    FailsByOrder layout.sorted (writeItems layout depth items) := by
  induction items with
  | nil => exact failsByOrder_ok _ []
  | cons item rest ih =>
    obtain ⟨hitem, hrest⟩ := List.forall_mem_cons.mp h
    rw [writeItems]
    exact failsByOrder_bind (hitem depth) fun _ _ => failsByOrder_bind (ih hrest) fun _ _ =>
      failsByOrder_ok _ _

/-- A value with a text when nothing is sorted fails by an order of names, if at all. -/
lemma failsByOrder_write (layout : Layout) (v : Value) (h : Encodable layout.digits false v)
    (depth : Nat) : FailsByOrder layout.sorted (write layout depth v) := by
  induction h generalizing depth with
  | int n hshort =>
    rw [write, (limitedText_ok layout.digits n _).mpr ⟨hshort, rfl⟩]
    exact failsByOrder_ok _ _
  | list items _ ih | tuple items _ ih =>
    rw [write]
    exact failsByOrder_bind (failsByOrder_writeItems layout _ items ih) fun _ _ =>
      failsByOrder_ok _ _
  | node tag payload _ _ ihtag ihpayload =>
    rw [write]
    exact failsByOrder_bind (ihtag _) fun _ _ => failsByOrder_bind (ihpayload _) fun _ _ =>
      failsByOrder_ok _ _
  | dict entries hnames _ _ ih =>
    rw [write]
    refine failsByOrder_bind (failsByOrder_orderMembers layout _) fun members hmembers => ?_
    refine failsByOrder_bind (failsByOrder_mapM _ members fun m hm => ?_) fun _ _ =>
      failsByOrder_ok _ _
    have hm := mem_of_orderMembers layout _ members hmembers m hm
    rw [writeMembers_eq_map] at hm
    obtain ⟨e, he, rfl⟩ := List.mem_map.mp hm
    obtain ⟨name, hname⟩ := hnames e he
    unfold memberText
    rw [hname, ok_bind]
    exact failsByOrder_bind (ih e he _) fun _ _ => failsByOrder_ok _ _
  | _ => exact failsByOrder_ok _ _

end Faults

end Rulebook.Proofs
