import Mathlib
import Rulebook.Proofs.Json.Encodable
import Rulebook.Value.Plain

/-!
# Plain values

A text says nothing about the layout that it was written in: what is read back is the plain value,
with lists for sequences of every kind and the written form of the token for no value. All that a
codec refuses of plain data are integers with more digits than it allows.
-/

namespace Rulebook.Proofs
open Json

/-- A value that every layout writes, where `isNumber` holds for the floating-point numbers in it. -/
inductive IsJsonData (isNumber : Binary64 → Prop) : Value → Prop
  | null : IsJsonData isNumber .null
  | bool (b : Bool) : IsJsonData isNumber (.bool b)
  | int (n : Int) : IsJsonData isNumber (.int n)
  | float (x : Binary64) : isNumber x → IsJsonData isNumber (.float x)
  | str (s : String) : IsJsonData isNumber (.str s)
  | undefined : IsJsonData isNumber .undefined
  | list (items : List Value) : (∀ item ∈ items, IsJsonData isNumber item) →
      IsJsonData isNumber (.list items)
  | tuple (items : List Value) : (∀ item ∈ items, IsJsonData isNumber item) →
      IsJsonData isNumber (.tuple items)
  | node (tag payload : Value) : IsJsonData isNumber tag → IsJsonData isNumber payload →
      IsJsonData isNumber (.node tag payload)
  | dict (members : List (String × Value)) : (members.map Prod.fst).Nodup →
      (∀ m ∈ members, IsJsonData isNumber m.2) →
      IsJsonData isNumber (.dict (members.map fun m => (.str m.1, m.2)))

@[simp] lemma plainItems_eq_map (emptyObject : Bool) (items : List Value) :
    plainItems emptyObject items = items.map (plain emptyObject) := by
  induction items with
  | nil => rfl
  | cons item rest ih => rw [plainItems, ih, List.map_cons]

@[simp] lemma plainEntries_eq_map (emptyObject : Bool) (entries : Entries) :
    plainEntries emptyObject entries = entries.map fun e => (e.1, plain emptyObject e.2) := by
  induction entries with
  | nil => rfl
  | cons e rest ih => rw [plainEntries, ih, List.map_cons]

/-- A value in which neither a tuple nor the token for no value stands, outside the keys of
mappings. -/
inductive HasPlainForm : Value → Prop
  | list (items : List Value) : (∀ item ∈ items, HasPlainForm item) → HasPlainForm (.list items)
  | dict (entries : Entries) : (∀ e ∈ entries, HasPlainForm e.2) → HasPlainForm (.dict entries)
  | atom (v : Value) : v.items? = none → v.isDict = false → v ≠ .undefined → HasPlainForm v

mutual

/-- Whatever a value is, no tuple and no token is left in the plain value. -/
theorem hasPlainForm_plain (emptyObject : Bool) (v : Value) : HasPlainForm (plain emptyObject v) := by
  match v with
  | .list items | .tuple items =>
    rw [plain]
    exact .list _ (hasPlainForm_plainItems emptyObject items)
  | .node tag payload =>
    rw [plain]
    refine .list _ (List.forall_mem_cons.mpr ⟨hasPlainForm_plain emptyObject tag, ?_⟩)
    exact List.forall_mem_singleton.mpr (hasPlainForm_plain emptyObject payload)
  | .dict entries =>
    rw [plain]
    exact .dict _ (hasPlainForm_plainEntries emptyObject entries)
  | .undefined =>
    rw [plain]
    split
    · exact .dict [] (List.forall_mem_nil _)
    · exact .atom _ rfl rfl (by simp)
  | .null | .bool _ | .int _ | .float _ | .str _ | .bytes _ | .set _ | .timestamp _ | .rule _ |
    .brokenRule _ | .member _ | .constant _ | .inert => exact .atom _ rfl rfl (by simp [plain])

lemma hasPlainForm_plainItems (emptyObject : Bool) (items : List Value) :
    ∀ item ∈ plainItems emptyObject items, HasPlainForm item := by
  match items with
  | [] => exact List.forall_mem_nil _
  | item :: rest =>
    rw [plainItems, List.forall_mem_cons]
    exact ⟨hasPlainForm_plain emptyObject item, hasPlainForm_plainItems emptyObject rest⟩

lemma hasPlainForm_plainEntries (emptyObject : Bool) (entries : Entries) :
    ∀ e ∈ plainEntries emptyObject entries, HasPlainForm e.2 := by
  match entries with
  | [] => exact List.forall_mem_nil _
  | (key, v) :: rest =>
    rw [plainEntries, List.forall_mem_cons]
    exact ⟨hasPlainForm_plain emptyObject v, hasPlainForm_plainEntries emptyObject rest⟩

end

variable {isNumber : Binary64 → Prop}

/-- The plain value of data is a value that a text can hold. -/
lemma isDecoded_plain (emptyObject : Bool) (v : Value) (h : IsJsonData isNumber v) :
    IsDecoded isNumber (plain emptyObject v) := by
  induction h with
  | null => exact .null
  | bool b => exact .bool b
  | int n => exact .int n
  | float x hx => exact .float x hx
  | str s => exact .str s
  | undefined =>
    rw [plain]
    split
    · exact isDecoded_noEntries
    · exact .str _
  | list items _ ih | tuple items _ ih =>
    rw [plain, plainItems_eq_map]
    exact .list _ (List.forall_mem_map.mpr ih)
  | node tag payload _ _ ihtag ihpayload =>
    rw [plain]
    exact .list _ (List.forall_mem_cons.mpr ⟨ihtag, List.forall_mem_singleton.mpr ihpayload⟩)
  | dict members hnodup _ ih =>
    have hinjective : Function.Injective Value.str := fun _ _ heq => Value.str.inj heq
    rw [plain, plainEntries_eq_map, List.map_map]
    refine .dict _ ?_ ?_ ?_
    · rw [List.forall_mem_map]
      exact fun m _ => ⟨m.1, rfl⟩
    · rw [List.map_map]
      have hkeys := hnodup.map hinjective
      rwa [List.map_map] at hkeys
    · rw [List.forall_mem_map]
      exact ih

/-! ## What stands inside plain values -/

section Parts

variable (emptyObject : Bool) (u : Value) (hitems : u.items? = none) (hdict : u.isDict = false)

include hitems hdict

lemma ne_of_parts (w : Value) (hw : w.items?.isSome = true ∨ w.isDict = true) : u ≠ w := by
  rintro rfl
  simp [hitems, hdict] at hw

/-- What has no parts itself and occurs in a plain value has been in the value, or is written for the
token. -/
lemma occurs_of_plain (v : Value) (hv : IsJsonData isNumber v)
    (h : Occurs u (plain emptyObject v)) : Occurs u v ∨ u = .str "Undefined" := by
  have hsequence (w : Value) (items : List Value) (hw : w.items? = some items)
      (ih : ∀ item ∈ items, Occurs u (plain emptyObject item) → Occurs u item ∨ u = .str "Undefined")
      (h : Occurs u (.list (items.map (plain emptyObject)))) :
      Occurs u w ∨ u = .str "Undefined" := by
    obtain ⟨_, hmem, hoccurs⟩ := occurs_items u _ _ rfl h (ne_of_parts u hitems hdict _ (.inl rfl))
    obtain ⟨item, hitem, rfl⟩ := List.mem_map.mp hmem
    exact (ih item hitem hoccurs).imp_left fun h => .item w items item hw hitem h
  induction hv with
  | undefined =>
    rw [plain] at h
    split at h
    · obtain ⟨e, he, -⟩ := occurs_entries u [] h (ne_of_parts u hitems hdict _ (.inr rfl))
      cases he
    · exact .inr (occurs_atom u _ h rfl (by simp))
  | list items _ ih =>
    rw [plain, plainItems_eq_map] at h
    exact hsequence _ items rfl ih h
  | tuple items _ ih =>
    rw [plain, plainItems_eq_map] at h
    exact hsequence _ items rfl ih h
  | node tag payload _ _ ihtag ihpayload =>
    rw [plain] at h
    refine hsequence _ [tag, payload] rfl ?_ h
    exact List.forall_mem_cons.mpr ⟨ihtag, List.forall_mem_singleton.mpr ihpayload⟩
  | dict members _ _ ih =>
    rw [plain, plainEntries_eq_map, List.map_map] at h
    obtain ⟨e, he, hoccurs⟩ := occurs_entries u _ h (ne_of_parts u hitems hdict _ (.inr rfl))
    obtain ⟨m, hm, rfl⟩ := List.mem_map.mp he
    have hentry := List.mem_map_of_mem (f := fun m : String × Value => (Value.str m.1, m.2)) hm
    rcases hoccurs with hkey | hvalue
    · exact .inl (.key _ _ hentry hkey)
    · exact (ih m hm hvalue).imp_left fun h => .value _ _ hentry h
  | _ => exact .inl h

/-- Whatever has no parts itself is still there in the plain value, but for the token. -/
lemma occurs_plain (hundefined : u ≠ .undefined) (v : Value) (hv : IsJsonData isNumber v)
    (h : Occurs u v) : Occurs u (plain emptyObject v) := by
  have hsequence (w : Value) (items : List Value) (hw : w.items? = some items)
      (ih : ∀ item ∈ items, Occurs u item → Occurs u (plain emptyObject item)) (h : Occurs u w) :
      Occurs u (.list (items.map (plain emptyObject))) := by
    have hne := ne_of_parts u hitems hdict w (.inl (by rw [hw]; rfl))
    obtain ⟨item, hitem, hoccurs⟩ := occurs_items u w items hw h hne
    exact occurs_list u _ _ (List.mem_map_of_mem hitem) (ih item hitem hoccurs)
  induction hv with
  | undefined => exact absurd (occurs_atom u _ h rfl (by simp)) hundefined
  | list items _ ih =>
    rw [plain, plainItems_eq_map]
    exact hsequence _ items rfl ih h
  | tuple items _ ih =>
    rw [plain, plainItems_eq_map]
    exact hsequence _ items rfl ih h
  | node tag payload _ _ ihtag ihpayload =>
    rw [plain]
    refine hsequence _ [tag, payload] rfl ?_ h
    exact List.forall_mem_cons.mpr ⟨ihtag, List.forall_mem_singleton.mpr ihpayload⟩
  | dict members _ _ ih =>
    rw [plain, plainEntries_eq_map, List.map_map]
    obtain ⟨e, he, hoccurs⟩ := occurs_entries u _ h (ne_of_parts u hitems hdict _ (.inr rfl))
    obtain ⟨m, hm, rfl⟩ := List.mem_map.mp he
    have hentry := List.mem_map_of_mem
      (f := fun m : String × Value => (Value.str m.1, plain emptyObject m.2)) hm
    rcases hoccurs with hkey | hvalue
    · exact .key _ _ hentry hkey
    · exact .value _ _ hentry (ih m hm hvalue)
  | _ => exact h

end Parts

lemma hasShortIntegers_plain {limit : Option Nat} (emptyObject : Bool) (v : Value)
    (hv : IsJsonData isNumber v) (h : HasShortIntegers limit v) :
    HasShortIntegers limit (plain emptyObject v) := by
  intro n hn
  rcases occurs_of_plain emptyObject (.int n) rfl rfl v hv hn with hoccurs | heq
  · exact h n hoccurs
  · cases heq

/-! ## What layouts make of plain values -/

lemma isWritable_int (layout : Layout) (n : Int) (h : IsShort layout.digits n) :
    IsWritable layout (.int n) := fun _ => ⟨_, (limitedText_ok layout.digits n _).mpr ⟨h, rfl⟩⟩

lemma isWritable_of_isJsonData (layout : Layout) (v : Value) (h : IsJsonData isNumber v)
    (hshort : HasShortIntegers layout.digits v) : IsWritable layout v := by
  induction h with
  | int n => exact isWritable_int layout n (hshort n .self)
  | list items _ ih =>
    rw [hasShortIntegers_list_iff] at hshort
    exact isWritable_list layout items fun item hitem => ih item hitem (hshort item hitem)
  | tuple items _ ih =>
    rw [hasShortIntegers_tuple_iff] at hshort
    exact isWritable_tuple layout items fun item hitem => ih item hitem (hshort item hitem)
  | node tag payload _ _ ihtag ihpayload =>
    rw [hasShortIntegers_node_iff] at hshort
    exact isWritable_node layout tag payload (ihtag hshort.1) (ihpayload hshort.2)
  | dict members _ _ ih =>
    rw [hasShortIntegers_dict_iff, List.forall_mem_map] at hshort
    apply isWritable_dict
    · intro e he
      obtain ⟨m, -, rfl⟩ := List.mem_map.mp he
      exact ⟨m.1, rfl⟩
    · intro e he
      obtain ⟨m, hm, rfl⟩ := List.mem_map.mp he
      exact ih m hm (hshort m hm).2
  | _ => exact fun depth => ⟨_, rfl⟩

/-- A mapping keeps its members in its text, and their order unless the layout sorts them. -/
lemma reading_dict (layout : Layout) (entries : Entries)
    (hnodup : (entries.map fun e => nameText e.1).Nodup) :
    ∃ named : List (String × Value),
      reading layout (.dict entries) = .dict (named.map fun p => (.str p.1, p.2)) ∧
      named.Perm (entries.map fun e => (nameText e.1, reading layout e.2)) ∧
      (layout.sorted = false → named = entries.map fun e => (nameText e.1, reading layout e.2)) := by
  let members := entries.map fun e => (e.1, reading layout e.2)
  let named := (ordered layout members).map fun e => (nameText e.1, e.2)
  have hmembers : members.map (fun e => (nameText e.1, e.2)) =
      entries.map fun e => (nameText e.1, reading layout e.2) := by
    rw [List.map_map]
    rfl
  have hnamed : named.Perm (entries.map fun e => (nameText e.1, reading layout e.2)) :=
    hmembers ▸ (ordered_perm layout members).map fun e => (nameText e.1, e.2)
  have hkeys : (named.map Prod.fst).Nodup := by
    apply (hnamed.map Prod.fst).nodup_iff.mpr
    rw [List.map_map]
    exact hnodup
  have hpairs : (ordered layout members).map (fun e => (Value.str (nameText e.1), e.2)) =
      named.map fun p => (.str p.1, p.2) := by
    rw [List.map_map]
    rfl
  refine ⟨named, ?_, hnamed, ?_⟩
  · rw [reading, memberReadings_eq_map, ← ofPairs_of_nodup named hkeys, ← hpairs]
  · intro hsorted
    rw [← hmembers]
    exact congrArg _ (by unfold ordered; rw [hsorted, if_neg Bool.false_ne_true])

lemma nodup_nameText (members : List (String × Value)) (h : (members.map Prod.fst).Nodup) :
    ((members.map fun m => (Value.str m.1, m.2)).map fun e => nameText e.1).Nodup := by
  rw [List.map_map]
  have hname : ∀ m ∈ members, nameText (.str m.1) = m.1 :=
    fun m _ => nameText_of_text? (.str m.1) m.1 rfl
  exact (List.map_congr_left hname).symm ▸ h

/-- A layout that keeps the order of members makes the plain value. -/
lemma reading_of_isJsonData (layout : Layout) (hlayout : layout.sorted = false) (v : Value)
    (h : IsJsonData isNumber v) : reading layout v = plain layout.emptyObject v := by
  induction h with
  | list items _ ih =>
    rw [reading, plain, readings_eq_map, plainItems_eq_map, List.map_congr_left ih]
  | tuple items _ ih =>
    rw [reading, plain, readings_eq_map, plainItems_eq_map, List.map_congr_left ih]
  | node tag payload _ _ ihtag ihpayload => rw [reading, plain, ihtag, ihpayload]
  | dict members hnodup _ ih =>
    obtain ⟨named, hreading, -, hnamed⟩ := reading_dict layout _ (nodup_nameText members hnodup)
    rw [hreading, hnamed hlayout, plain, plainEntries_eq_map, List.map_map, List.map_map,
      List.map_map]
    refine congrArg Value.dict (List.map_congr_left fun m hm => ?_)
    refine Prod.ext (congrArg Value.str ?_) (ih m hm)
    exact nameText_of_text? (.str m.1) m.1 rfl
  | undefined => rw [reading, plain]
  | _ => rfl

lemma equal_reading_dict (layout layout' : Layout) (members : List (String × Value))
    (hnodup : (members.map Prod.fst).Nodup)
    (h : ∀ m ∈ members, (reading layout m.2).equal (reading layout' m.2) = true) :
    (reading layout (.dict (members.map fun m => (.str m.1, m.2)))).equal
      (reading layout' (.dict (members.map fun m => (.str m.1, m.2)))) = true := by
  have hnames := nodup_nameText members hnodup
  obtain ⟨named, hreading, hnamed, -⟩ := reading_dict layout _ hnames
  obtain ⟨named', hreading', hnamed', -⟩ := reading_dict layout' _ hnames
  rw [hreading, hreading']
  apply equal_dict
  · simp only [List.length_map, hnamed.length_eq, hnamed'.length_eq]
  · -- Both layouts rearrange the same members, so the partner of a member is found by its name.
    intro e he
    obtain ⟨p, hp, rfl⟩ := List.mem_map.mp he
    obtain ⟨member, hmember, rfl⟩ := List.mem_map.mp (hnamed.mem_iff.mp hp)
    have hp' := hnamed'.mem_iff.mpr (List.mem_map_of_mem hmember)
    obtain ⟨m, hm, rfl⟩ := List.mem_map.mp hmember
    exact ⟨_, List.mem_map_of_mem hp', equal_str_self _, h m hm⟩

/-- Layouts that write the token for no value alike make equal values, unless there is a NaN. -/
lemma equal_reading (layout layout' : Layout) (hforms : layout.emptyObject = layout'.emptyObject)
    (hnumber : ∀ x, isNumber x → x ≠ .nan) (v : Value) (h : IsJsonData isNumber v) :
    (reading layout v).equal (reading layout' v) = true := by
  induction h with
  | null =>
    change Value.null.equal .null = true
    unfold Value.equal
    rw [Value.alike]
  | bool b => exact equal_self_of_number (.bool b) _ rfl (by simp)
  | int n => exact equal_self_of_number (.int n) _ rfl (by simp)
  | float x hx => exact equal_self_of_number (.float x) _ rfl (by simpa using hnumber x hx)
  | str s => exact equal_str_self s
  | undefined =>
    rw [reading, reading, hforms]
    cases layout'.emptyObject with
    | true => exact equal_dict [] [] rfl (by simp)
    | false => exact equal_str_self "Undefined"
  | list items _ ih =>
    rw [reading, reading, readings_eq_map, readings_eq_map]
    exact equal_list_map _ _ items ih
  | tuple items _ ih =>
    rw [reading, reading, readings_eq_map, readings_eq_map]
    exact equal_list_map _ _ items ih
  | node tag payload _ _ ihtag ihpayload =>
    rw [reading, reading, equal_list]
    exact .cons ihtag (.cons ihpayload .nil)
  | dict members hnodup _ ih => exact equal_reading_dict layout layout' members hnodup ih

/-! ## What texts hold -/

lemma exists_members (entries : Entries) (h : ∀ e ∈ entries, ∃ name, e.1 = .str name) :
    ∃ members : List (String × Value), entries = members.map fun m => (.str m.1, m.2) := by
  refine exists_eq_map entries fun e he => ?_
  obtain ⟨name, hname⟩ := h e he
  exact ⟨(name, e.2), Prod.ext hname rfl⟩

lemma isDecoded_members (members : List (String × Value))
    (h : IsDecoded isNumber (.dict (members.map fun m => (.str m.1, m.2)))) :
    (members.map Prod.fst).Nodup ∧ ∀ m ∈ members, IsDecoded isNumber m.2 := by
  cases h with
  | dict _ _ hnodup hvalues =>
    rw [List.map_map] at hnodup
    rw [List.forall_mem_map] at hvalues
    exact ⟨List.Nodup.of_map Value.str (by rwa [List.map_map]), hvalues⟩

lemma isJsonData_of_isDecoded (v : Value) (h : IsDecoded isNumber v) : IsJsonData isNumber v := by
  induction h with
  | null => exact .null
  | bool b => exact .bool b
  | int n => exact .int n
  | float x hx => exact .float x hx
  | str s => exact .str s
  | list items _ ih => exact .list items ih
  | dict entries hnames hnodup hvalues ih =>
    obtain ⟨members, rfl⟩ := exists_members entries hnames
    exact .dict members (isDecoded_members members (.dict _ hnames hnodup hvalues)).1
      fun m hm => ih _ (List.mem_map_of_mem hm)

lemma plain_of_isDecoded (emptyObject : Bool) (v : Value) (h : IsDecoded isNumber v) :
    plain emptyObject v = v := by
  induction h with
  | list items _ ih => rw [plain, plainItems_eq_map, List.map_congr_left ih, List.map_id']
  | dict entries _ _ _ ih =>
    have hentries : ∀ e ∈ entries, (e.1, plain emptyObject e.2) = e :=
      fun e he => Prod.ext rfl (ih e he)
    rw [plain, plainEntries_eq_map, List.map_congr_left hentries, List.map_id']
  | _ => rfl

lemma isWritable_of_isDecoded (layout : Layout) (v : Value) (h : IsDecoded isNumber v)
    (hshort : HasShortIntegers layout.digits v) : IsWritable layout v :=
  isWritable_of_isJsonData layout v (isJsonData_of_isDecoded v h) hshort

/-- What texts hold reads as itself where members keep their order. -/
lemma reading_of_isDecoded (layout : Layout) (hlayout : layout.sorted = false) (v : Value)
    (h : IsDecoded isNumber v) : reading layout v = v := by
  rw [reading_of_isJsonData layout hlayout v (isJsonData_of_isDecoded v h), plain_of_isDecoded _ v h]

/-- What texts hold is equal to itself, unless there is a NaN in it. -/
lemma equal_of_isDecoded (hnumber : ∀ x, isNumber x → x ≠ .nan) (v : Value)
    (h : IsDecoded isNumber v) : v.equal v = true := by
  let layout : Layout := ⟨none, false, false, false, none⟩
  have hequal := equal_reading layout layout rfl hnumber v (isJsonData_of_isDecoded v h)
  rwa [reading_of_isDecoded layout rfl v h] at hequal

/-! ## Codecs -/

/-- A codec encodes a value, and what it writes decodes to another one. -/
def ComesBackAs (c : Codec) (v w : Value) : Prop :=
  ∃ text, c.encode v = .ok text ∧ c.decode (.str text) = .ok w

/-- The settings of a codec for plain data: a count of blanks or none, and one of the two forms of the
token for no value. The others may be any values. -/
structure IsPlainCodec (c : Codec) (emptyObject : Bool) : Prop where
  indent : IsCount c.indent
  encoding : c.undefinedEncoding = .str (if emptyObject then "empty_object" else "string")

lemma comesBackAs_reading (c : Codec) (emptyObject : Bool) (hc : IsPlainCodec c emptyObject)
    (v : Value) (hv : IsJsonData isNumber v) (hshort : HasShortIntegers c.digits v) :
    ∃ layout : Layout, layout.emptyObject = emptyObject ∧ ComesBackAs c v (reading layout v) := by
  obtain ⟨indent, hindent, hlayout⟩ := indentation_of_isCount c hc.indent
  have hwritable := isWritable_of_isJsonData (c.layout indent) v hv hshort
  obtain ⟨text, htext⟩ := encode_isOk c indent v hindent hwritable
  refine ⟨c.layout indent, ?_, text, htext, decode_encode c indent v text hindent hlayout htext⟩
  unfold Codec.layout
  rw [hc.encoding]
  cases emptyObject <;> rfl

lemma comesBackAs_plain (c : Codec) (emptyObject : Bool) (hc : IsPlainCodec c emptyObject)
    (v : Value) (hv : IsJsonData (· ≠ .nan) v) (hshort : HasShortIntegers c.digits v) :
    ∃ w, ComesBackAs c v w ∧ w.equal (plain emptyObject v) = true := by
  obtain ⟨layout, hform, hback⟩ := comesBackAs_reading c emptyObject hc v hv hshort
  let kept : Layout := { layout with sorted := false }
  have hplain : reading kept v = plain emptyObject v := by
    rw [reading_of_isJsonData kept rfl v hv, ← hform]
  exact ⟨_, hback, hplain ▸ equal_reading layout kept rfl (fun _ hx => hx) v hv⟩

/-- What a codec has written or read has no integer that is longer than its limit. -/
lemma hasShortIntegers_of_encode (c : Codec) (v : Value) (text : String)
    (h : c.encode v = .ok text) : HasShortIntegers c.digits v :=
  hasShortIntegers_of_encodable _ v ((encode_isOk_iff c v).mp ⟨text, h⟩).1

lemma hasShortIntegers_of_decode (c : Codec) (x v : Value) (h : c.decode x = .ok v) :
    HasShortIntegers c.digits v := by
  obtain ⟨text, hread, -⟩ := read_of_decode c x v h
  exact hasShortIntegers_of_read c.digits text v hread

/-- Data is encoded if and only if none of its integers is too long, and decodes to the plain value,
from two layouts to equal ones. What has been decoded comes back as it is. Where there is no limit on
digits, all integers are short. -/
theorem decode_encode_plain (c : Codec) (emptyObject : Bool) (hc : IsPlainCodec c emptyObject) :
    (∀ v, IsJsonData (· ≠ .nan) v →
        ((∃ text, c.encode v = .ok text) ↔ HasShortIntegers c.digits v)) ∧
      (∀ v, IsJsonData (· ≠ .nan) v → HasShortIntegers c.digits v →
        ∃ w, ComesBackAs c v w ∧ w.equal (plain emptyObject v) = true) ∧
      (∀ c', IsPlainCodec c' emptyObject → c'.digits = c.digits → ∀ v, IsJsonData (· ≠ .nan) v →
        HasShortIntegers c.digits v →
          ∃ w w', ComesBackAs c v w ∧ ComesBackAs c' v w' ∧ w.equal w' = true) ∧
      ∀ x v, c.decode x = .ok v → ¬Occurs (.float .nan) v →
        ∃ w, ComesBackAs c v w ∧ w.equal v = true := by
  refine ⟨fun v hv => ⟨?_, fun hshort => ?_⟩, comesBackAs_plain c emptyObject hc, ?_, ?_⟩
  · rintro ⟨text, htext⟩
    exact hasShortIntegers_of_encode c v text htext
  · obtain ⟨w, ⟨text, htext, -⟩, -⟩ := comesBackAs_plain c emptyObject hc v hv hshort
    exact ⟨text, htext⟩
  · intro c' hc' hdigits v hv hshort
    obtain ⟨layout, hform, hback⟩ := comesBackAs_reading c emptyObject hc v hv hshort
    obtain ⟨layout', hform', hback'⟩ :=
      comesBackAs_reading c' emptyObject hc' v hv (hdigits.symm ▸ hshort)
    have hforms := hform.trans hform'.symm
    exact ⟨_, _, hback, hback', equal_reading layout layout' hforms (fun _ hx => hx) v hv⟩
  · intro x v hdecode hnan
    obtain ⟨text, hread, -⟩ := read_of_decode c x v hdecode
    have htrue : IsDecoded (fun _ => True) v := isDecoded_of_read c.digits text v (by simp) hread
    have hv : IsDecoded (· ≠ .nan) v := by
      apply isDecoded_of_numbers v htrue
      rintro _ hoccurs rfl
      exact hnan hoccurs
    obtain ⟨w, hback, hequal⟩ := comesBackAs_plain c emptyObject hc v (isJsonData_of_isDecoded v hv)
      (hasShortIntegers_of_decode c x v hdecode)
    rw [plain_of_isDecoded emptyObject v hv] at hequal
    exact ⟨w, hback, hequal⟩

/-- A negative indentation, escapes, sorted members and empty objects for no value. -/
def sortingCodec : Codec where
  indent := .int (-3)
  ensureAscii := .bool true
  sortKeys := .bool true
  undefinedEncoding := .str "empty_object"

/-- A node and a tuple come back as lists, from a text with the members in another order. -/
theorem decode_encode_plain_sorted :
    ∃ w, ComesBackAs sortingCodec
        (.dict [(.str "é", .node (.str "𝄞") .undefined), (.str "a", .tuple [.int (10 ^ 30)])]) w ∧
      w.equal (.dict [(.str "é", .list [.str "𝄞", .dict []]), (.str "a", .list [.int (10 ^ 30)])]) =
        true := by
  have hcodec : IsPlainCodec sortingCodec true :=
    ⟨.inr (.inr ⟨-3, rfl, by decide, by decide⟩), rfl⟩
  have hnode : IsJsonData (· ≠ .nan) (.node (.str "𝄞") .undefined) :=
    .node _ _ (.str _) .undefined
  have htuple : IsJsonData (· ≠ .nan) (.tuple [.int (10 ^ 30)]) :=
    .tuple _ (by simpa using .int _)
  have hshort : HasShortIntegers sortingCodec.digits
      (.dict [(.str "é", .node (.str "𝄞") .undefined), (.str "a", .tuple [.int (10 ^ 30)])]) := by
    have hint : IsShort sortingCodec.digits (10 ^ 30) := isShort_of_lt 31 (by decide) (by decide)
    simpa using hint
  exact (decode_encode_plain sortingCodec true hcodec).2.1 _
    (.dict [("é", .node (.str "𝄞") .undefined), ("a", .tuple [.int (10 ^ 30)])] (by decide)
      (List.forall_mem_cons.mpr ⟨hnode, List.forall_mem_singleton.mpr htuple⟩)) hshort

/-- An integer of more digits than the limit is not encoded. -/
theorem not_encode_longInteger :
    IsPlainCodec {} false ∧ IsJsonData (· ≠ .nan) (.int (10 ^ 5000)) ∧
      ∀ w, ¬ComesBackAs {} (.int (10 ^ 5000)) w := by
  refine ⟨⟨.inl rfl, rfl⟩, .int _, ?_⟩
  rintro w ⟨text, htext, -⟩
  have hshort := hasShortIntegers_of_encode {} _ text htext
  rw [hasShortIntegers_int_iff] at hshort
  exact not_isShort_pow 5000 (by decide) hshort

end Rulebook.Proofs
