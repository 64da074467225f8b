import Mathlib
import Rulebook.Proofs.Json.Decoded

/-!
# What stands inside a value

Occurrence of one value in another, and what may occur in the values that texts hold.
-/

namespace Rulebook.Proofs

/-- A value that stands somewhere in another one: it is the value itself, or stands in an item of a
sequence, in the tag or the payload of a node, or in a key or a value of a mapping. -/
inductive Occurs (u : Value) : Value → Prop
  | self : Occurs u u
  | item (v : Value) (items : List Value) (item : Value) : v.items? = some items → item ∈ items →
      Occurs u item → Occurs u v
  | key (entries : Entries) (e : Value × Value) : e ∈ entries → Occurs u e.1 →
      Occurs u (.dict entries)
  | value (entries : Entries) (e : Value × Value) : e ∈ entries → Occurs u e.2 →
      Occurs u (.dict entries)

variable {isNumber : Binary64 → Prop}

lemma occurs_list (u : Value) (items : List Value) (item : Value) (hitem : item ∈ items)
    (h : Occurs u item) : Occurs u (.list items) :=
  .item (.list items) items item rfl hitem h

lemma occurs_trans {u v w : Value} (huv : Occurs u v) (hvw : Occurs v w) : Occurs u w := by
  induction hvw with
  | self => exact huv
  | item w items item hitems hitem _ ih => exact .item w items item hitems hitem ih
  | key entries e he _ ih => exact .key entries e he ih
  | value entries e he _ ih => exact .value entries e he ih

/-- What occurs in a sequence is the sequence itself or occurs in an item. -/
lemma occurs_items (u v : Value) (items : List Value) (hitems : v.items? = some items)
    (h : Occurs u v) (hu : u ≠ v) : ∃ item ∈ items, Occurs u item := by
  cases h with
  | self => exact absurd rfl hu
  | item _ items' item hitems' hitem hoccurs =>
    obtain rfl := Option.some.inj (hitems.symm.trans hitems')
    exact ⟨item, hitem, hoccurs⟩
  | key => cases hitems
  | value => cases hitems

/-- What occurs in a mapping is the mapping itself or occurs in an entry. -/
lemma occurs_entries (u : Value) (entries : Entries) (h : Occurs u (.dict entries))
    (hu : u ≠ .dict entries) : ∃ e ∈ entries, Occurs u e.1 ∨ Occurs u e.2 := by
  cases h with
  | self => exact absurd rfl hu
  | item _ _ _ hitems => cases hitems
  | key _ e he hoccurs => exact ⟨e, he, .inl hoccurs⟩
  | value _ e he hoccurs => exact ⟨e, he, .inr hoccurs⟩

/-- Nothing occurs in a value without parts but the value itself. -/
lemma occurs_atom (u v : Value) (h : Occurs u v) (hitems : v.items? = none)
    (hdict : ∀ entries, v ≠ .dict entries) : u = v := by
  cases h with
  | self => rfl
  | item _ items _ hsome => exact absurd (hsome.symm.trans hitems) (by simp)
  | key entries | value entries => exact absurd rfl (hdict entries)

/-- No text occurs in a value that is none and has no parts. -/
lemma not_occurs_text (v : Value) (s : String) (hitems : v.items? = none)
    (hdict : ∀ entries, v ≠ .dict entries) (htext : v.text? = none) : ¬Occurs (.str s) v := by
  intro h
  rw [← occurs_atom _ v h hitems hdict] at htext
  cases htext

lemma isKey_of_areKeys (items : List Value) (h : Value.areKeys items = true) :
    ∀ item ∈ items, item.isKey = true := by
  induction items with
  | nil => simp
  | cons item rest ih =>
    rw [Value.areKeys, Bool.and_eq_true] at h
    exact List.forall_mem_cons.mpr ⟨h.1, ih h.2⟩

lemma isKey_items (v : Value) (items : List Value) (hitems : v.items? = some items)
    (h : v.isKey = true) : ∀ item ∈ items, item.isKey = true := by
  cases v with
  | tuple _ =>
    obtain rfl := Option.some.inj hitems
    rw [Value.isKey] at h
    exact isKey_of_areKeys _ h
  | node tag payload =>
    obtain rfl := Option.some.inj hitems
    rw [Value.isKey, Bool.and_eq_true] at h
    exact List.forall_mem_cons.mpr ⟨h.1, List.forall_mem_singleton.mpr h.2⟩
  | list _ => cases h
  | _ => cases hitems

/-- No mapping stands in a key. -/
lemma not_occurs_dict_of_isKey (entries : Entries) (key : Value) (hkey : key.isKey = true) :
    ¬Occurs (.dict entries) key := by
  intro h
  induction h with
  | self => cases hkey
  | item v items item hitems hitem _ ih => exact ih (isKey_items v items hitems hkey item hitem)
  | key | value => cases hkey

/-- What occurs in a value that a text holds is such a value as well. -/
lemma isDecoded_of_occurs (u v : Value) (h : Occurs u v) (hv : IsDecoded isNumber v) :
    IsDecoded isNumber u := by
  induction h with
  | self => exact hv
  | item v items item hitems hitem _ ih => exact ih (isDecoded_items v items hv hitems item hitem)
  | key entries e he _ ih =>
    cases hv with
    | dict _ hnames _ _ =>
      obtain ⟨name, hname⟩ := hnames e he
      exact ih (hname ▸ .str name)
  | value entries e he _ ih =>
    cases hv with
    | dict _ _ _ hvalues => exact ih (hvalues e he)

lemma not_occurs_node (tag payload v : Value) (hv : IsDecoded isNumber v) :
    ¬Occurs (.node tag payload) v := by
  intro h
  cases isDecoded_of_occurs _ v h hv

/-- No integer in a value has more digits than a limit. -/
def HasShortIntegers (limit : Option Nat) (v : Value) : Prop :=
  ∀ n, Occurs (.int n) v → IsShort limit n

lemma hasShortIntegers_none (v : Value) : HasShortIntegers none v := fun n _ => isShort_none n

section Integers

variable {limit : Option Nat}

lemma hasShortIntegers_of_occurs {u v : Value} (hoccurs : Occurs u v)
    (h : HasShortIntegers limit v) : HasShortIntegers limit u :=
  fun n hn => h n (occurs_trans hn hoccurs)

@[simp] lemma hasShortIntegers_int_iff (n : Int) :
    HasShortIntegers limit (.int n) ↔ IsShort limit n := by
  refine ⟨fun h => h n .self, fun h m hm => ?_⟩
  obtain rfl := Value.int.inj (occurs_atom _ _ hm rfl (by simp))
  exact h

lemma hasShortIntegers_atom (v : Value) (hitems : v.items? = none)
    (hdict : ∀ entries, v ≠ .dict entries) (hint : ∀ n, v ≠ .int n) : HasShortIntegers limit v :=
  fun n hn => absurd (occurs_atom _ v hn hitems hdict).symm (hint n)

@[simp] lemma hasShortIntegers_str (s : String) : HasShortIntegers limit (.str s) :=
  hasShortIntegers_atom _ rfl (by simp) (by simp)

@[simp] lemma hasShortIntegers_undefined : HasShortIntegers limit .undefined :=
  hasShortIntegers_atom _ rfl (by simp) (by simp)

/-- The integers of a sequence are those of its items. -/
lemma hasShortIntegers_items_iff (v : Value) (items : List Value) (hitems : v.items? = some items) :
    HasShortIntegers limit v ↔ ∀ item ∈ items, HasShortIntegers limit item := by
  constructor
  · exact fun h item hitem => hasShortIntegers_of_occurs (.item v items item hitems hitem .self) h
  · intro h n hn
    have hne : Value.int n ≠ v := by
      rintro rfl
      cases hitems
    obtain ⟨item, hitem, hoccurs⟩ := occurs_items _ v items hitems hn hne
    exact h item hitem n hoccurs

@[simp] lemma hasShortIntegers_list_iff (items : List Value) :
    HasShortIntegers limit (.list items) ↔ ∀ item ∈ items, HasShortIntegers limit item :=
  hasShortIntegers_items_iff _ items rfl

@[simp] lemma hasShortIntegers_tuple_iff (items : List Value) :
    HasShortIntegers limit (.tuple items) ↔ ∀ item ∈ items, HasShortIntegers limit item :=
  hasShortIntegers_items_iff _ items rfl

@[simp] lemma hasShortIntegers_node_iff (tag payload : Value) :
    HasShortIntegers limit (.node tag payload) ↔
      HasShortIntegers limit tag ∧ HasShortIntegers limit payload := by
  rw [hasShortIntegers_items_iff _ [tag, payload] rfl, List.forall_mem_cons,
    List.forall_mem_singleton]

@[simp] lemma hasShortIntegers_dict_iff (entries : Entries) :
    HasShortIntegers limit (.dict entries) ↔
      ∀ e ∈ entries, HasShortIntegers limit e.1 ∧ HasShortIntegers limit e.2 := by
  constructor
  · exact fun h e he => ⟨hasShortIntegers_of_occurs (.key entries e he .self) h,
      hasShortIntegers_of_occurs (.value entries e he .self) h⟩
  · intro h n hn
    cases hn with
    | item _ _ _ hitems => cases hitems
    | key _ e he hn => exact (h e he).1 n hn
    | value _ e he hn => exact (h e he).2 n hn

end Integers

lemma isKeptByReading_hasShortIntegers (limit : Option Nat) :
    IsKeptByReading (HasShortIntegers limit) where
  text := hasShortIntegers_str
  list items := (hasShortIntegers_list_iff items).mpr
  noEntries := by simp
  insert before name v hbefore hv := by
    rw [hasShortIntegers_dict_iff] at hbefore ⊢
    intro e he
    obtain ⟨hkey, hvalue⟩ := mem_insert_any before _ v e he
    constructor
    · rcases hkey with heq | ⟨e', he', heq⟩
      · exact heq ▸ hasShortIntegers_str name
      · exact heq ▸ (hbefore e' he').1
    · rcases hvalue with heq | ⟨e', he', heq⟩
      · exact heq ▸ hv
      · exact heq ▸ (hbefore e' he').2

/-- Whatever is read has integers that are no longer than the limit. -/
theorem hasShortIntegers_of_read (limit : Option Nat) (text : List Char) (v : Value)
    (h : Json.read limit text = .ok v) : HasShortIntegers limit v := by
  refine holds_of_read (isKeptByReading_hasShortIntegers limit) limit text v ?_ h
  intro w t ht hw hshort
  rcases scalar_of_scan text t ht w hw with rfl | ⟨b, rfl⟩ | ⟨m, rfl⟩ | ⟨x, rfl⟩
  · exact hasShortIntegers_atom _ rfl (by simp) (by simp)
  · exact hasShortIntegers_atom _ rfl (by simp) (by simp)
  · rw [hasShortIntegers_int_iff, ← exceeded?_eq_none_iff]
    exact Option.map_eq_none_iff.mp hshort
  · exact hasShortIntegers_atom _ rfl (by simp) (by simp)

/-- The numbers of a value are those that occur in it. -/
lemma isDecoded_of_numbers (v : Value) (hv : IsDecoded (fun _ => True) v)
    (h : ∀ x, Occurs (.float x) v → isNumber x) : IsDecoded isNumber v := by
  induction hv with
  | null => exact .null
  | bool b => exact .bool b
  | int n => exact .int n
  | float x _ => exact .float x (h x .self)
  | str s => exact .str s
  | list items _ ih =>
    refine .list items fun item hitem => ih item hitem ?_
    exact fun x hx => h x (occurs_list _ items item hitem hx)
  | dict entries hnames hnodup _ ih =>
    refine .dict entries hnames hnodup fun e he => ih e he ?_
    exact fun x hx => h x (.value entries e he hx)

end Rulebook.Proofs
