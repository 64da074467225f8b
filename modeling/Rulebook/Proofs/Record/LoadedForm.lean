import Mathlib
import Rulebook.Proofs.Json.Plain
import Rulebook.Proofs.Record.LoadsAs

/-!
# The form of what has been loaded

A value that a text holds loads as a value of one form: every node has a type of the schema and the
fields of that type, with trees and arguments in their places, and nothing is left to load.
-/

namespace Rulebook.Proofs
open Record

/-- The form that loading gives a value at its place, where `isNumber` holds for the floating-point
numbers in it. -/
inductive LoadedForm (S : Schema) (isNumber : Binary64 → Prop) : Place → Value → Prop
  | single (t : String) (field value : Value) : t ∈ S.types → S.fields? (.str t) = some [field] →
      LoadedForm S isNumber (.field field) value →
      LoadedForm S isNumber .tree (.node (.str t) value)
  | several (t : String) (fields values : List Value) : t ∈ S.types →
      S.fields? (.str t) = some fields → fields.length ≠ 1 → values.length = fields.length →
      (∀ p ∈ fields.zip values, LoadedForm S isNumber (.field p.1) p.2) →
      LoadedForm S isNumber .tree (.node (.str t) (.tuple values))
  | rule (field value : Value) : field.text? = some "rule" → LoadedForm S isNumber .tree value →
      LoadedForm S isNumber (.field field) value
  | rules (field : Value) (values : List Value) : field.text? = some "rules" →
      (∀ value ∈ values, LoadedForm S isNumber .tree value) →
      LoadedForm S isNumber (.field field) (.list values)
  | args (field : Value) (values : List Value) : field.text? = some "args" →
      (∀ value ∈ values, LoadedForm S isNumber .argument value) →
      LoadedForm S isNumber (.field field) (.list values)
  | other (field value : Value) : field.text? ≠ some "rule" → field.text? ≠ some "rules" →
      field.text? ≠ some "args" → LoadedForm S isNumber .operand value →
      LoadedForm S isNumber (.field field) value
  /-- The name of an argument is as it was in the text. -/
  | argument (name value : Value) : IsDecoded isNumber name →
      LoadedForm S isNumber .operand value → LoadedForm S isNumber .argument (.tuple [name, value])
  | nested (value : Value) : LoadedForm S isNumber .tree value →
      LoadedForm S isNumber .operand value
  | list (values : List Value) : (∀ value ∈ values, LoadedForm S isNumber .operand value) →
      LoadedForm S isNumber .operand (.list values)
  | undefined : LoadedForm S isNumber .operand .undefined
  | scalar (value : Value) : IsDecoded isNumber value → (∀ entries, value ≠ .dict entries) →
      (∀ items, value ≠ .list items) → value.text? ≠ some undefinedText →
      LoadedForm S isNumber .operand value

lemma isNode_of_loadedForm {S : Schema} {isNumber : Binary64 → Prop} (v : Value)
    (h : LoadedForm S isNumber .tree v) : v.isNode = true := by
  cases h <;> rfl

section Equality

variable {S : Schema} {isNumber : Binary64 → Prop}

/-- What has been loaded is equal to itself, unless there is a NaN in it. -/
lemma equal_of_loadedForm (hnumber : ∀ x, isNumber x → x ≠ .nan) (place : Place) (v : Value)
    (h : LoadedForm S isNumber place v) : v.equal v = true := by
  have hstr (s : String) : (Value.str s).equal (.str s) = true :=
    equal_of_isDecoded hnumber _ (.str s)
  have hself {values : List Value} (h : ∀ value ∈ values, value.equal value = true) :
      List.Forall₂ (fun a b => Value.equal a b = true) values values := by
    rw [List.forall₂_same]
    exact h
  induction h with
  | single t _ _ _ _ _ ih => exact (equal_node _ _ _ _).mpr ⟨hstr t, ih⟩
  | several t fields values _ _ _ hlength _ ih =>
    exact (equal_node _ _ _ _).mpr ⟨hstr t,
      (equal_tuple _ _).mpr (hself (forall_right_of_zip fields values hlength ih))⟩
  | rule _ _ _ _ ih => exact ih
  | rules _ values _ _ ih => exact (equal_list _ _).mpr (hself ih)
  | args _ values _ _ ih => exact (equal_list _ _).mpr (hself ih)
  | other _ _ _ _ _ _ ih => exact ih
  | argument name value hname _ ih =>
    have hname := equal_of_isDecoded hnumber name hname
    exact (equal_tuple _ _).mpr (.cons hname (.cons ih .nil))
  | nested _ _ ih => exact ih
  | list values _ ih => exact (equal_list _ _).mpr (hself ih)
  | undefined =>
    unfold Value.equal
    rw [Value.alike]
  | scalar value hvalue => exact equal_of_isDecoded hnumber value hvalue

end Equality

lemma equal_payload (ms values : List Value) (hlength : ms.length = values.length) :
    (payload ms).equal (payload values) = true ↔
      List.Forall₂ (fun m value => m.equal value = true) ms values := by
  by_cases hcount : values.length = 1
  · obtain ⟨value, rfl⟩ := List.length_eq_one_iff.mp hcount
    obtain ⟨m, rfl⟩ := List.length_eq_one_iff.mp hlength
    rw [List.forall₂_cons]
    simp [payload]
  · rw [payload_several values hcount, payload_several ms (by rw [hlength]; exact hcount)]
    exact equal_tuple ms values

section Loading

variable {S : Schema} {strict : Bool} {isNumber : Binary64 → Prop}

lemma loadedForm_node (tag : Value) (fields values : List Value)
    (hfields : S.fields? tag = some fields) (hlength : values.length = fields.length)
    (h : ∀ p ∈ fields.zip values, LoadedForm S isNumber (.field p.1) p.2) :
    LoadedForm S isNumber .tree (.node (.str tag.name) (payload values)) := by
  have ht := mem_types_of_fields? S tag fields hfields
  have hname : S.fields? (.str tag.name) = some fields := (fields?_name S tag).trans hfields
  rcases payload_cases fields values hlength with ⟨field, value, rfl, rfl⟩ | ⟨hcount, htuple⟩
  · exact .single _ field value ht hname (h (field, value) List.mem_cons_self)
  · rw [htuple]
    exact .several _ fields values ht hname hcount hlength h

/-- What a value of a text loads as has the form of its place. -/
lemma loadedForm_of_loadsAs (place : Place) (v w : Value) (h : LoadsAs S place v w)
    (hv : IsDecoded isNumber v) : LoadedForm S isNumber place w := by
  induction h with
  | record entries tag fields values raw _ _ hfields hlength hentry _ ih =>
    apply loadedForm_node tag fields values hfields hlength
    intro p hp
    exact ih p hp (isDecoded_entry entries p.1 (raw p.1) hv (hentry p hp))
  | rule field v w hfield _ ih => exact .rule field w hfield (ih hv)
  | rules field items values hfield hlength _ ih =>
    refine .rules field values hfield (forall_right_of_zip items values hlength ?_)
    exact fun p hp => ih p hp (isDecoded_items _ items hv rfl p.1 (List.of_mem_zip hp).1)
  | args field items values hfield hlength _ ih =>
    refine .args field values hfield (forall_right_of_zip items values hlength ?_)
    exact fun p hp => ih p hp (isDecoded_items _ items hv rfl p.1 (List.of_mem_zip hp).1)
  | other field v w hrule hrules hargs _ ih => exact .other field w hrule hrules hargs (ih hv)
  | argument name v w _ ih =>
    have hitems := isDecoded_items _ [name, v] hv rfl
    exact .argument name w (hitems name (by simp)) (ih (hitems v (by simp)))
  | nested v w _ ih => exact .nested w (ih hv)
  | list items values hlength _ ih =>
    refine .list values (forall_right_of_zip items values hlength ?_)
    exact fun p hp => ih p hp (isDecoded_items _ items hv rfl p.1 (List.of_mem_zip hp).1)
  | empty => exact .undefined
  | undefined => exact .undefined
  | scalar v hscalar htext =>
    refine .scalar v hv ?_ ?_ ?_
    · rintro entries rfl
      cases hscalar
    · rintro items rfl
      cases hscalar
    · exact fun h => htext (eq_str_of_isScalar v _ hscalar h)

lemma hasShortIntegers_entry {limit : Option Nat} (entries : Entries) (field value : Value)
    (h : HasShortIntegers limit (.dict entries)) (hentry : IsEntry entries field value) :
    HasShortIntegers limit value := by
  obtain ⟨name, -, -, hmem⟩ := hentry
  obtain ⟨e, he, heq⟩ := List.mem_map.mp hmem
  rw [← (Prod.mk.inj heq).2]
  exact (((hasShortIntegers_dict_iff entries).mp h) e he).2

lemma hasShortIntegers_payload {limit : Option Nat} (values : List Value)
    (h : ∀ value ∈ values, HasShortIntegers limit value) :
    HasShortIntegers limit (payload values) := by
  unfold payload
  split
  · exact h _ List.mem_cons_self
  · exact (hasShortIntegers_tuple_iff values).mpr h

/-- The integers of what a value loads as are those of the value. -/
lemma hasShortIntegers_of_loadsAs {limit : Option Nat} (place : Place) (v w : Value)
    (h : LoadsAs S place v w) (hv : HasShortIntegers limit v) : HasShortIntegers limit w := by
  have hzip (items values : List Value) (hlength : values.length = items.length)
      (ih : ∀ p ∈ items.zip values, HasShortIntegers limit p.1 → HasShortIntegers limit p.2)
      (hitems : HasShortIntegers limit (.list items)) : HasShortIntegers limit (.list values) := by
    rw [hasShortIntegers_list_iff] at hitems ⊢
    refine forall_right_of_zip items values hlength fun p hp => ih p hp ?_
    exact hitems p.1 (List.of_mem_zip hp).1
  induction h with
  | record entries tag fields values raw _ _ _ hlength hentry _ ih =>
    rw [hasShortIntegers_node_iff]
    refine ⟨hasShortIntegers_str _, hasShortIntegers_payload values
      (forall_right_of_zip fields values hlength fun p hp => ih p hp ?_)⟩
    exact hasShortIntegers_entry entries p.1 (raw p.1) hv (hentry p hp)
  | rules field items values _ hlength _ ih => exact hzip items values hlength ih hv
  | args field items values _ hlength _ ih => exact hzip items values hlength ih hv
  | list items values hlength _ ih => exact hzip items values hlength ih hv
  | argument name v w _ ih =>
    rw [hasShortIntegers_items_iff _ [name, v] rfl, List.forall_mem_cons,
      List.forall_mem_singleton] at hv
    rw [hasShortIntegers_tuple_iff, List.forall_mem_cons, List.forall_mem_singleton]
    exact ⟨hv.1, ih hv.2⟩
  | rule _ _ _ _ _ ih => exact ih hv
  | other _ _ _ _ _ _ _ ih => exact ih hv
  | nested _ _ _ ih => exact ih hv
  | empty => exact hasShortIntegers_undefined
  | undefined => exact hasShortIntegers_undefined
  | scalar => exact hv

/-- What a text holds loads in the form of an operand. -/
theorem loadedForm_of_load (v w : Value) (hv : IsDecoded isNumber v)
    (h : (load S strict v).result = .ok w) : LoadedForm S isNumber .operand w :=
  loadedForm_of_loadsAs .operand v w (loadsAs_of_load v w hv h) hv

lemma hasShortIntegers_of_load {limit : Option Nat} (v w : Value) (hv : IsDecoded isNumber v)
    (hshort : HasShortIntegers limit v) (h : (load S strict v).result = .ok w) :
    HasShortIntegers limit w :=
  hasShortIntegers_of_loadsAs .operand v w (loadsAs_of_load v w hv h) hshort

end Loading

end Rulebook.Proofs
