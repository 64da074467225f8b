import Mathlib
import Rulebook.Proofs.Json.Decoded
import Rulebook.Proofs.Record.Grammar

/-!
# What a value loads as

Loading as a relation between values at their places. Whatever stands at a place of a record or a list
that a text holds is loaded at the same place of the result: lists keep their length and order, and
the fields of a record come in the order of the schema.
-/

namespace Rulebook.Proofs
open Record

/-- What the value on the left loads as, at its place in a tree. -/
inductive LoadsAs (S : Schema) : Place → Value → Value → Prop
  | record (entries : Entries) (tag : Value) (fields values : List Value) (raw : Value → Value) :
      (entries.map fun e => e.1.name).Nodup →
      ("type", tag) ∈ entries.map (fun e => (e.1.name, e.2)) → S.fields? tag = some fields →
      values.length = fields.length →
      (∀ p ∈ fields.zip values, IsEntry entries p.1 (raw p.1)) →
      (∀ p ∈ fields.zip values, LoadsAs S (.field p.1) (raw p.1) p.2) →
      LoadsAs S .tree (.dict entries) (.node (.str tag.name) (payload values))
  | rule (field v w : Value) : field.text? = some "rule" → LoadsAs S .tree v w →
      LoadsAs S (.field field) v w
  | rules (field : Value) (items values : List Value) : field.text? = some "rules" →
      values.length = items.length → (∀ p ∈ items.zip values, LoadsAs S .tree p.1 p.2) →
      LoadsAs S (.field field) (.list items) (.list values)
  | args (field : Value) (items values : List Value) : field.text? = some "args" →
      values.length = items.length → (∀ p ∈ items.zip values, LoadsAs S .argument p.1 p.2) →
      LoadsAs S (.field field) (.list items) (.list values)
  | other (field v w : Value) : field.text? ≠ some "rule" → field.text? ≠ some "rules" →
      field.text? ≠ some "args" → LoadsAs S .operand v w → LoadsAs S (.field field) v w
  /-- The name of an argument is left as it is. -/
  | argument (name v w : Value) : LoadsAs S .operand v w →
      LoadsAs S .argument (.list [name, v]) (.tuple [name, w])
  | nested (v w : Value) : LoadsAs S .tree v w → LoadsAs S .operand v w
  | list (items values : List Value) : values.length = items.length →
      (∀ p ∈ items.zip values, LoadsAs S .operand p.1 p.2) →
      LoadsAs S .operand (.list items) (.list values)
  | empty : LoadsAs S .operand (.dict []) .undefined
  | undefined : LoadsAs S .operand (.str undefinedText) .undefined
  | scalar (v : Value) : isScalar v = true → v ≠ .str undefinedText → LoadsAs S .operand v v

lemma isEntry_unique (entries : Entries) (hnodup : (entries.map fun e => e.1.name).Nodup)
    (field a b : Value) (ha : IsEntry entries field a) (hb : IsEntry entries field b) : a = b := by
  obtain ⟨name, hname, -, ha⟩ := ha
  obtain ⟨name', hname', -, hb⟩ := hb
  obtain rfl := Option.some.inj (hname.symm.trans hname')
  have hfst : ((entries.map fun e => (e.1.name, e.2)).map Prod.fst).Nodup := by
    rw [List.map_map]
    exact hnodup
  have hlookup := lookup_of_mem _ name a hfst ha
  exact Option.some.inj (hlookup.symm.trans (lookup_of_mem _ name b hfst hb))

section Loading

variable {S : Schema} {strict : Bool} {isNumber : Binary64 → Prop}

/-- A record that loads is the node of its loaded entries, one for each field of its type. -/
lemma load_record_ok (entries : Entries) (tag : Value) (fields : List Value) (w : Value)
    (hnodup : (entries.map fun e => e.1.name).Nodup)
    (htag : ("type", tag) ∈ entries.map fun e => (e.1.name, e.2))
    (hfields : S.fields? tag = some fields) (h : (load S strict (.dict entries)).result = .ok w) :
    ∃ values, w = .node (.str tag.name) (payload values) ∧
      List.Forall₂ (fun field value => ∃ raw, IsEntry entries field raw ∧
        (loadField tag.name field (loaded S strict raw)).result = .ok value) fields values := by
  rw [load_record_eq S strict entries tag fields hnodup htag hfields] at h
  simp only [ok_of_loading_bind, result_pure] at h
  obtain ⟨-, -, values, hvalues, rfl⟩ := h
  rw [loadFields_ok] at hvalues
  refine ⟨values, rfl, hvalues.imp ?_⟩
  rintro field value ⟨raw, hraw, hload⟩
  obtain ⟨x, hentry, rfl⟩ := (given?_eq_some S strict entries hnodup field raw).mp hraw
  exact ⟨x, hentry, hload⟩

/-- The names of the entries are distinct, so the entries that are loaded are the ones at hand. -/
lemma load_record_entries (entries : Entries) (tag : Value) (fields : List Value)
    (raw : Value → Value) (w : Value) (hnodup : (entries.map fun e => e.1.name).Nodup)
    (htag : ("type", tag) ∈ entries.map fun e => (e.1.name, e.2))
    (hfields : S.fields? tag = some fields)
    (hentry : ∀ field ∈ fields, IsEntry entries field (raw field))
    (h : (load S strict (.dict entries)).result = .ok w) :
    ∃ values, w = .node (.str tag.name) (payload values) ∧
      List.Forall₂ (fun field value =>
        (loadField tag.name field (loaded S strict (raw field))).result = .ok value)
        fields values := by
  obtain ⟨values, rfl, hvalues⟩ := load_record_ok entries tag fields w hnodup htag hfields h
  refine ⟨values, rfl, forall₂_imp_mem ?_ hvalues⟩
  rintro field hfield value ⟨x, hx, hload⟩
  rwa [isEntry_unique entries hnodup field x (raw field) hx (hentry field hfield)] at hload

lemma isDecoded_entry (entries : Entries) (field value : Value)
    (h : IsDecoded isNumber (.dict entries)) (hentry : IsEntry entries field value) :
    IsDecoded isNumber value := by
  obtain ⟨name, -, -, hmem⟩ := hentry
  obtain ⟨e, he, heq⟩ := List.mem_map.mp hmem
  rw [← (Prod.mk.inj heq).2]
  cases h with
  | dict _ _ _ hvalues => exact hvalues e he

/-- What it is for a value to load as the relation says, at its place. -/
def LoadsAsSaid (S : Schema) (strict : Bool) : Place → Value → Prop
  | .tree, v => ∀ w, (load S strict v).result = .ok w → LoadsAs S .tree v w
  | .field field, v => ∀ type w, (loadField type field (loaded S strict v)).result = .ok w →
      LoadsAs S (.field field) v w
  | .argument, v => ∀ name value w, v.items? = some [name, value] →
      (load S strict value).result = .ok w → LoadsAs S .argument v (.tuple [name, w])
  | .operand, v => ∀ w, (load S strict v).result = .ok w → LoadsAs S .operand v w

lemma loadsAs_items (place : Place) (items values : List Value)
    (hplace : ∀ item ∈ items, ∀ w, (load S strict item).result = .ok w → LoadsAs S place item w)
    (h : List.Forall₂ (fun item value => (load S strict item).result = .ok value) items values) :
    values.length = items.length ∧ ∀ p ∈ items.zip values, LoadsAs S place p.1 p.2 := by
  have hall := forall₂_imp_mem hplace h
  exact ⟨h.length_eq.symm, fun p hp => (List.forall₂_iff_zip.mp hall).2 hp⟩

lemma loadsAs_record (entries : Entries) (tag : Value) (fields : List Value)
    (raw : Value → Value) (hnodup : (entries.map fun e => e.1.name).Nodup)
    (htag : ("type", tag) ∈ entries.map fun e => (e.1.name, e.2))
    (hfields : S.fields? tag = some fields)
    (hentry : ∀ field ∈ fields, IsEntry entries field (raw field))
    (h : ∀ field ∈ fields, LoadsAsSaid S strict (.field field) (raw field)) :
    LoadsAsSaid S strict .tree (.dict entries) := by
  intro w hw
  obtain ⟨values, rfl, hvalues⟩ :=
    load_record_entries entries tag fields raw w hnodup htag hfields hentry hw
  have hloads : ∀ field ∈ fields, ∀ value,
      (loadField tag.name field (loaded S strict (raw field))).result = .ok value →
      LoadsAs S (.field field) (raw field) value :=
    fun field hfield => h field hfield tag.name
  have hall := List.forall₂_iff_zip.mp (forall₂_imp_mem hloads hvalues)
  refine .record entries tag fields values raw hnodup htag hfields hall.1.symm ?_ ?_
  · exact fun p hp => hentry p.1 (List.of_mem_zip hp).1
  · exact fun p hp => hall.2 hp

lemma loadsAs_scalar (v : Value) (hdict : ∀ entries, v ≠ .dict entries)
    (hlist : ∀ items, v ≠ .list items) (htuple : ∀ items, v ≠ .tuple items)
    (hscalar : isScalar v = true) : LoadsAsSaid S strict .operand v := by
  intro w hw
  rw [load_scalar S strict v hdict hlist htuple, result_pure] at hw
  split at hw
  · next htext =>
    subst hw
    rw [eq_str_of_isScalar v undefinedText hscalar htext]
    exact .undefined
  · next htext =>
    subst hw
    refine .scalar v hscalar ?_
    rintro rfl
    exact htext rfl

lemma loadsAs_args (field : Value) (items : List Value) (hfield : field.text? = some "args")
    (h : ∀ item ∈ items, LoadsAsSaid S strict .argument item) :
    LoadsAsSaid S strict (.field field) (.list items) := by
  intro type w hw
  obtain ⟨values, hvalues, rfl⟩ :=
    (loadField_args_ok S strict type field (.list items) w items hfield rfl).mp hw
  have hargument : ∀ item ∈ items, ∀ value, (∃ name v w, item.items? = some [name, v] ∧
      (load S strict v).result = .ok w ∧ value = .tuple [name, w]) →
      LoadsAs S .argument item value := by
    rintro item hitem _ ⟨name, v, w, hpair, hload, rfl⟩
    exact h item hitem name v w hpair hload
  have hall := List.forall₂_iff_zip.mp (forall₂_imp_mem hargument hvalues)
  exact .args field items values hfield hall.1.symm fun p hp => hall.2 hp

/-- Whatever loads is loaded place by place, by induction on the grammar of what loads. -/
lemma loadsAsSaid (place : Place) (v : Value) (h : Loadable S strict place v)
    (hv : IsDecoded isNumber v) : LoadsAsSaid S strict place v := by
  induction h with
  | scalar v hdict hlist htuple =>
    exact loadsAs_scalar v hdict hlist htuple (isScalar_of_isDecoded v hv hdict hlist)
  | list items _ ih =>
    intro w hw
    obtain ⟨values, hvalues, rfl⟩ := (load_list_ok S strict items w).mp hw
    have hitems := isDecoded_items (.list items) items hv rfl
    obtain ⟨hlength, hall⟩ := loadsAs_items .operand items values
      (fun item hitem => ih item hitem (hitems item hitem)) hvalues
    exact .list items values hlength hall
  | tuple => cases hv
  | empty =>
    intro w hw
    obtain rfl := Except.ok.inj hw
    exact .empty
  | nested v _ ih =>
    intro w hw
    exact .nested v w (ih hv w hw)
  | record entries tag fields raw hnodup htag hfields _ hentry _ ih =>
    apply loadsAs_record entries tag fields raw hnodup htag hfields hentry
    intro field hfield
    exact ih field hfield (isDecoded_entry entries field (raw field) hv (hentry field hfield))
  | node => cases hv
  | rule field v hfield _ ih =>
    intro type w hw
    obtain ⟨hload, -⟩ := (loadField_rule_ok S strict type field v w hfield).mp hw
    exact .rule field v w hfield (ih hv w hload)
  | rules field v items hfield hitems _ ih =>
    rcases hitems with rfl | rfl
    · intro type w hw
      obtain ⟨hload, -⟩ := (loadField_rules_ok S strict type field _ w hfield).mp hw
      obtain ⟨values, hvalues, rfl⟩ := (load_list_ok S strict items w).mp hload
      have hdecoded := isDecoded_items (.list items) items hv rfl
      obtain ⟨hlength, hall⟩ := loadsAs_items .tree items values
        (fun item hitem => ih item hitem (hdecoded item hitem)) hvalues
      exact .rules field items values hfield hlength hall
    · cases hv
  | pair => cases hv
  | args field v items hfield hitems _ ih =>
    have hdecoded := isDecoded_items v items hv hitems
    obtain rfl := eq_list_of_isDecoded v items hv hitems
    exact loadsAs_args field items hfield fun item hitem => ih item hitem (hdecoded item hitem)
  | other field v hrule hrules hargs _ ih =>
    intro type w hw
    rw [loadField_other _ _ _ hargs hrule hrules] at hw
    exact .other field v w hrule hrules hargs (ih hv w hw)
  | argument v name value hpair _ ih =>
    intro name' value' w hpair' hload
    obtain ⟨rfl, rfl⟩ : name = name' ∧ value = value' := by
      simpa using hpair.symm.trans hpair'
    have hdecoded := isDecoded_items v _ hv hpair
    obtain rfl := eq_list_of_isDecoded v _ hv hpair
    exact .argument name value w (ih (hdecoded value (by simp)) w hload)

/-- What a text holds loads as the relation says. -/
theorem loadsAs_of_load (v w : Value) (hv : IsDecoded isNumber v)
    (h : (load S strict v).result = .ok w) : LoadsAs S .operand v w :=
  loadsAsSaid .operand v ((load_isOk_iff S strict v).mp ⟨w, h⟩) hv w h

end Loading

end Rulebook.Proofs
