import Mathlib
import Rulebook.Proofs.Record.Fields

/-!
# What can be loaded

A value loads exactly when it has the form that its place in a tree asks for. A record needs distinct
names, a type of the schema and an entry for every field; in strict mode it has no other entries.
-/

namespace Rulebook.Proofs
open Record

/-- The entry for a field that is not the one for the type, under the name of the field. -/
def IsEntry (entries : Entries) (field value : Value) : Prop :=
  ∃ name, field.text? = some name ∧ name ≠ "type" ∧
    (name, value) ∈ entries.map fun e => (e.1.name, e.2)

/-- A value that loads at its place in a tree. -/
inductive Loadable (S : Schema) (strict : Bool) : Place → Value → Prop
  | scalar (v : Value) : (∀ entries, v ≠ .dict entries) → (∀ items, v ≠ .list items) →
      (∀ items, v ≠ .tuple items) → Loadable S strict .operand v
  | list (items : List Value) : (∀ item ∈ items, Loadable S strict .operand item) →
      Loadable S strict .operand (.list items)
  | tuple (items : List Value) : (∀ item ∈ items, Loadable S strict .operand item) →
      Loadable S strict .operand (.tuple items)
  | empty : Loadable S strict .operand (.dict [])
  | nested (v : Value) : Loadable S strict .tree v → Loadable S strict .operand v
  | record (entries : Entries) (tag : Value) (fields : List Value) (raw : Value → Value) :
      (entries.map fun e => e.1.name).Nodup →
      ("type", tag) ∈ entries.map (fun e => (e.1.name, e.2)) → S.fields? tag = some fields →
      (strict = true → ∀ e ∈ entries, e.1.name = "type" ∨ isDeclared fields e.1.name = true) →
      (∀ field ∈ fields, IsEntry entries field (raw field)) →
      (∀ field ∈ fields, Loadable S strict (.field field) (raw field)) →
      Loadable S strict .tree (.dict entries)
  /-- A node has been loaded already. -/
  | node (tag payload : Value) : Loadable S strict .tree (.node tag payload)
  | rule (field v : Value) : field.text? = some "rule" → Loadable S strict .tree v →
      Loadable S strict (.field field) v
  | rules (field v : Value) (items : List Value) : field.text? = some "rules" →
      v = .list items ∨ v = .tuple items → (∀ item ∈ items, Loadable S strict .tree item) →
      Loadable S strict (.field field) v
  /-- A node is a sequence as well, of which nothing is left to load. -/
  | pair (field tag payload : Value) : field.text? = some "rules" → tag.isNode = true →
      payload.isNode = true → Loadable S strict (.field field) (.node tag payload)
  | args (field v : Value) (items : List Value) : field.text? = some "args" →
      v.items? = some items → (∀ item ∈ items, Loadable S strict .argument item) →
      Loadable S strict (.field field) v
  | other (field v : Value) : field.text? ≠ some "rule" → field.text? ≠ some "rules" →
      field.text? ≠ some "args" → Loadable S strict .operand v → Loadable S strict (.field field) v
  | argument (v name value : Value) : v.items? = some [name, value] →
      Loadable S strict .operand value → Loadable S strict .argument v

section Grammar

variable (S : Schema) (strict : Bool)

/-! ## Records -/

lemma namedEntries_isOk (entries : List (Value × Loaded)) (named result : List (String × Loaded))
    (h : namedEntries entries named = .ok result) (hnamed : (named.map Prod.fst).Nodup) :
    (named.map Prod.fst ++ entries.map fun e => e.1.name).Nodup := by
  induction entries generalizing named with
  | nil => rwa [List.map_nil, List.append_nil]
  | cons e rest ih =>
    obtain ⟨key, value⟩ := e
    rw [namedEntries] at h
    split at h
    · cases h
    · next hlookup =>
      have hlookup : ∀ x, (key.name, x) ∉ named := by simpa using hlookup
      have hfresh : ∀ p ∈ named, key.name ≠ p.1 := by
        intro p hp heq
        exact hlookup p.2 (by rw [heq]; exact hp)
      have hnodup : ((named ++ [(key.name, value)]).map Prod.fst).Nodup := by
        rw [List.map_append, List.map_singleton, List.nodup_append]
        refine ⟨hnamed, List.nodup_singleton _, ?_⟩
        intro a ha b hb heq
        obtain ⟨p, hp, rfl⟩ := List.mem_map.mp ha
        exact hfresh p hp (heq.trans (List.mem_singleton.mp hb)).symm
      simpa using ih _ h hnodup

lemma checkUndeclared_isOk (type : String) (names : List String) :
    (checkUndeclared strict type names).result = .ok () ↔ (strict = true → names = []) := by
  unfold checkUndeclared
  cases names with
  | nil => simp
  | cons first others => cases strict <;> simp [Loading.warn]

lemma loadFields_ok (type : String) (named : List (String × Loaded)) (fields values : List Value) :
    (loadFields type named fields).result = .ok values ↔
      List.Forall₂ (fun field value => ∃ raw, given? named field = some raw ∧
        (loadField type field raw).result = .ok value) fields values := by
  induction fields generalizing values with
  | nil =>
    rw [loadFields, List.forall₂_nil_left_iff, result_pure]
    exact eq_comm
  | cons field rest ih =>
    rw [loadFields, List.forall₂_cons_left_iff]
    by_cases hkey : field.isKey = true
    · rw [if_neg (by simp [hkey])]
      cases hentry : given? named field with
      | none => simp
      | some raw =>
        simp only [ok_of_loading_bind, result_pure]
        constructor
        · rintro ⟨value, hvalue, more, hmore, rfl⟩
          exact ⟨value, more, ⟨raw, rfl, hvalue⟩, (ih more).mp hmore, rfl⟩
        · rintro ⟨value, more, ⟨_, hraw, hvalue⟩, hmore, rfl⟩
          obtain rfl := Option.some.inj hraw
          exact ⟨value, hvalue, more, (ih more).mpr hmore, rfl⟩
    · have hnone : given? named field = none := by
        unfold given?
        cases htext : field.text? with
        | none => rfl
        | some name => exact absurd (isKey_of_text? field name htext) hkey
      rw [if_pos (by simpa using hkey)]
      simp [hnone]

lemma given?_eq_some (entries : Entries) (hnodup : (entries.map fun e => e.1.name).Nodup)
    (field : Value) (raw : Loaded) :
    given? ((loadedEntries S strict entries).filter (·.1 != "type")) field = some raw ↔
      ∃ value, IsEntry entries field value ∧ raw = loaded S strict value := by
  have hnamed := nodup_loadedEntries S strict entries hnodup
  unfold given? IsEntry
  cases htext : field.text? with
  | none => simp
  | some name =>
    dsimp only [Option.bind_some]
    constructor
    · intro h
      obtain ⟨before, after, hsplit, -⟩ := List.lookup_eq_some_iff.mp h
      have hmem : (name, raw) ∈ before ++ (name, raw) :: after := by simp
      rw [← hsplit, List.mem_filter] at hmem
      obtain ⟨e, he, heq⟩ := List.mem_map.mp hmem.1
      obtain ⟨rfl, rfl⟩ := Prod.mk.inj heq
      exact ⟨e.2, ⟨_, rfl, by simpa using hmem.2, List.mem_map.mpr ⟨e, he, rfl⟩⟩, rfl⟩
    · rintro ⟨value, ⟨name', hname, htype, hmem⟩, rfl⟩
      obtain rfl := Option.some.inj hname
      obtain ⟨e, he, heq⟩ := List.mem_map.mp hmem
      obtain ⟨rfl, rfl⟩ := Prod.mk.inj heq
      refine lookup_of_mem _ _ _ ((List.filter_sublist.map Prod.fst).nodup hnamed)
        (List.mem_filter.mpr ⟨List.mem_map.mpr ⟨e, he, rfl⟩, ?_⟩)
      simpa using htype

lemma undeclared_eq_nil (entries : Entries) (fields : List Value) :
    ((((loadedEntries S strict entries).filter (·.1 != "type")).map Prod.fst).filter
        fun name => !isDeclared fields name) = [] ↔
      ∀ e ∈ entries, e.1.name = "type" ∨ isDeclared fields e.1.name = true := by
  rw [List.filter_eq_nil_iff]
  constructor
  · intro h e he
    by_cases htype : e.1.name = "type"
    · exact .inl htype
    · have hmem : (e.1.name, loaded S strict e.2) ∈
          (loadedEntries S strict entries).filter (·.1 != "type") :=
        List.mem_filter.mpr ⟨List.mem_map.mpr ⟨e, he, rfl⟩, by simpa using htype⟩
      exact .inr (by simpa using h e.1.name (List.mem_map.mpr ⟨_, hmem, rfl⟩))
  · intro h name hname
    obtain ⟨p, hp, rfl⟩ := List.mem_map.mp hname
    obtain ⟨hp, htype⟩ := List.mem_filter.mp hp
    obtain ⟨e, he, rfl⟩ := List.mem_map.mp hp
    rcases h e he with h | h
    · simp [h] at htype
    · simp [h]

/-- A record that loads has distinct names and a type of the schema. -/
lemma type_of_load_record (entries : Entries) (hne : entries ≠ []) (w : Value)
    (h : (load S strict (.dict entries)).result = .ok w) :
    (entries.map fun e => e.1.name).Nodup ∧ ∃ tag fields,
      ("type", tag) ∈ entries.map (fun e => (e.1.name, e.2)) ∧ S.fields? tag = some fields := by
  rw [load_dict S strict entries hne] at h
  unfold loadRecord at h
  split at h
  · exact absurd h (result_fail _ _)
  · next named hnamed =>
    have hmap : (entries.map fun e => (e.1, loaded S strict e.2)).map (fun e => e.1.name) =
        entries.map fun e => e.1.name := by
      rw [List.map_map]
      rfl
    have hnodup : (entries.map fun e => e.1.name).Nodup := by
      rw [← hmap]
      exact namedEntries_isOk _ [] _ hnamed List.nodup_nil
    obtain rfl : named = loadedEntries S strict entries := by
      rw [namedEntries_eq _ _ (by rw [hmap]; exact hnodup)] at hnamed
      rw [← Except.ok.inj hnamed, List.map_map]
      rfl
    split at h
    · exact absurd h (result_fail _ _)
    · next tag htag =>
      split at h
      · exact absurd h (result_fail _ _)
      · next fields hfields =>
        obtain ⟨before, after, hsplit, -⟩ := List.lookup_eq_some_iff.mp htag
        have hmem : ("type", tag) ∈ before ++ ("type", tag) :: after := by simp
        rw [← hsplit] at hmem
        obtain ⟨e, he, heq⟩ := List.mem_map.mp hmem
        obtain ⟨hname, rfl⟩ := Prod.mk.inj heq
        rw [value_loaded] at hfields
        exact ⟨hnodup, e.2, fields, List.mem_map.mpr ⟨e, he, by rw [hname]⟩, hfields⟩

/-- A record loads when its names are distinct, its type is one of the schema, nothing is undeclared
in strict mode and the entry of every field loads. -/
lemma load_record_isOk (entries : Entries) (hne : entries ≠ []) :
    (∃ w, (load S strict (.dict entries)).result = .ok w) ↔
      (entries.map fun e => e.1.name).Nodup ∧ ∃ tag fields,
        ("type", tag) ∈ entries.map (fun e => (e.1.name, e.2)) ∧ S.fields? tag = some fields ∧
        (strict = true → ∀ e ∈ entries, e.1.name = "type" ∨ isDeclared fields e.1.name = true) ∧
        ∀ field ∈ fields, ∃ value, IsEntry entries field value ∧
          ∃ v, (loadField tag.name field (loaded S strict value)).result = .ok v := by
  have hparts (tag : Value) (fields : List Value)
      (hnodup : (entries.map fun e => e.1.name).Nodup)
      (htag : ("type", tag) ∈ entries.map fun e => (e.1.name, e.2))
      (hfields : S.fields? tag = some fields) :
      (∃ w, (load S strict (.dict entries)).result = .ok w) ↔
        (strict = true → ∀ e ∈ entries, e.1.name = "type" ∨ isDeclared fields e.1.name = true) ∧
        ∀ field ∈ fields, ∃ value, IsEntry entries field value ∧
          ∃ v, (loadField tag.name field (loaded S strict value)).result = .ok v := by
    rw [load_record_eq S strict entries tag fields hnodup htag hfields]
    have hall : (∃ values, (loadFields tag.name
        ((loadedEntries S strict entries).filter (·.1 != "type")) fields).result = .ok values) ↔
          ∀ field ∈ fields, ∃ value raw, (∃ x, IsEntry entries field x ∧ raw = loaded S strict x) ∧
            (loadField tag.name field raw).result = .ok value := by
      simp only [loadFields_ok, given?_eq_some S strict entries hnodup]
      exact exists_forall₂ fields
    have hcheck := checkUndeclared_isOk strict tag.name
      ((((loadedEntries S strict entries).filter (·.1 != "type")).map Prod.fst).filter
        fun name => !isDeclared fields name)
    rw [undeclared_eq_nil] at hcheck
    simp only [ok_of_loading_bind, result_pure]
    constructor
    · rintro ⟨w, ⟨⟩, hstrict, values, hvalues, -⟩
      refine ⟨hcheck.mp hstrict, fun field hfield => ?_⟩
      obtain ⟨v, raw, ⟨value, hentry, rfl⟩, hv⟩ := hall.mp ⟨values, hvalues⟩ field hfield
      exact ⟨value, hentry, v, hv⟩
    · rintro ⟨hstrict, h⟩
      obtain ⟨values, hvalues⟩ := hall.mpr fun field hfield => by
        obtain ⟨value, hentry, v, hv⟩ := h field hfield
        exact ⟨v, _, ⟨value, hentry, rfl⟩, hv⟩
      exact ⟨_, (), hcheck.mpr hstrict, values, hvalues, rfl⟩
  constructor
  · rintro ⟨w, h⟩
    obtain ⟨hnodup, tag, fields, htag, hfields⟩ := type_of_load_record S strict entries hne w h
    exact ⟨hnodup, tag, fields, htag, hfields, (hparts tag fields hnodup htag hfields).mp ⟨w, h⟩⟩
  · rintro ⟨hnodup, tag, fields, htag, hfields, hrest⟩
    exact (hparts tag fields hnodup htag hfields).mpr hrest

lemma isNode_of_load_record (entries : Entries) (hne : entries ≠ []) (w : Value)
    (h : (load S strict (.dict entries)).result = .ok w) : ∃ t payload, w = .node (.str t) payload := by
  obtain ⟨hnodup, tag, fields, htag, hfields⟩ := type_of_load_record S strict entries hne w h
  rw [load_record_eq S strict entries tag fields hnodup htag hfields] at h
  simp only [ok_of_loading_bind, result_pure] at h
  obtain ⟨-, -, values, -, rfl⟩ := h
  exact ⟨_, _, rfl⟩

/-! ## Arguments -/

lemma loadArguments_ok (type : String) (index : Nat) (items values : List Value) :
    (loadArguments type index (items.map (loaded S strict))).result = .ok values ↔
      List.Forall₂ (fun item v => ∃ name value w, item.items? = some [name, value] ∧
        (load S strict value).result = .ok w ∧ v = .tuple [name, w]) items values := by
  induction items generalizing index values with
  | nil =>
    rw [List.map_nil, loadArguments, List.forall₂_nil_left_iff, result_pure]
    exact eq_comm
  | cons item rest ih =>
    rw [List.map_cons, loadArguments, value_loaded, List.forall₂_cons_left_iff]
    by_cases hpair : ∃ name value, item.items? = some [name, value]
    · obtain ⟨name, value, hpair⟩ := hpair
      rw [hpair, items_loaded S strict item _ hpair]
      simp only [List.map_cons, List.map_nil, made_loaded, value_loaded, ok_of_loading_bind,
        result_pure]
      constructor
      · rintro ⟨w, hw, more, hmore, rfl⟩
        exact ⟨_, more, ⟨name, value, w, rfl, hw, rfl⟩, (ih (index + 1) more).mp hmore, rfl⟩
      · rintro ⟨_, more, ⟨name', value', w, heq, hw, rfl⟩, hmore, rfl⟩
        simp only [Option.some.injEq, List.cons.injEq, and_true] at heq
        obtain ⟨rfl, rfl⟩ := heq
        exact ⟨w, hw, more, (ih (index + 1) more).mpr hmore, rfl⟩
    · constructor
      · intro h
        split at h
        · next items name argument hitems hparts =>
          rw [items_loaded S strict item items hitems] at hparts
          obtain ⟨a, b, rfl, -, -⟩ := map_eq_pair hparts
          exact absurd ⟨a, b, hitems⟩ hpair
        · exact absurd h (result_fail _ _)
      · rintro ⟨_, _, ⟨name, value, _, h, _⟩, _⟩
        exact absurd ⟨name, value, h⟩ hpair

lemma loadField_args_ok (type : String) (field v w : Value) (items : List Value)
    (h : field.text? = some "args") (hitems : v.items? = some items) :
    (loadField type field (loaded S strict v)).result = .ok w ↔
      ∃ values, List.Forall₂ (fun item v => ∃ name value w, item.items? = some [name, value] ∧
        (load S strict value).result = .ok w ∧ v = .tuple [name, w]) items values ∧
        w = .list values := by
  rw [loadField_args _ _ _ items h (by rw [value_loaded, hitems]), items_loaded S strict v items hitems,
    ok_of_loading_bind]
  simp only [loadArguments_ok, result_pure, @eq_comm Value w]

lemma loadField_args_isOk (type : String) (field v : Value) (items : List Value)
    (h : field.text? = some "args") (hitems : v.items? = some items) :
    (∃ w, (loadField type field (loaded S strict v)).result = .ok w) ↔
      ∀ item ∈ items, ∃ name value, item.items? = some [name, value] ∧
        ∃ w, (load S strict value).result = .ok w := by
  simp only [loadField_args_ok S strict type field v _ items h hitems]
  constructor
  · rintro ⟨_, values, hvalues, -⟩ item hitem
    obtain ⟨_, name, value, w, hpair, hw, -⟩ := (exists_forall₂ items).mp ⟨values, hvalues⟩ item hitem
    exact ⟨name, value, hpair, w, hw⟩
  · intro hall
    have hitems : ∀ item ∈ items, ∃ v name value w, item.items? = some [name, value] ∧
        (load S strict value).result = .ok w ∧ v = Value.tuple [name, w] := by
      intro item hitem
      obtain ⟨name, value, hpair, w, hw⟩ := hall item hitem
      exact ⟨_, name, value, w, hpair, hw, rfl⟩
    obtain ⟨values, hvalues⟩ := (exists_forall₂ items).mpr hitems
    exact ⟨_, values, hvalues, rfl⟩

/-! ## Values at their places -/

/-- What it is for a value to load at its place; a tree loads as a node. -/
def Loads : Place → Value → Prop
  | .tree, v => ∃ w, (load S strict v).result = .ok w ∧ w.isNode = true
  | .field field, v => ∀ type, ∃ w, (loadField type field (loaded S strict v)).result = .ok w
  | .argument, v => ∃ name value, v.items? = some [name, value] ∧
      ∃ w, (load S strict value).result = .ok w
  | .operand, v => ∃ w, (load S strict v).result = .ok w

lemma loads_trees (items : List Value) (h : ∀ item ∈ items, Loads S strict .tree item) :
    ∃ values, List.Forall₂ (fun item value => (load S strict item).result = .ok value) items values ∧
      values.all Value.isNode = true := by
  obtain ⟨values, hvalues⟩ := (exists_forall₂ items).mpr h
  refine ⟨values, hvalues.imp fun _ _ hvalue => hvalue.1, ?_⟩
  rw [List.all_eq_true]
  exact forall_right_of_forall₂ (fun _ _ _ hvalue => hvalue.2) hvalues

lemma loads_of_loadable (place : Place) (v : Value) (h : Loadable S strict place v) :
    Loads S strict place v := by
  induction h with
  | scalar v hdict hlist htuple => exact ⟨_, by rw [load_scalar S strict v hdict hlist htuple]; rfl⟩
  | list items _ ih => exact (load_list_isOk S strict items).mpr ih
  | tuple items _ ih =>
    obtain ⟨values, hvalues⟩ := (exists_forall₂ items).mpr ih
    exact ⟨_, (load_tuple_ok S strict items _).mpr ⟨values, hvalues, rfl⟩⟩
  | empty => exact ⟨.undefined, rfl⟩
  | nested v _ ih =>
    obtain ⟨w, hw, -⟩ := ih
    exact ⟨w, hw⟩
  | record entries tag fields raw hnodup htag hfields hstrict hentry _ ih =>
    have hne : entries ≠ [] := by
      rintro rfl
      cases htag
    obtain ⟨w, hw⟩ := (load_record_isOk S strict entries hne).mpr ⟨hnodup, tag, fields, htag, hfields,
      hstrict, fun field hfield => ⟨raw field, hentry field hfield, ih field hfield tag.name⟩⟩
    obtain ⟨t, payload, rfl⟩ := isNode_of_load_record S strict entries hne w hw
    exact ⟨_, hw, rfl⟩
  | node tag payload => exact ⟨_, rfl, rfl⟩
  | rule field v hfield _ ih =>
    intro type
    obtain ⟨w, hw, hnode⟩ := ih
    exact ⟨w, (loadField_rule_ok S strict type field v w hfield).mpr ⟨hw, hnode⟩⟩
  | rules field v items hfield hv _ ih =>
    intro type
    obtain ⟨values, hvalues, hnodes⟩ := loads_trees S strict items ih
    rcases hv with rfl | rfl
    · have hlist := (load_list_ok S strict items _).mpr ⟨values, hvalues, rfl⟩
      exact ⟨_, (loadField_rules_ok S strict type field _ _ hfield).mpr ⟨hlist, hnodes⟩⟩
    · have htuple := (load_tuple_ok S strict items _).mpr ⟨values, hvalues, rfl⟩
      exact ⟨_, (loadField_rules_ok S strict type field _ _ hfield).mpr ⟨htuple, hnodes⟩⟩
  | pair field tag payload hfield htag hpayload =>
    intro type
    have hnodes : isNodeSequence (.node tag payload) = true := by
      simp [isNodeSequence, Value.items?, htag, hpayload]
    exact ⟨_, (loadField_rules_ok S strict type field _ _ hfield).mpr ⟨rfl, hnodes⟩⟩
  | args field v items hfield hitems _ ih =>
    intro type
    exact (loadField_args_isOk S strict type field v items hfield hitems).mpr ih
  | other field v hrule hrules hargs _ ih =>
    intro type
    rw [loadField_other _ _ _ hargs hrule hrules]
    exact ih
  | argument v name value hpair _ ih => exact ⟨name, value, hpair, ih⟩

lemma sizeOf_item_lt (v : Value) (items : List Value) (h : v.items? = some items) (item : Value)
    (hitem : item ∈ items) : sizeOf item < sizeOf v := by
  unfold Value.items? at h
  split at h
  · obtain rfl := Option.some.inj h
    have hlt := List.sizeOf_lt_of_mem hitem
    simp only [Value.list.sizeOf_spec]
    omega
  · obtain rfl := Option.some.inj h
    have hlt := List.sizeOf_lt_of_mem hitem
    simp only [Value.tuple.sizeOf_spec]
    omega
  · obtain rfl := Option.some.inj h
    simp only [Value.node.sizeOf_spec]
    rcases List.mem_cons.mp hitem with rfl | hitem
    · omega
    · obtain rfl := List.mem_singleton.mp hitem
      omega
  · cases h

lemma sizeOf_value_lt (entries : Entries) (e : Value × Value) (he : e ∈ entries) :
    sizeOf e.2 < sizeOf (Value.dict entries) := by
  have hlt := List.sizeOf_lt_of_mem he
  have hpair : sizeOf e = 1 + sizeOf e.1 + sizeOf e.2 := Prod.mk.sizeOf_spec e.1 e.2
  simp only [Value.dict.sizeOf_spec]
  omega

lemma sizeOf_entry_lt (entries : Entries) (field value : Value) (h : IsEntry entries field value) :
    sizeOf value < sizeOf (Value.dict entries) := by
  obtain ⟨name, -, -, hmem⟩ := h
  obtain ⟨e, he, heq⟩ := List.mem_map.mp hmem
  obtain ⟨-, rfl⟩ := Prod.mk.inj heq
  exact sizeOf_value_lt entries e he

/-- An operand that loads as a node is a tree. -/
lemma tree_of_operand (v w : Value) (h : Loadable S strict .operand v)
    (hw : (load S strict v).result = .ok w) (hnode : w.isNode = true) :
    Loadable S strict .tree v := by
  cases h with
  | scalar _ hdict hlist htuple =>
    rw [load_scalar S strict v hdict hlist htuple, result_pure] at hw
    split at hw
    · subst hw
      cases hnode
    · subst hw
      cases v <;> first | exact .node _ _ | cases hnode
  | list items _ =>
    obtain ⟨values, -, rfl⟩ := (load_list_ok S strict items w).mp hw
    cases hnode
  | tuple items _ =>
    obtain ⟨values, -, rfl⟩ := (load_tuple_ok S strict items w).mp hw
    cases hnode
  | empty =>
    obtain rfl := Except.ok.inj hw
    cases hnode
  | nested _ htree => exact htree

lemma trees_of_operands (items values : List Value)
    (hitems : ∀ item ∈ items, Loadable S strict .operand item)
    (hvalues : List.Forall₂ (fun item value => (load S strict item).result = .ok value) items values)
    (hnodes : values.all Value.isNode = true) : ∀ item ∈ items, Loadable S strict .tree item := by
  induction hvalues with
  | nil => simp
  | @cons item value items values hload _ ih =>
    rw [List.all_cons, Bool.and_eq_true] at hnodes
    rw [List.forall_mem_cons] at hitems ⊢
    exact ⟨tree_of_operand S strict item value hitems.1 hload hnodes.1, ih hitems.2 hnodes.2⟩

lemma loadable_rules (field v w : Value) (hfield : field.text? = some "rules")
    (h : Loadable S strict .operand v)
    (hw : (load S strict v).result = .ok w) (hnodes : isNodeSequence w = true) :
    Loadable S strict (.field field) v := by
  have hnode (tag payload : Value) (h : isNodeSequence (.node tag payload) = true) :
      tag.isNode = true ∧ payload.isNode = true := by
    simpa [isNodeSequence, Value.items?] using h
  cases h with
  | scalar _ hdict hlist htuple =>
    rw [load_scalar S strict v hdict hlist htuple, result_pure] at hw
    split at hw
    · subst hw
      cases hnodes
    · subst hw
      cases v with
      | node tag payload =>
        exact .pair field tag payload hfield (hnode tag payload hnodes).1 (hnode tag payload hnodes).2
      | list items => exact absurd rfl (hlist items)
      | tuple items => exact absurd rfl (htuple items)
      | _ => cases hnodes
  | list items hitems =>
    obtain ⟨values, hvalues, rfl⟩ := (load_list_ok S strict items w).mp hw
    exact .rules field _ items hfield (.inl rfl)
      (trees_of_operands S strict items values hitems hvalues hnodes)
  | tuple items hitems =>
    obtain ⟨values, hvalues, rfl⟩ := (load_tuple_ok S strict items w).mp hw
    exact .rules field _ items hfield (.inr rfl)
      (trees_of_operands S strict items values hitems hvalues hnodes)
  | empty =>
    obtain rfl := Except.ok.inj hw
    cases hnodes
  | nested _ htree =>
    cases htree with
    | record entries tag fields raw hnodup htag =>
      have hne : entries ≠ [] := by
        rintro rfl
        cases htag
      obtain ⟨t, payload, rfl⟩ := isNode_of_load_record S strict entries hne w hw
      exact absurd (hnode _ _ hnodes).1 (by simp [Value.isNode])
    | node tag payload =>
      obtain rfl := Except.ok.inj hw
      exact .pair field tag payload hfield (hnode tag payload hnodes).1 (hnode tag payload hnodes).2

lemma loadable_field (type : String) (field v : Value)
    (ih : ∀ u, sizeOf u ≤ sizeOf v → (∃ w, (load S strict u).result = .ok w) →
      Loadable S strict .operand u)
    (h : ∃ w, (loadField type field (loaded S strict v)).result = .ok w) :
    Loadable S strict (.field field) v := by
  have hitems (items : List Value) (hitems : v.items? = some items) (item : Value)
      (hitem : item ∈ items) : sizeOf item ≤ sizeOf v := (sizeOf_item_lt v items hitems item hitem).le
  by_cases hargs : field.text? = some "args"
  · cases hseq : v.items? with
    | none =>
      obtain ⟨w, h⟩ := h
      rw [loadField_args_none _ _ _ hargs (by rw [value_loaded, hseq])] at h
      exact absurd h (result_fail _ _)
    | some items =>
      rw [loadField_args_isOk S strict type field v items hargs hseq] at h
      refine .args field v items hargs hseq ?_
      intro item hitem
      obtain ⟨name, value, hpair, hload⟩ := h item hitem
      have hlt := sizeOf_item_lt item _ hpair value (by simp)
      exact .argument item name value hpair
        (ih value (hlt.le.trans (hitems items hseq item hitem)) hload)
  · obtain ⟨w, h⟩ := h
    by_cases hrule : field.text? = some "rule"
    · obtain ⟨hw, hnode⟩ := (loadField_rule_ok S strict type field v w hrule).mp h
      exact .rule field v hrule (tree_of_operand S strict v w (ih v le_rfl ⟨w, hw⟩) hw hnode)
    · by_cases hrules : field.text? = some "rules"
      · obtain ⟨hw, hnodes⟩ := (loadField_rules_ok S strict type field v w hrules).mp h
        exact loadable_rules S strict field v w hrules (ih v le_rfl ⟨w, hw⟩) hw hnodes
      · rw [loadField_other _ _ _ hargs hrule hrules] at h
        exact .other field v hrule hrules hargs (ih v le_rfl ⟨w, h⟩)

/-- Loading accepts exactly the values of the grammar. -/
theorem load_isOk_iff (v : Value) :
    (∃ w, (load S strict v).result = .ok w) ↔ Loadable S strict .operand v := by
  refine ⟨?_, loads_of_loadable S strict .operand v⟩
  -- By induction on the size: the entry of a field is found by its name, wherever it stands.
  generalize hsize : sizeOf v = n
  induction n using Nat.strong_induction_on generalizing v with
  | _ n ih =>
  intro h
  have hitem (items : List Value) (hitems : v.items? = some items)
      (hall : ∀ item ∈ items, ∃ w, (load S strict item).result = .ok w) :
      ∀ item ∈ items, Loadable S strict .operand item := by
    intro item hitem
    have hlt := sizeOf_item_lt v items hitems item hitem
    exact ih (sizeOf item) (hsize ▸ hlt) item rfl (hall item hitem)
  match v with
  | .list items => exact .list items (hitem items rfl ((load_list_isOk S strict items).mp h))
  | .tuple items =>
    obtain ⟨w, h⟩ := h
    obtain ⟨values, hvalues, -⟩ := (load_tuple_ok S strict items w).mp h
    exact .tuple items (hitem items rfl ((exists_forall₂ items).mp ⟨values, hvalues⟩))
  | .dict [] => exact .empty
  | .dict (e :: rest) =>
    obtain ⟨hnodup, tag, fields, htag, hfields, hstrict, hall⟩ :=
      (load_record_isOk S strict (e :: rest) (by simp)).mp h
    choose! raw hentry hraw using hall
    refine .nested _ (.record _ tag fields raw hnodup htag hfields hstrict hentry ?_)
    intro field hfield
    have hlt := sizeOf_entry_lt _ field (raw field) (hentry field hfield)
    exact loadable_field S strict tag.name field (raw field)
      (fun u hu => ih (sizeOf u) (by omega) u rfl) (hraw field hfield)
  | .null | .bool _ | .int _ | .float _ | .str _ | .bytes _ | .set _ | .timestamp _ | .undefined |
    .node .. | .rule _ | .brokenRule _ | .member _ | .constant _ | .inert =>
    exact .scalar _ (by simp) (by simp) (by simp)

end Grammar

end Rulebook.Proofs
