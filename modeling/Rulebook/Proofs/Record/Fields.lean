import Mathlib
import Rulebook.Record.Build
import Rulebook.Proofs.Outcome
import Rulebook.Proofs.Record.Loading
import Rulebook.Proofs.Schema
import Rulebook.Proofs.Value.Equality

/-!
# Records field by field

A record that holds exactly the fields of its type loads as the node of the values of its fields,
and a node is built as such a record.
-/

namespace Rulebook.Proofs
open Record

/-- Where a value stands in a tree. -/
inductive Place where
  | tree
  | field (name : Value)
  | argument
  | operand

/-- Fields that can stand side by side in a record: texts in canonical spelling, distinct, and none
of them the name of the type entry. -/
structure AreFieldNames (fields : List Value) : Prop where
  isName : ∀ field ∈ fields, field.text? = some field.name
  nodup : (fields.map Value.name).Nodup
  notType : ∀ field ∈ fields, field.name ≠ "type"

lemma areFieldNames_of_fields? {S : Schema} (hS : ∀ entry ∈ S.table, AreFieldNames entry.2)
    (tag : Value) (fields : List Value) (h : S.fields? tag = some fields) :
    AreFieldNames fields :=
  hS _ (mem_table_of_fields? S tag fields h)

/-- A type with a single field holds a node or nodes in it, which no wrapped payload looks like. -/
def SingleFieldsHoldNodes (S : Schema) : Prop :=
  ∀ t field, S.fields? (.str t) = some [field] →
    field.text? = some "rule" ∨ field.text? = some "rules"

/-! ## Loading -/

section Load

variable (S : Schema) (strict : Bool)

lemma namedEntries_eq (entries : List (Value × Loaded)) (named : List (String × Loaded))
    (h : (named.map Prod.fst ++ entries.map fun e => e.1.name).Nodup) :
    namedEntries entries named = .ok (named ++ entries.map fun e => (e.1.name, e.2)) := by
  induction entries generalizing named with
  | nil => rw [namedEntries, List.map_nil, List.append_nil]
  | cons e rest ih =>
    obtain ⟨key, value⟩ := e
    have hfresh : key.name ∉ named.map Prod.fst := by
      intro hmem
      rw [List.map_cons, List.nodup_append] at h
      exact h.2.2 _ hmem _ List.mem_cons_self rfl
    have hlookup : named.lookup key.name = none := by
      rw [List.lookup_eq_none_iff]
      intro p hp
      have hne : key.name ≠ p.1 := fun heq => hfresh (heq ▸ List.mem_map_of_mem hp)
      simpa using hne
    rw [namedEntries, hlookup, if_neg (by simp), ih]
    · rw [List.map_cons, List.append_assoc]
      rfl
    · rw [List.map_append, List.append_assoc]
      exact h

lemma lookup_of_mem {α β : Type} [BEq α] [LawfulBEq α] (table : List (α × β)) (a : α) (b : β)
    (hnodup : (table.map Prod.fst).Nodup) (h : (a, b) ∈ table) : table.lookup a = some b := by
  induction table with
  | nil => cases h
  | cons p rest ih =>
    rw [List.map_cons, List.nodup_cons] at hnodup
    rcases List.mem_cons.mp h with rfl | h
    · exact List.lookup_cons_self
    · have hne : (a == p.1) = false := by
        rw [beq_eq_false_iff_ne]
        rintro rfl
        exact hnodup.1 (List.mem_map.mpr ⟨_, h, rfl⟩)
      rw [List.lookup_cons, hne]
      exact ih hnodup.2 h

/-- The entries of a record under their names, loaded. -/
def loadedEntries (entries : Entries) : List (String × Loaded) :=
  entries.map fun e => (e.1.name, loaded S strict e.2)

lemma names_loadedEntries (entries : Entries) :
    (entries.map fun e => (e.1, loaded S strict e.2)).map (fun e => e.1.name) =
      entries.map fun e => e.1.name := by
  rw [List.map_map]
  rfl

lemma namedEntries_loaded (entries : Entries) (hnodup : (entries.map fun e => e.1.name).Nodup) :
    namedEntries (entries.map fun e => (e.1, loaded S strict e.2)) [] =
      .ok (loadedEntries S strict entries) := by
  rw [namedEntries_eq _ _ (by rw [names_loadedEntries]; exact hnodup), List.map_map]
  rfl

lemma nodup_loadedEntries (entries : Entries) (hnodup : (entries.map fun e => e.1.name).Nodup) :
    ((loadedEntries S strict entries).map Prod.fst).Nodup := by
  unfold loadedEntries
  rw [List.map_map]
  exact hnodup

lemma lookup_loadedEntries (entries : Entries) (hnodup : (entries.map fun e => e.1.name).Nodup)
    (name : String) (v : Value) (h : (name, v) ∈ entries.map fun e => (e.1.name, e.2)) :
    (loadedEntries S strict entries).lookup name = some (loaded S strict v) := by
  obtain ⟨e, he, heq⟩ := List.mem_map.mp h
  obtain ⟨rfl, rfl⟩ := Prod.mk.inj heq
  exact lookup_of_mem _ _ _ (nodup_loadedEntries S strict entries hnodup)
    (List.mem_map.mpr ⟨e, he, rfl⟩)

/-- With distinct names and a type of the schema, what is left to look at are undeclared keys and
fields. -/
lemma load_record_eq (entries : Entries) (tag : Value) (fields : List Value)
    (hnodup : (entries.map fun e => e.1.name).Nodup)
    (htag : ("type", tag) ∈ entries.map fun e => (e.1.name, e.2))
    (hfields : S.fields? tag = some fields) :
    load S strict (.dict entries) =
      (do
        let rest := (loadedEntries S strict entries).filter (·.1 != "type")
        checkUndeclared strict tag.name
          ((rest.map Prod.fst).filter fun name => !isDeclared fields name)
        let values ← loadFields tag.name rest fields
        pure (.node (.str tag.name) (payload values))) := by
  have hne : entries ≠ [] := by
    rintro rfl
    cases htag
  rw [load_dict S strict entries hne]
  unfold loadRecord
  rw [namedEntries_loaded S strict entries hnodup]
  dsimp only
  rw [lookup_loadedEntries S strict entries hnodup "type" tag htag]
  dsimp only
  rw [value_loaded, hfields]

lemma loadFields_eq (type : String) (named : List (String × Loaded)) (fields : List Value)
    (raws : List Loaded) (hkey : ∀ field ∈ fields, field.isKey = true)
    (h : List.Forall₂ (fun field raw => given? named field = some raw) fields raws) :
    loadFields type named fields = Loading.all (List.zipWith (loadField type) fields raws) := by
  induction h with
  | nil => rfl
  | @cons field raw fields raws hentry _ ih =>
    rw [loadFields, hkey field List.mem_cons_self, hentry, List.zipWith_cons_cons, Loading.all,
      ih fun x hx => hkey x (List.mem_cons_of_mem _ hx)]
    rfl

lemma isKey_of_text? (v : Value) (s : String) (h : v.text? = some s) : v.isKey = true := by
  unfold Value.text? at h
  split at h
  · rfl
  · rfl
  · cases h

section Named

variable {fields : List Value} {named : List (String × Loaded)} {tag : Loaded} {raws : List Loaded}

lemma nodup_named {α : Type} {named : List (String × α)} {tag : α} {raws : List α}
    (hnames : AreFieldNames fields) (hlength : raws.length = fields.length)
    (hperm : named.Perm (("type", tag) :: List.zip (fields.map Value.name) raws)) :
    (named.map Prod.fst).Nodup := by
  rw [(hperm.map Prod.fst).nodup_iff, List.map_cons, List.map_fst_zip (by simp [hlength]),
    List.nodup_cons]
  refine ⟨?_, hnames.nodup⟩
  intro hmem
  obtain ⟨field, hfield, heq⟩ := List.mem_map.mp hmem
  exact hnames.notType field hfield heq

lemma undeclared_named (hnames : AreFieldNames fields)
    (hperm : named.Perm (("type", tag) :: List.zip (fields.map Value.name) raws)) :
    (((named.filter (·.1 != "type")).map Prod.fst).filter fun name => !isDeclared fields name) =
      [] := by
  rw [List.filter_eq_nil_iff]
  intro name hname
  obtain ⟨⟨name, raw⟩, hp, rfl⟩ := List.mem_map.mp hname
  obtain ⟨hp, hnotType⟩ := List.mem_filter.mp hp
  rcases List.mem_cons.mp (hperm.mem_iff.mp hp) with heq | hzip
  · obtain ⟨rfl, rfl⟩ := heq
    exact absurd hnotType (by simp)
  · obtain ⟨field, hfield, heq⟩ := List.mem_map.mp (List.of_mem_zip hzip).1
    have hdeclared : isDeclared fields name = true := by
      unfold isDeclared
      rw [List.any_eq_true]
      exact ⟨field, hfield, by rw [hnames.isName field hfield, heq]; exact beq_self_eq_true _⟩
    simp [hdeclared]

lemma given?_named (hnames : AreFieldNames fields) (hlength : raws.length = fields.length)
    (hperm : named.Perm (("type", tag) :: List.zip (fields.map Value.name) raws)) :
    List.Forall₂ (fun field raw => given? (named.filter (·.1 != "type")) field = some raw)
      fields raws := by
  rw [List.forall₂_iff_zip]
  refine ⟨hlength.symm, ?_⟩
  intro field raw hzip
  have hfield := (List.of_mem_zip hzip).1
  have hmem : (field.name, raw) ∈ named := by
    refine hperm.mem_iff.mpr (List.mem_cons_of_mem _ ?_)
    rw [List.zip_map_left]
    exact List.mem_map.mpr ⟨_, hzip, rfl⟩
  unfold given?
  rw [hnames.isName field hfield]
  refine lookup_of_mem _ _ _
    ((List.filter_sublist.map Prod.fst).nodup (nodup_named hnames hlength hperm))
    (List.mem_filter.mpr ⟨hmem, ?_⟩)
  simpa using hnames.notType field hfield

end Named

/-- A record with one entry for its type and one for each field, in any order and with keys in any
spelling, loads as the node of the loaded fields. -/
lemma load_record (t : String) (tag : Value) (fields raws : List Value) (entries : Entries)
    (hfields : S.fields? tag = some fields) (ht : tag.name = t)
    (hnames : AreFieldNames fields) (hlength : raws.length = fields.length)
    (hperm : (entries.map fun e => (e.1.name, e.2)).Perm
      (("type", tag) :: List.zip (fields.map Value.name) raws)) :
    load S strict (.dict entries) =
      (do
        let values ← Loading.all
          (List.zipWith (fun field raw => loadField t field (loaded S strict raw)) fields raws)
        pure (.node (.str t) (payload values))) := by
  have hloaded : (loadedEntries S strict entries).Perm (("type", loaded S strict tag) ::
      List.zip (fields.map Value.name) (raws.map (loaded S strict))) := by
    have hmap := hperm.map fun p => (p.1, loaded S strict p.2)
    rw [List.map_map, List.map_cons] at hmap
    rw [List.zip_map_right]
    exact hmap
  have hlength' : (raws.map (loaded S strict)).length = fields.length := by
    rw [List.length_map, hlength]
  have hnodup := nodup_named hnames hlength hperm
  rw [List.map_map] at hnodup
  have hkeys : ∀ field ∈ fields, field.isKey = true :=
    fun field hfield => isKey_of_text? _ _ (hnames.isName field hfield)
  rw [load_record_eq S strict entries tag fields hnodup
    (hperm.mem_iff.mpr List.mem_cons_self) hfields]
  dsimp only
  rw [ht, undeclared_named hnames hloaded, checkUndeclared, pure_bind,
    loadFields_eq t _ fields _ hkeys (given?_named hnames hlength' hloaded), List.zipWith_map_right]

end Load

/-! ## Building -/

section Build

variable (S : Schema)

/-- Fields with names of their own are added behind a record one after another. -/
lemma addFields_eq (type : String) (fields : List Value) (parts : List Built) (record : Entries)
    (hrecord : ∀ e ∈ record, e.1.text? = some e.1.name)
    (hfields : ∀ field ∈ fields, field.text? = some field.name)
    (hnodup : (record.map (·.1.name) ++ fields.map Value.name).Nodup)
    (hlength : parts.length = fields.length) :
    addFields type (fields.zip parts) record =
      (do
        let values ← (fields.zip parts).mapM fun p => fieldValue type p.1 p.2
        pure (record ++ fields.zip values)) := by
  induction fields generalizing parts record with
  | nil =>
    rw [List.zip_nil_left, addFields, List.mapM_nil, pure_bind, List.zip_nil_left, List.append_nil]
    rfl
  | cons field fields ih =>
    cases parts with
    | nil => simp at hlength
    | cons part parts =>
      have hname := hfields field List.mem_cons_self
      have hfresh : ∀ e ∈ record, e.1.equal field = false := by
        intro e he
        rw [equal_of_text? e.1 field _ (hrecord e he), hname, beq_eq_false_iff_ne]
        intro heq
        exact (List.nodup_append.mp hnodup).2.2 _ (List.mem_map_of_mem he) _ List.mem_cons_self
          (Option.some.inj heq).symm
      rw [List.zip_cons_cons, addFields, List.mapM_cons, bind_assoc]
      congr 1
      funext value
      rw [if_pos (isKey_of_text? _ _ hname), insert_of_fresh record field value hfresh, ih]
      · simp
      · intro e he
        rcases List.mem_append.mp he with he | he
        · exact hrecord e he
        · obtain rfl := List.mem_singleton.mp he
          exact hname
      · exact fun x hx => hfields x (List.mem_cons_of_mem _ hx)
      · simpa using hnodup
      · simpa using hlength

/-- The fields of a record that has been written are keys, and it has a value for each. -/
lemma addFields_eq_ok (type : String) (fields : List Value) (parts : List Built)
    (record record' : Entries) (hlength : parts.length = fields.length)
    (h : addFields type (fields.zip parts) record = .ok record') :
    (∀ field ∈ fields, field.isKey = true) ∧ ∃ values,
      List.Forall₂ (fun p x => fieldValue type p.1 p.2 = .ok x) (fields.zip parts) values ∧
      record' = (fields.zip values).foldl (fun record e => record.insert e.1 e.2) record := by
  induction fields generalizing parts record with
  | nil =>
    obtain rfl := Except.ok.inj h
    exact ⟨by simp, [], .nil, rfl⟩
  | cons field fields ih =>
    obtain ⟨part, parts, rfl⟩ := List.exists_cons_of_length_eq_add_one hlength
    rw [List.zip_cons_cons, addFields] at h
    obtain ⟨x, hx, h⟩ := ok_of_bind h
    split at h
    · next hkey =>
      obtain ⟨hkeys, values, hvalues, rfl⟩ := ih parts _ (by simpa using hlength) h
      exact ⟨List.forall_mem_cons.mpr ⟨hkey, hkeys⟩, x :: values, .cons hx hvalues, rfl⟩
    · cases h

lemma fieldValue_rule (type : String) (field : Value) (part : Built)
    (h : field.text? = some "rule") : fieldValue type field part = part.made := by
  unfold fieldValue
  rw [if_pos h]

lemma fieldValue_rules (type : String) (field : Value) (part : Built)
    (h : field.text? = some "rules") :
    fieldValue type field part =
      match part.value.items? with
      | some _ => (part.items.mapM Part.made).map .list
      | none => .error (.rulesNotSequence type part.value.kind) := by
  unfold fieldValue
  rw [if_neg (by simp [h])]
  exact if_pos h

lemma fieldValue_args (type : String) (field : Value) (part : Built)
    (h : field.text? = some "args") (hitems : part.value.items?.isSome = true) :
    fieldValue type field part = (part.items.mapM argument).map .list := by
  unfold fieldValue
  rw [if_neg (by simp [h]), if_neg (by simp [h]), if_pos ⟨h, hitems⟩]

@[simp] lemma value_built (v : Value) : (built S v).value = v := Part.value_of _ v

lemma made_built (v : Value) : (built S v).made = ofNode S v := rfl

lemma items_built (v : Value) (items : List Value) (h : v.items? = some items) :
    (built S v).items = items.map (built S) := Part.items_of _ v items h

/-- A sequence of trees becomes the list of their records. -/
lemma fieldValue_trees (type : String) (field v : Value) (items : List Value)
    (hfield : field.text? = some "rules") (hitems : v.items? = some items) :
    fieldValue type field (built S v) = (items.mapM (ofNode S)).map .list := by
  rw [fieldValue_rules _ _ _ hfield, value_built, hitems, items_built S v items hitems,
    List.mapM_map]
  rfl

lemma fieldValue_arguments (type : String) (field v : Value) (items : List Value)
    (hfield : field.text? = some "args") (hitems : v.items? = some items) :
    fieldValue type field (built S v) =
      (items.mapM fun item => argument (built S item)).map .list := by
  rw [fieldValue_args _ _ _ hfield (by rw [value_built, hitems]; rfl), items_built S v items hitems,
    List.mapM_map]
  rfl

lemma fieldValue_trees_ok (type : String) (field : Value) (values xs : List Value)
    (hfield : field.text? = some "rules")
    (h : List.Forall₂ (fun v x => ofNode S v = .ok x) values xs) :
    fieldValue type field (built S (.list values)) = .ok (.list xs) := by
  rw [fieldValue_trees S type field _ values hfield rfl, (mapM_ok _ _ _).mpr h]
  rfl

lemma fieldValue_arguments_ok (type : String) (field : Value) (values xs : List Value)
    (hfield : field.text? = some "args")
    (h : List.Forall₂ (fun v x => argument (built S v) = .ok x) values xs) :
    fieldValue type field (built S (.list values)) = .ok (.list xs) := by
  rw [fieldValue_arguments S type field _ values hfield rfl, (mapM_ok _ _ _).mpr h]
  rfl

/-- Any other value becomes a record if it exports a tree, and else stays as it is. -/
lemma fieldValue_other (type : String) (field v : Value) (hrule : field.text? ≠ some "rule")
    (hrules : field.text? ≠ some "rules") (hargs : field.text? = some "args" → v.items? = none) :
    fieldValue type field (built S v) = if v.exportsTree then ofNode S v else .ok v := by
  unfold fieldValue
  rw [value_built, made_built, if_neg hrule, if_neg hrules, if_neg]
  rintro ⟨hfield, hitems⟩
  rw [hargs hfield] at hitems
  cases hitems

/-- In a pair, the value becomes a record if it exports a tree. -/
lemma argument_pair (v name value : Value) (h : v.items? = some [name, value]) :
    argument (built S v) =
      if value.exportsTree then (ofNode S value).map fun record => .tuple [name, record]
      else .ok v := by
  unfold argument
  rw [value_built, h, items_built S v _ h, List.map_cons, List.map_cons, List.map_nil]
  simp only [value_built, made_built]

/-- The name of a pair stays, and its value is written as an operand. -/
lemma argument_tuple (name value x : Value)
    (h : (if value.exportsTree then ofNode S value else .ok value) = .ok x) :
    argument (built S (.tuple [name, value])) = .ok (.tuple [name, x]) := by
  rw [argument_pair S _ name value rfl]
  split at h
  · next hexports =>
    rw [if_pos hexports, h]
    rfl
  · next hexports => rw [if_neg hexports, Except.ok.inj h]

/-- What is no pair stays as it is. -/
lemma argument_other (e : Value) (h : ∀ name value, e.items? ≠ some [name, value]) :
    argument (built S e) = .ok e := by
  unfold argument
  rw [value_built]
  split
  · next items name value hitems hparts =>
    rw [items_built S e items hitems] at hparts
    obtain ⟨a, b, rfl, -, -⟩ := map_eq_pair hparts
    exact absurd hitems (h a b)
  · rfl

/-- The tree of a value: of a rule object the one that it exports. -/
def treeOf : Value → Value
  | .rule ast => ast
  | v => v

/-- The tag and the payload of a value that stands for a node. -/
def nodeParts? (v : Value) : Option (Value × Value) :=
  match (treeOf v).items? with
  | some [tag, payload] => some (tag, payload)
  | _ => none

lemma ofTree_eq_ok (tree record : Value) (h : ofTree S tree (built S tree).items = .ok record) :
    ∃ tag payload, tree.items? = some [tag, payload] ∧
      ofPair S tag (built S payload) = .ok record := by
  unfold ofTree at h
  split at h
  · next items tag payload hitems hparts =>
    rw [items_built S tree items hitems] at hparts
    obtain ⟨a, b, rfl, rfl, rfl⟩ := map_eq_pair hparts
    rw [value_built] at h
    exact ⟨a, b, hitems, h⟩
  · cases h

lemma ofNode_eq_ofTree (v : Value) (hv : ∀ text, v ≠ .brokenRule text) :
    ofNode S v = ofTree S (treeOf v) (built S (treeOf v)).items := by
  cases v with
  | rule ast =>
    have hast : ofNode S (.rule ast) = ofTree S (built S ast).value (built S ast).items := rfl
    rw [hast, value_built]
    rfl
  | brokenRule text => exact absurd rfl (hv text)
  | _ => rfl

/-- What is built is the record of a tag and a payload. -/
lemma ofPair_of_ofNode (v record : Value) (h : ofNode S v = .ok record) :
    ∃ tag payload, nodeParts? v = some (tag, payload) ∧
      ofPair S tag (built S payload) = .ok record := by
  have hv : ∀ text, v ≠ .brokenRule text := by
    rintro text rfl
    cases h
  rw [ofNode_eq_ofTree S v hv] at h
  obtain ⟨tag, payload, hpair, h⟩ := ofTree_eq_ok S (treeOf v) record h
  exact ⟨tag, payload, by unfold nodeParts?; rw [hpair], h⟩

lemma items_of_isWrapped (field payload : Value) (h : isWrapped field payload = true) :
    ∃ inner, payload.items? = some [inner] := by
  unfold isWrapped at h
  split at h
  · exact ⟨_, rfl⟩
  · exact ⟨_, rfl⟩
  · cases h

lemma items_of_fieldParts (type : String) (fields : List Value) (payload : Built)
    (parts : List Built) (hcount : fields.length ≠ 1)
    (h : fieldParts type fields payload = .ok parts) :
    payload.value.items?.isSome = true ∧ payload.items.length = fields.length ∧
      parts = payload.items := by
  unfold fieldParts at h
  split at h
  · exact absurd rfl hcount
  · split at h
    · next hitems =>
      obtain rfl := Except.ok.inj h
      exact ⟨hitems.1, hitems.2, rfl⟩
    · split at h <;> cases h

lemma length_fieldParts (type : String) (fields : List Value) (payload : Value)
    (parts : List Built) (h : fieldParts type fields (built S payload) = .ok parts) :
    parts.length = fields.length := by
  by_cases hcount : fields.length = 1
  · obtain ⟨field, rfl⟩ := List.length_eq_one_iff.mp hcount
    obtain rfl := Except.ok.inj h
    by_cases hwrapped : isWrapped field (built S payload).value = true
    · obtain ⟨inner, hitems⟩ := items_of_isWrapped field _ hwrapped
      rw [value_built] at hitems
      rw [if_pos hwrapped, items_built S payload _ hitems]
      rfl
    · rw [if_neg hwrapped]
      rfl
  · obtain ⟨-, hlength, rfl⟩ := items_of_fieldParts type fields _ parts hcount h
    exact hlength

lemma name_type : (Value.str "type").name = "type" := by decide +kernel

/-- The record of a node has the name of its type in front and then its fields. -/
lemma ofPair_eq (tag payload : Value) (fields : List Value) (hfields : S.fields? tag = some fields)
    (hnames : AreFieldNames fields) :
    ofPair S tag (built S payload) =
      (do
        let parts ← fieldParts tag.name fields (built S payload)
        let values ← (fields.zip parts).mapM fun p => fieldValue tag.name p.1 p.2
        pure (.dict ((.str "type", .str tag.name) :: fields.zip values))) := by
  unfold ofPair
  rw [hfields]
  dsimp only
  cases hparts : fieldParts tag.name fields (built S payload) with
  | error fault => rfl
  | ok parts =>
    have hlength := length_fieldParts S _ _ _ _ hparts
    have hrecord : ∀ e ∈ [(Value.str "type", Value.str tag.name)], e.1.text? = some e.1.name := by
      intro e he
      obtain rfl := List.mem_singleton.mp he
      rw [name_type]
      rfl
    have hnodup : (([(Value.str "type", Value.str tag.name)]).map (·.1.name) ++
        fields.map Value.name).Nodup := by
      rw [List.map_singleton, List.singleton_append, List.nodup_cons, name_type]
      refine ⟨?_, hnames.nodup⟩
      intro hmem
      obtain ⟨field, hfield, heq⟩ := List.mem_map.mp hmem
      exact hnames.notType field hfield heq
    rw [ok_bind, ok_bind, addFields_eq tag.name fields parts _ hrecord hnames.isName hnodup hlength,
      bind_assoc]
    rfl

end Build

/-! ## The schema of rule expressions -/

lemma types_rules : ∀ t ∈ Schema.rules.types, (Value.str t).name = t := by decide +kernel

lemma fields?_rules_str (t : String) (fields : List Value) (ht : t ∈ Schema.rules.types)
    (h : Schema.rules.table.lookup t = some fields) :
    Schema.rules.fields? (.str t) = some fields := by
  unfold Schema.fields?
  rw [types_rules t ht, h]

lemma areFieldNames_rules : ∀ entry ∈ Schema.rules.table, AreFieldNames entry.2 := by
  have hname : ∀ entry ∈ Schema.rules.table, ∀ field ∈ entry.2, field.text? = some field.name := by
    decide +kernel
  have hnodup : ∀ entry ∈ Schema.rules.table, (entry.2.map Value.name).Nodup := by decide +kernel
  have htype : ∀ entry ∈ Schema.rules.table, ∀ field ∈ entry.2, field.name ≠ "type" := by
    decide +kernel
  exact fun entry h => ⟨hname entry h, hnodup entry h, htype entry h⟩

lemma single_rules : SingleFieldsHoldNodes .rules := by
  intro t field h
  have htable : ∀ entry ∈ Schema.rules.table, entry.2.length = 1 → ∀ field ∈ entry.2,
      field.text? = some "rule" ∨ field.text? = some "rules" := by
    decide +kernel
  exact htable _ (mem_table_of_fields? _ _ _ h) rfl field List.mem_cons_self

end Rulebook.Proofs
