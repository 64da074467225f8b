import Mathlib
import Rulebook.Proofs.Record.LoadsAs
import Rulebook.Proofs.Record.RoundTrip
import Rulebook.Proofs.Value.Occurrence

/-!
# The canonical form of a record

The node of a record is built as the canonical form of the record: its type in front, then the fields
of the type in the order of the schema, and so on for the records in it. Records in plain lists are
left out here, since they load as nodes and are not built again.
-/

namespace Rulebook.Proofs
open Record

/-! ## Canonical records -/

/-- An argument as a pair with its name as it is. -/
def canonicalArgument (entry : Part Value) : Value :=
  match entry.items with
  | [name, v] => .tuple [name.value, v.made]
  | _ => entry.value

def canonicalField (field : Value) (raw : Part Value) : Value :=
  if field.text? = some "args" then .list (raw.items.map canonicalArgument) else raw.made

/-- What stands under the name of a field. -/
def canonicalEntry (named : List (String × Part Value)) (field : Value) : Value :=
  match named.lookup field.name with
  | some raw => canonicalField field raw
  | none => .undefined

/-- The type in canonical spelling, then the fields of the type in order. Any other entry is left
out. -/
def canonicalRecord (S : Schema) (named : List (String × Part Value)) : Entries :=
  match named.lookup "type" with
  | some tag =>
    (.str "type", .str tag.value.name) ::
      ((S.fields? tag.value).getD []).map fun field => (field, canonicalEntry named field)
  | none => []

def canonicalPart (S : Schema) (v : Value) (items : List (Part Value))
    (entries : List (Value × Part Value)) : Value :=
  match v with
  | .dict [] => .undefined
  | .dict _ => .dict (canonicalRecord S (entries.map fun e => (e.1.name, e.2)))
  | .list _ => .list (items.map Part.made)
  | v => if v.text? = some undefinedText then .undefined else v

/-- Every part of a value with its canonical form. -/
def canonicalParts (S : Schema) : Value → Part Value := Part.of (canonicalPart S)

/-- The canonical form of a value of a text: records as `canonicalRecord` says, the token for no value
in place of an empty mapping and of its text, and everything else as it is. -/
def canonicalForm (S : Schema) (v : Value) : Value := (canonicalParts S v).made

/-- A step down in a record, to where nodes are built: to the value of a field, to a record of `rules`,
and to the value of an argument. -/
inductive Below (S : Schema) : Place × Value → Place × Value → Prop
  | entry (entries : Entries) (tag : Value) (fields : List Value) (field v : Value) :
      ("type", tag) ∈ entries.map (fun e => (e.1.name, e.2)) → S.fields? tag = some fields →
      field ∈ fields → IsEntry entries field v → Below S (.tree, .dict entries) (.field field, v)
  | rule (field v : Value) : field.text? = some "rule" → Below S (.field field, v) (.tree, v)
  | rules (field : Value) (items : List Value) (item : Value) : field.text? = some "rules" →
      item ∈ items → Below S (.field field, .list items) (.tree, item)
  | args (field : Value) (items : List Value) (item : Value) : field.text? = some "args" →
      item ∈ items → Below S (.field field, .list items) (.argument, item)
  | other (field v : Value) : field.text? ≠ some "rule" → field.text? ≠ some "rules" →
      field.text? ≠ some "args" → Below S (.field field, v) (.operand, v)
  | argument (name v : Value) : Below S (.argument, .list [name, v]) (.operand, v)
  | nested (v : Value) : Below S (.operand, v) (.tree, v)

/-- No list that is an operand holds a record, neither as an item nor further inside. -/
def ListsHoldNoRecord (S : Schema) (place : Place) (v : Value) : Prop :=
  ∀ items, Relation.ReflTransGen (Below S) (place, v) (.operand, .list items) →
    ∀ entries, Occurs (.dict entries) (.list items) → entries = []

lemma occurs_isEntry {entries : Entries} {field v : Value} (h : IsEntry entries field v) :
    Occurs v (.dict entries) := by
  obtain ⟨name, -, -, hmem⟩ := h
  obtain ⟨e, he, heq⟩ := List.mem_map.mp hmem
  obtain ⟨-, rfl⟩ := Prod.mk.inj heq
  exact .value entries e he .self

/-- What stands below a value occurs in it. -/
lemma occurs_below {S : Schema} {p q : Place × Value} (h : Below S p q) : Occurs q.2 p.2 := by
  cases h with
  | entry _ _ _ _ _ _ _ _ hentry => exact occurs_isEntry hentry
  | rules _ items item _ hitem | args _ items item _ hitem => exact occurs_list item items item hitem .self
  | argument name v => exact occurs_list v [name, v] v (by simp) .self
  | rule | other | nested => exact .self

lemma occurs_of_reaches {S : Schema} {p q : Place × Value}
    (h : Relation.ReflTransGen (Below S) p q) : Occurs q.2 p.2 := by
  induction h with
  | refl => exact .self
  | tail _ hstep ih => exact occurs_trans (occurs_below hstep) ih

section Form

variable {S : Schema}

lemma listsHoldNoRecord_below {place place' : Place} {v v' : Value}
    (h : ListsHoldNoRecord S place v) (hstep : Below S (place, v) (place', v')) :
    ListsHoldNoRecord S place' v' :=
  fun items hpath => h items (.head hstep hpath)

lemma canonicalForm_list (items : List Value) :
    canonicalForm S (.list items) = .list (items.map (canonicalForm S)) := by
  have hitems : (canonicalParts S (.list items)).items = items.map (canonicalParts S) :=
    Part.items_of _ _ items rfl
  unfold canonicalForm
  rw [canonicalParts, Part.made_of, ← canonicalParts, hitems, canonicalPart, List.map_map]
  rfl

lemma canonicalForm_scalar (v : Value) (h : isScalar v = true) :
    canonicalForm S v = if v.text? = some undefinedText then .undefined else v := by
  cases v with
  | null | bool _ | int _ | float _ | str _ => rfl
  | _ => cases h

/-- The entries of a record under their names, with their canonical forms. -/
def canonicalEntries (S : Schema) (entries : Entries) : List (String × Part Value) :=
  entries.map fun e => (e.1.name, canonicalParts S e.2)

lemma lookup_canonicalEntries (entries : Entries) (hnodup : (entries.map fun e => e.1.name).Nodup)
    (name : String) (v : Value) (h : (name, v) ∈ entries.map fun e => (e.1.name, e.2)) :
    (canonicalEntries S entries).lookup name = some (canonicalParts S v) := by
  obtain ⟨e, he, heq⟩ := List.mem_map.mp h
  obtain ⟨rfl, rfl⟩ := Prod.mk.inj heq
  refine lookup_of_mem _ _ _ ?_ (List.mem_map.mpr ⟨e, he, rfl⟩)
  unfold canonicalEntries
  rw [List.map_map]
  exact hnodup

lemma canonicalForm_record (entries : Entries) (tag : Value) (fields : List Value)
    (hnodup : (entries.map fun e => e.1.name).Nodup)
    (htag : ("type", tag) ∈ entries.map fun e => (e.1.name, e.2))
    (hfields : S.fields? tag = some fields) :
    canonicalForm S (.dict entries) =
      .dict ((.str "type", .str tag.name) ::
        fields.zip (fields.map (canonicalEntry (canonicalEntries S entries)))) := by
  have hentries : (canonicalParts S (.dict entries)).entries.map (fun e => (e.1.name, e.2)) =
      canonicalEntries S entries := by
    have hparts : (canonicalParts S (.dict entries)).entries =
        entries.map fun e => (e.1, canonicalParts S e.2) := Part.ofEntries_eq_map _ entries
    rw [hparts, List.map_map]
    rfl
  have hvalue : (canonicalParts S tag).value = tag := Part.value_of _ tag
  unfold canonicalForm
  rw [canonicalParts, Part.made_of, ← canonicalParts]
  cases entries with
  | nil => cases htag
  | cons e rest =>
    rw [canonicalPart, hentries, canonicalRecord, lookup_canonicalEntries _ hnodup "type" tag htag]
    · dsimp only
      rw [hvalue, hfields, Option.getD_some, List.map_prod_left_eq_zip]
    · simp

lemma canonicalEntry_of_isEntry (entries : Entries)
    (hnodup : (entries.map fun e => e.1.name).Nodup) (field raw : Value)
    (hfield : field.text? = some field.name) (h : IsEntry entries field raw) :
    canonicalEntry (canonicalEntries S entries) field = canonicalField field (canonicalParts S raw) := by
  obtain ⟨name, hname, -, hmem⟩ := h
  obtain rfl := Option.some.inj (hfield.symm.trans hname)
  unfold canonicalEntry
  rw [lookup_canonicalEntries entries hnodup field.name raw hmem]

lemma canonicalField_args (field : Value) (items : List Value) (h : field.text? = some "args") :
    canonicalField field (canonicalParts S (.list items)) =
      .list (items.map fun item => canonicalArgument (canonicalParts S item)) := by
  have hitems : (canonicalParts S (.list items)).items = items.map (canonicalParts S) :=
    Part.items_of _ _ items rfl
  unfold canonicalField
  rw [if_pos h, hitems, List.map_map]
  rfl

lemma canonicalField_other (field v : Value) (h : field.text? ≠ some "args") :
    canonicalField field (canonicalParts S v) = canonicalForm S v := by
  unfold canonicalField
  rw [if_neg h]
  rfl

lemma canonicalArgument_pair (name v : Value) :
    canonicalArgument (canonicalParts S (.list [name, v])) = .tuple [name, canonicalForm S v] := by
  have hname : (canonicalParts S name).value = name := Part.value_of _ name
  change Value.tuple [(canonicalParts S name).value, canonicalForm S v] = _
  rw [hname]

/-! ## What is built from what has been loaded -/

lemma areSettled_iff (items : List Value) :
    areSettled items = true ↔ ∀ item ∈ items, isSettled item = true := by
  induction items with
  | nil => simp [areSettled]
  | cons item rest ih => rw [areSettled, Bool.and_eq_true, ih, List.forall_mem_cons]

lemma isCopied_of_isScalar (v : Value) (h : isScalar v = true)
    (htext : v.text? ≠ some undefinedText) : IsCopied v := by
  cases v with
  | null | bool _ | int _ | float _ | str _ => exact ⟨rfl, bne_iff_ne.mpr htext⟩
  | _ => cases h

/-- Where no record occurs, loading makes the canonical form, and building leaves it alone. -/
lemma canonicalForm_of_noRecord (v w : Value) (h : LoadsAs S .operand v w)
    (hrecords : ∀ entries, Occurs (.dict entries) v → entries = []) :
    w = canonicalForm S v ∧ IsCopied w := by
  generalize hplace : Place.operand = place at h
  induction h with
  | list items values hlength _ ih =>
    have hitems : ∀ p ∈ items.zip values, p.2 = canonicalForm S p.1 ∧ IsCopied p.2 := by
      intro p hp
      apply ih p hp _ hplace
      exact fun entries hoccurs =>
        hrecords entries (occurs_list _ items p.1 (List.of_mem_zip hp).1 hoccurs)
    have hvalues : values = items.map (canonicalForm S) := by
      have hmap := List.map_congr_left fun p hp => (hitems p hp).1
      rw [List.map_snd_zip hlength.le] at hmap
      rw [hmap, ← List.map_fst_zip hlength.ge, List.map_map, List.map_fst_zip hlength.ge]
      rfl
    have hsettled : ∀ value ∈ values, isSettled value = true :=
      forall_right_of_zip items values hlength fun p hp => (hitems p hp).2.2
    exact ⟨by rw [canonicalForm_list, hvalues], rfl, (areSettled_iff values).mpr hsettled⟩
  | nested v w htree =>
    cases htree with
    | record entries _ _ _ _ _ htag =>
      obtain rfl := hrecords entries .self
      cases htag
  | empty => exact ⟨rfl, rfl, rfl⟩
  | undefined => exact ⟨rfl, rfl, rfl⟩
  | scalar v hscalar htext =>
    have hne : v.text? ≠ some undefinedText :=
      fun h => htext (eq_str_of_isScalar v undefinedText hscalar h)
    exact ⟨by rw [canonicalForm_scalar v hscalar, if_neg hne], isCopied_of_isScalar v hscalar hne⟩
  | _ => cases hplace

lemma wellFormed_node (hsingle : SingleFieldsHoldNodes S) (tag : Value) (fields values : List Value)
    (hfields : S.fields? tag = some fields) (hlength : values.length = fields.length)
    (h : ∀ p ∈ fields.zip values, WellFormed S (fun _ => True) IsCopied (.field p.1) p.2) :
    WellFormed S (fun _ => True) IsCopied .tree (.node (.str tag.name) (payload values)) := by
  have ht := mem_types_of_fields? S tag fields hfields
  have hname : S.fields? (.str tag.name) = some fields := (fields?_name S tag).trans hfields
  rcases payload_cases fields values hlength with ⟨field, value, rfl, rfl⟩ | ⟨hcount, htuple⟩
  · have hbare := hsingle tag.name field hname
    exact .single _ field value ht hname (h (field, value) List.mem_cons_self)
      (hbare.imp_right .inl)
  · rw [htuple]
    exact .several _ fields values ht hname hcount hlength h

/-- What a record without records in its lists loads as has the form that building asks for. -/
lemma wellFormed_of_loadsAs (hsingle : SingleFieldsHoldNodes S) (place : Place) (v w : Value)
    (h : LoadsAs S place v w) (hlists : ListsHoldNoRecord S place v) :
    WellFormed S (fun _ => True) IsCopied place w := by
  induction h with
  | record entries tag fields values raw hnodup htag hfields hlength hentry _ ih =>
    apply wellFormed_node hsingle tag fields values hfields hlength
    intro p hp
    exact ih p hp (listsHoldNoRecord_below hlists
      (.entry entries tag fields p.1 (raw p.1) htag hfields (List.of_mem_zip hp).1 (hentry p hp)))
  | rule field v w hfield _ ih =>
    exact .rule field w hfield (ih (listsHoldNoRecord_below hlists (.rule field v hfield)))
  | rules field items values hfield hlength _ ih =>
    refine .rules field values hfield (forall_right_of_zip items values hlength fun p hp => ?_)
    exact ih p hp (listsHoldNoRecord_below hlists
      (.rules field items p.1 hfield (List.of_mem_zip hp).1))
  | args field items values hfield hlength _ ih =>
    refine .args field values hfield (forall_right_of_zip items values hlength fun p hp => ?_)
    exact ih p hp (listsHoldNoRecord_below hlists
      (.args field items p.1 hfield (List.of_mem_zip hp).1))
  | other field v w hrule hrules hargs _ ih =>
    exact .other field w hrule hrules hargs
      (ih (listsHoldNoRecord_below hlists (.other field v hrule hrules hargs)))
  | argument name v w _ ih =>
    exact .argument name w trivial
      (ih (listsHoldNoRecord_below hlists (.argument name v)))
  | nested v w _ ih =>
    exact .nested w (ih (listsHoldNoRecord_below hlists (.nested v)))
  | list items values hlength hitems _ =>
    have hform := canonicalForm_of_noRecord _ _ (.list items values hlength hitems)
      (hlists items .refl)
    exact .plain _ hform.2
  | empty => exact .plain _ ⟨rfl, rfl⟩
  | undefined => exact .plain _ ⟨rfl, rfl⟩
  | scalar v hscalar htext =>
    exact .plain v (isCopied_of_isScalar v hscalar
      fun h => htext (eq_str_of_isScalar v undefinedText hscalar h))

/-- What is built from what a value loads as, at its place. -/
def BuildsAs (S : Schema) : Place → Value → Value → Prop
  | .tree, v, w => w.exportsTree = true ∧ ofNode S w = .ok (canonicalForm S v)
  | .field field, v, w => ∀ type,
      fieldValue type field (built S w) = .ok (canonicalField field (canonicalParts S v))
  | .argument, v, w => argument (built S w) = .ok (canonicalArgument (canonicalParts S v))
  | .operand, v, w => (if w.exportsTree then ofNode S w else .ok w) = .ok (canonicalForm S v)

lemma fieldParts_of_wellFormed (hsingle : SingleFieldsHoldNodes S) (t : String)
    (fields values : List Value) (hfields : S.fields? (.str t) = some fields)
    (hlength : values.length = fields.length)
    (h : ∀ p ∈ fields.zip values, WellFormed S (fun _ => True) IsCopied (.field p.1) p.2) :
    fieldParts t fields (built S (payload values)) = .ok (values.map (built S)) := by
  rcases payload_cases fields values hlength with ⟨field, value, rfl, rfl⟩ | ⟨hcount, -⟩
  · have hbare := hsingle t field hfields
    exact fieldParts_single t field value
      (isWrapped_of_wellFormed field value (h (field, value) List.mem_cons_self)
        (hbare.imp_right .inl))
  · exact fieldParts_several t fields values hcount hlength

lemma buildsAs_record (hsingle : SingleFieldsHoldNodes S) (entries : Entries) (tag : Value)
    (fields values : List Value) (raw : Value → Value)
    (hnodup : (entries.map fun e => e.1.name).Nodup)
    (htag : ("type", tag) ∈ entries.map fun e => (e.1.name, e.2))
    (hfields : S.fields? tag = some fields) (hnames : AreFieldNames fields)
    (hlength : values.length = fields.length)
    (hentry : ∀ p ∈ fields.zip values, IsEntry entries p.1 (raw p.1))
    (hform : ∀ p ∈ fields.zip values, WellFormed S (fun _ => True) IsCopied (.field p.1) p.2)
    (h : ∀ p ∈ fields.zip values, BuildsAs S (.field p.1) (raw p.1) p.2) :
    BuildsAs S .tree (.dict entries) (.node (.str tag.name) (payload values)) := by
  have hname : S.fields? (.str tag.name) = some fields := (fields?_name S tag).trans hfields
  have hvalues : List.Forall₂ (fun p x => fieldValue tag.name p.1 (built S p.2) = .ok x)
      (fields.zip values) (fields.map (canonicalEntry (canonicalEntries S entries))) := by
    refine (mapM_ok _ _ _).mp (mapM_zip _ _ fields values hlength fun p hp => ?_)
    have hfield := hnames.isName p.1 (List.of_mem_zip hp).1
    rw [canonicalEntry_of_isEntry entries hnodup p.1 (raw p.1) hfield (hentry p hp)]
    exact h p hp tag.name
  have hparts := fieldParts_of_wellFormed hsingle tag.name fields values hname hlength hform
  refine ⟨rfl, ?_⟩
  rw [canonicalForm_record entries tag fields hnodup htag hfields]
  exact ofNode_of_fieldValues tag.name fields values _ (name_str_name tag) hname hnames hparts hvalues

/-- The record built from what has been loaded is the canonical form, by induction on how it was
loaded. -/
lemma buildsAs_of_loadsAs (hsingle : SingleFieldsHoldNodes S)
    (hnames : ∀ entry ∈ S.table, AreFieldNames entry.2) (place : Place) (v w : Value)
    (h : LoadsAs S place v w) (hlists : ListsHoldNoRecord S place v) : BuildsAs S place v w := by
  induction h with
  | record entries tag fields values raw hnodup htag hfields hlength hentry hloads ih =>
    have hbelow : ∀ p ∈ fields.zip values, ListsHoldNoRecord S (.field p.1) (raw p.1) :=
      fun p hp => listsHoldNoRecord_below hlists
        (.entry entries tag fields p.1 (raw p.1) htag hfields (List.of_mem_zip hp).1 (hentry p hp))
    exact buildsAs_record hsingle entries tag fields values raw hnodup htag hfields
      (areFieldNames_of_fields? hnames tag fields hfields) hlength hentry
      (fun p hp => wellFormed_of_loadsAs hsingle _ _ _ (hloads p hp) (hbelow p hp))
      fun p hp => ih p hp (hbelow p hp)
  | rule field v w hfield _ ih =>
    intro type
    obtain ⟨-, hbuilt⟩ := ih (listsHoldNoRecord_below hlists (.rule field v hfield))
    rw [fieldValue_rule _ _ _ hfield, made_built, hbuilt,
      canonicalField_other field v (by simp [hfield])]
  | rules field items values hfield hlength _ ih =>
    intro type
    have hitems : values.mapM (ofNode S) = .ok (items.map (canonicalForm S)) := by
      apply mapM_right _ _ _ _ hlength
      intro p hp
      exact (ih p hp (listsHoldNoRecord_below hlists
        (.rules field items p.1 hfield (List.of_mem_zip hp).1))).2
    rw [fieldValue_trees S type field _ values hfield rfl, hitems,
      canonicalField_other field _ (by simp [hfield]), canonicalForm_list]
    rfl
  | args field items values hfield hlength _ ih =>
    intro type
    have hitems : values.mapM (fun value => argument (built S value)) =
        .ok (items.map fun item => canonicalArgument (canonicalParts S item)) := by
      apply mapM_right _ _ _ _ hlength
      intro p hp
      exact ih p hp (listsHoldNoRecord_below hlists
        (.args field items p.1 hfield (List.of_mem_zip hp).1))
    rw [fieldValue_arguments S type field _ values hfield rfl, hitems,
      canonicalField_args field items hfield]
    rfl
  | other field v w hrule hrules hargs _ ih =>
    intro type
    have hbuilt := ih (listsHoldNoRecord_below hlists (.other field v hrule hrules hargs))
    rw [fieldValue_other S _ _ _ hrule hrules fun h => absurd h hargs,
      canonicalField_other field v hargs]
    exact hbuilt
  | argument name v w _ ih =>
    have hbuilt : (if w.exportsTree then ofNode S w else .ok w) = .ok (canonicalForm S v) :=
      ih (listsHoldNoRecord_below hlists (.argument name v))
    change argument _ = _
    rw [canonicalArgument_pair]
    exact argument_tuple S name w _ hbuilt
  | nested v w _ ih =>
    obtain ⟨hexports, hbuilt⟩ := ih (listsHoldNoRecord_below hlists (.nested v))
    exact (if_pos hexports).trans hbuilt
  | list items values hlength hitems _ =>
    have hform := canonicalForm_of_noRecord _ _ (.list items values hlength hitems)
      (hlists items .refl)
    exact congrArg Except.ok hform.1
  | empty => rfl
  | undefined => rfl
  | scalar v hscalar htext =>
    have hne : v.text? ≠ some undefinedText :=
      fun h => htext (eq_str_of_isScalar v undefinedText hscalar h)
    have hexports := (isCopied_of_isScalar v hscalar hne).1
    change (if v.exportsTree then _ else _) = _
    rw [hexports, canonicalForm_scalar v hscalar, if_neg hne]
    rfl

end Form

/-! ## Records -/

/-- A value that has to be a record and loads is one that loads anywhere. -/
lemma load_of_toNode (S : Schema) (strict : Bool) (r n : Value)
    (h : (toNode S strict r).result = .ok n) :
    ∃ entries, r = .dict entries ∧ entries ≠ [] ∧ (load S strict r).result = .ok n := by
  unfold toNode at h
  split at h
  · next hdict =>
    cases r with
    | dict entries =>
      have hentries : (loaded S strict (.dict entries)).entries =
          entries.map fun e => (e.1, loaded S strict e.2) := Part.ofEntries_eq_map _ entries
      have hne : entries ≠ [] := by
        rintro rfl
        cases h
      rw [hentries, ← load_dict S strict entries hne] at h
      exact ⟨entries, rfl, hne, h⟩
    | _ => cases hdict
  · cases h

/-- A record that loads is built again as its canonical form, which loads as the same node without a
warning and so is built as itself. -/
theorem ofNode_toNode (strict : Bool) (r n : Value) (hr : IsDecoded (fun _ => True) r)
    (hlists : ListsHoldNoRecord .rules .tree r) (h : (toNode .rules strict r).result = .ok n) :
    ofNode .rules n = .ok (canonicalForm .rules r) ∧
      ∀ strict', toNode .rules strict' (canonicalForm .rules r) = pure n := by
  obtain ⟨entries, rfl, hne, hload⟩ := load_of_toNode .rules strict r n h
  have htree : LoadsAs .rules .tree (.dict entries) n := by
    cases loadsAs_of_load _ n hr hload with
    | nested _ _ htree => exact htree
    | empty => exact absurd rfl hne
    | scalar _ hscalar => cases hscalar
  have hbuilt := buildsAs_of_loadsAs single_rules areFieldNames_rules _ _ _ htree hlists
  have hform := wellFormed_of_loadsAs single_rules _ _ _ htree hlists
  refine ⟨hbuilt.2, ?_⟩
  intro strict'
  have hcomes := comesBack_of_isCopied types_rules areFieldNames_rules strict' n hform
  obtain ⟨hnode, record, hrecord, -, hback⟩ := hcomes
  obtain rfl := Except.ok.inj (hrecord.symm.trans hbuilt.2)
  exact toNode_of_ofNode .rules strict' n _ hrecord hback hnode

/-- Entries out of order and in other spellings, both ways to write no value, and an entry that the
type does not declare. -/
def looseAnd : Entries :=
  [(.str "Right", .list [.dict []]), (.str "note", .list [.dict [(.str "a", .null)]]),
    (.str " TYPE", .str "AND"), (.str "left", .str "Undefined")]

lemma named_looseAnd : looseAnd.map (fun e => (e.1.name, e.2)) =
    [("right", .list [.dict []]), ("note", .list [.dict [(.str "a", .null)]]),
      ("type", .str "AND"), ("left", .str "Undefined")] := by
  have hright : (Value.str "Right").name = "right" := by decide +kernel
  have hnote : (Value.str "note").name = "note" := by decide +kernel
  have htype : (Value.str " TYPE").name = "type" := by decide +kernel
  have hleft : (Value.str "left").name = "left" := by decide +kernel
  simp [looseAnd, hright, hnote, htype, hleft]

lemma isDecoded_looseAnd : IsDecoded (fun _ => True) (.dict looseAnd) := by
  have hnote : IsDecoded (fun _ => True) (.list [.dict [(.str "a", .null)]]) :=
    .list _ (List.forall_mem_singleton.mpr (.dict _ (by simp) (by simp) (by simp [IsDecoded.null])))
  have hright : IsDecoded (fun _ => True) (.list [.dict []]) :=
    .list _ (List.forall_mem_singleton.mpr isDecoded_noEntries)
  exact .dict _ (by simp [looseAnd]) (by simp [looseAnd])
    (by simp [looseAnd, hnote, hright, IsDecoded.str])

/-- A value without records has no lists of records. -/
lemma listsHoldNoRecord_of_noRecord (S : Schema) (place : Place) (v : Value)
    (h : ∀ entries, Occurs (.dict entries) v → entries = []) : ListsHoldNoRecord S place v := by
  intro items hpath entries hoccurs
  exact h entries (occurs_trans hoccurs (occurs_of_reaches hpath))

/-- The fields of its type are all that matters in a record. -/
lemma listsHoldNoRecord_record (S : Schema) (entries : Entries)
    (h : ∀ tag fields field v, ("type", tag) ∈ entries.map (fun e => (e.1.name, e.2)) →
      S.fields? tag = some fields → field ∈ fields → IsEntry entries field v →
      ListsHoldNoRecord S (.field field) v) : ListsHoldNoRecord S .tree (.dict entries) := by
  intro items hpath
  rcases hpath.cases_head with heq | ⟨next, hstep, hpath⟩
  · cases heq
  · cases hstep with
    | entry _ tag fields field v htag hfields hfield hentry =>
      exact h tag fields field v htag hfields hfield hentry items hpath

lemma listsHoldNoRecord_looseAnd : ListsHoldNoRecord .rules .tree (.dict looseAnd) := by
  apply listsHoldNoRecord_record
  intro tag fields field v htag hfields hfield hentry
  apply listsHoldNoRecord_of_noRecord
  rw [named_looseAnd] at htag
  obtain rfl : tag = .str "AND" := by simpa using htag
  obtain rfl : [.str "left", .str "right"] = fields := Option.some.inj hfields
  obtain ⟨name, hname, -, hmem⟩ := hentry
  rw [named_looseAnd] at hmem
  simp only [List.mem_cons, List.not_mem_nil, or_false] at hfield
  rcases hfield with rfl | rfl
  · obtain rfl := Option.some.inj hname
    obtain rfl : v = .str "Undefined" := by simpa using hmem
    intro entries h
    cases occurs_atom _ _ h rfl (by simp)
  · obtain rfl := Option.some.inj hname
    obtain rfl : v = .list [.dict []] := by simpa using hmem
    intro entries h
    obtain ⟨item, hitem, hoccurs⟩ := occurs_items _ _ [.dict []] rfl h (by simp)
    obtain rfl := List.mem_singleton.mp hitem
    cases hoccurs with
    | self => rfl
    | item _ _ _ hitems => cases hitems
    | key _ e he => cases he
    | value _ e he => cases he

/-- The canonical form has the fields of the type only, in the order of the schema. -/
theorem ofNode_toNode_looseAnd :
    ∃ n, ofNode .rules n = .ok (.dict [(.str "type", .str "and"), (.str "left", .undefined),
        (.str "right", .list [.undefined])]) ∧
      ∀ strict, toNode .rules strict (.dict [(.str "type", .str "and"), (.str "left", .undefined),
        (.str "right", .list [.undefined])]) = pure n := by
  have hload : ∃ n, (toNode .rules false (.dict looseAnd)).result = .ok n :=
    ok_of_isOk (by decide +kernel)
  obtain ⟨n, hn⟩ := hload
  exact ⟨n, ofNode_toNode false (.dict looseAnd) n isDecoded_looseAnd listsHoldNoRecord_looseAnd hn⟩

end Rulebook.Proofs
