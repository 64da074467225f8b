import Mathlib
import Rulebook.Proofs.Record.Faults
import Rulebook.Proofs.Record.LoadedForm
import Rulebook.Proofs.Record.Runs

/-!
# What loading depends on

Two values that tell the same under their declared names load alike: neither the order of the entries
of a record counts, nor the spelling of its keys and of its type, nor an entry that its type does not
declare.
-/

namespace Rulebook.Proofs
open Record

/-- An entry next to others that give a type of the schema, which does not declare it. -/
def IsIgnored (S : Schema) (kept : Entries) (e : Value × Value) : Prop :=
  e.1.name ≠ "type" ∧ ∃ tag fields, ("type", tag) ∈ kept.map (fun e => (e.1.name, e.2)) ∧
    S.fields? tag = some fields ∧ isDeclared fields e.1.name = false

/-- One record is an edit of another: some entries of the one correspond to entries of the other with
keys and types of the same names, in whatever order, and the others are ignored. -/
structure IsEdit (S : Schema) (strict : Bool)
    (entries entries' kept kept' others others' : Entries) : Prop where
  nodup : (entries.map fun e => e.1.name).Nodup
  nodup' : (entries'.map fun e => e.1.name).Nodup
  perm : entries.Perm (kept ++ others)
  perm' : entries'.Perm (kept' ++ others')
  names : kept'.map (fun e => e.1.name) = kept.map fun e => e.1.name
  tags : ∀ p ∈ kept.zip kept', p.1.1.name = "type" → p.2.2.name = p.1.2.name
  ignored : ∀ e ∈ others ++ others', strict = false ∧ IsIgnored S kept e

/-- Two values at one place that differ by edits of records in them. The name of an argument is no
record. -/
inductive SameContent (S : Schema) (strict : Bool) : Place → Value → Value → Prop
  | same (place : Place) (v : Value) : SameContent S strict place v v
  | list (items items' : List Value) : items'.length = items.length →
      (∀ p ∈ items.zip items', SameContent S strict .operand p.1 p.2) →
      SameContent S strict .operand (.list items) (.list items')
  | record (entries entries' kept kept' others others' : Entries) :
      IsEdit S strict entries entries' kept kept' others others' →
      (∀ p ∈ kept.zip kept', p.1.1.name ≠ "type" →
        SameContent S strict (.field (.str p.1.1.name)) p.1.2 p.2.2) →
      SameContent S strict .operand (.dict entries) (.dict entries')
  | args (field : Value) (items items' : List Value) : field.text? = some "args" →
      items'.length = items.length →
      (∀ p ∈ items.zip items', SameContent S strict .argument p.1 p.2) →
      SameContent S strict (.field field) (.list items) (.list items')
  | other (field v v' : Value) : field.text? ≠ some "args" → SameContent S strict .operand v v' →
      SameContent S strict (.field field) v v'
  | argument (name v v' : Value) : SameContent S strict .operand v v' →
      SameContent S strict .argument (.list [name, v]) (.list [name, v'])

/-! ## Outcomes -/

/-- Two runs with the same result, or with faults of the same kind. -/
def SameOutcome {α : Type} (x y : RecordLoading α) : Prop :=
  x.result.mapError RecordFault.kind? = y.result.mapError RecordFault.kind?

lemma sameOutcome_bind {α β : Type} (x y : RecordLoading α) (f g : α → RecordLoading β)
    (hxy : SameOutcome x y) (hfg : ∀ a, SameOutcome (f a) (g a)) :
    SameOutcome (x >>= f) (y >>= g) := by
  obtain ⟨warnings, result⟩ := x
  obtain ⟨warnings', result'⟩ := y
  cases result with
  | error fault =>
    cases result' with
    | error fault' => exact congrArg Except.error (Except.error.inj hxy)
    | ok a => cases hxy
  | ok a =>
    cases result' with
    | error fault => cases hxy
    | ok b =>
      obtain rfl := Except.ok.inj hxy
      exact hfg a

lemma runRelation_sameOutcome :
    RunRelation (fun fault fault' => fault.kind? = fault'.kind?)
      (fun α => SameOutcome (α := α)) where
  sameFault _ := rfl
  ofPure _ _ := rfl
  ofFail _ _ _ h := congrArg Except.error h
  ofBind _ _ := sameOutcome_bind

lemma sameOutcome_checkUndeclared (strict : Bool) (type : String) (names names' : List String)
    (h : strict = true → (names = [] ↔ names' = [])) :
    SameOutcome (checkUndeclared strict type names) (checkUndeclared strict type names') := by
  cases strict with
  | false => cases names <;> cases names' <;> rfl
  | true =>
    have h := h rfl
    cases names with
    | nil =>
      rw [h.mp rfl]
      rfl
    | cons first others =>
      cases names' with
      | nil => cases h.mpr rfl
      | cons first' others' => rfl

/-! ## Edits of a record -/

section Edits

variable {S : Schema} {strict : Bool} {entries entries' kept kept' others others' : Entries}

lemma value_unique (hnodup : (entries.map fun e => e.1.name).Nodup) (name : String) (v w : Value)
    (hv : (name, v) ∈ entries.map fun e => (e.1.name, e.2))
    (hw : (name, w) ∈ entries.map fun e => (e.1.name, e.2)) : v = w := by
  have hnodup : ((entries.map fun e => (e.1.name, e.2)).map Prod.fst).Nodup := by
    rw [List.map_map]
    exact hnodup
  have hlookup := lookup_of_mem _ name v hnodup hv
  exact Option.some.inj (hlookup.symm.trans (lookup_of_mem _ name w hnodup hw))

variable (h : IsEdit S strict entries entries' kept kept' others others')
include h

lemma length_of_isEdit : kept'.length = kept.length := by
  simpa using congrArg List.length h.names

lemma name_of_isEdit (p : (Value × Value) × (Value × Value)) (hp : p ∈ kept.zip kept') :
    p.2.1.name = p.1.1.name := by
  have hnames := h.names
  rw [← List.forall₂_eq_eq_eq, List.forall₂_map_left_iff, List.forall₂_map_right_iff] at hnames
  exact List.forall₂_zip hnames.flip hp

lemma mem_of_zip (p : (Value × Value) × (Value × Value)) (hp : p ∈ kept.zip kept') :
    p.1 ∈ entries ∧ p.2 ∈ entries' := by
  obtain ⟨hleft, hright⟩ := List.of_mem_zip hp
  exact ⟨h.perm.mem_iff.mpr (List.mem_append_left _ hleft),
    h.perm'.mem_iff.mpr (List.mem_append_left _ hright)⟩

/-- Without ignored entries an edit has the same names. -/
lemma names_perm (hothers : others ++ others' = []) :
    (entries.map fun e => e.1.name).Perm (entries'.map fun e => e.1.name) := by
  obtain ⟨rfl, rfl⟩ := List.append_eq_nil_iff.mp hothers
  have hkept := h.perm.map fun e => e.1.name
  have hkept' := h.perm'.map fun e => e.1.name
  rw [List.append_nil] at hkept hkept'
  rw [h.names] at hkept'
  exact hkept.trans hkept'.symm

/-- Both records give their types, of one name, or neither does, and then nothing is ignored. -/
lemma tag_cases :
    (∃ tag tag', ("type", tag) ∈ entries.map (fun e => (e.1.name, e.2)) ∧
      ("type", tag') ∈ entries'.map (fun e => (e.1.name, e.2)) ∧ tag'.name = tag.name) ∨
    "type" ∉ entries.map (fun e => e.1.name) ∧ others ++ others' = [] := by
  by_cases htype : "type" ∈ kept.map fun e => e.1.name
  · obtain ⟨e, he, hname⟩ := List.mem_map.mp htype
    obtain ⟨p, hp, rfl⟩ := exists_zip_left kept kept' (length_of_isEdit h) e he
    obtain ⟨hleft, hright⟩ := mem_of_zip h p hp
    refine .inl ⟨p.1.2, p.2.2, List.mem_map.mpr ⟨p.1, hleft, ?_⟩,
      List.mem_map.mpr ⟨p.2, hright, ?_⟩, h.tags p hp hname⟩
    · rw [hname]
    · rw [name_of_isEdit h p hp, hname]
  · have hothers : others ++ others' = [] := by
      rw [List.eq_nil_iff_forall_not_mem]
      intro e he
      obtain ⟨-, -, tag, -, htag, -⟩ := h.ignored e he
      obtain ⟨e', he', heq⟩ := List.mem_map.mp htag
      exact htype (List.mem_map.mpr ⟨e', he', congrArg Prod.fst heq⟩)
    refine .inr ⟨?_, hothers⟩
    have hperm := h.perm.map fun e => e.1.name
    rw [(List.append_eq_nil_iff.mp hothers).1, List.append_nil] at hperm
    rw [hperm.mem_iff]
    exact htype

/-- A declared field has entries that correspond to each other, or it has none on either side. -/
lemma entry_cases (tag : Value) (fields : List Value)
    (htag : ("type", tag) ∈ entries.map fun e => (e.1.name, e.2))
    (hfields : S.fields? tag = some fields) (field : Value) (hfield : field ∈ fields) :
    (∃ p ∈ kept.zip kept', p.1.1.name ≠ "type" ∧ field.text? = some p.1.1.name ∧
      IsEntry entries field p.1.2 ∧ IsEntry entries' field p.2.2) ∨
    (∀ value, ¬IsEntry entries field value) ∧ ∀ value, ¬IsEntry entries' field value := by
  -- An ignored entry has no declared name, so that every entry of a field is a kept one.
  have hdeclared : ∀ e ∈ others ++ others', field.text? ≠ some e.1.name := by
    intro e he hname
    obtain ⟨-, -, tag', fields', htag', hfields', hnot⟩ := h.ignored e he
    obtain ⟨e', he', heq⟩ := List.mem_map.mp htag'
    have hmem : ("type", tag') ∈ entries.map fun e => (e.1.name, e.2) :=
      List.mem_map.mpr ⟨e', h.perm.mem_iff.mpr (List.mem_append_left _ he'), heq⟩
    obtain rfl := value_unique h.nodup "type" tag' tag hmem htag
    obtain rfl := Option.some.inj (hfields'.symm.trans hfields)
    have hany : isDeclared fields' e.1.name = true :=
      List.any_eq_true.mpr ⟨field, hfield, by simpa using hname⟩
    rw [hnot] at hany
    cases hany
  by_cases hentry : ∃ p ∈ kept.zip kept', p.1.1.name ≠ "type" ∧ field.text? = some p.1.1.name
  · obtain ⟨p, hp, htype, hname⟩ := hentry
    obtain ⟨hleft, hright⟩ := mem_of_zip h p hp
    refine .inl ⟨p, hp, htype, hname, ⟨_, hname, htype, List.mem_map.mpr ⟨_, hleft, rfl⟩⟩,
      ⟨_, hname, htype, List.mem_map.mpr ⟨_, hright, ?_⟩⟩⟩
    rw [name_of_isEdit h p hp]
  · have hkept (e : Value × Value) (he : e ∈ kept) (htype : e.1.name ≠ "type") :
        field.text? ≠ some e.1.name := by
      intro hname
      obtain ⟨p, hp, rfl⟩ := exists_zip_left kept kept' (length_of_isEdit h) e he
      exact hentry ⟨p, hp, htype, hname⟩
    refine .inr ⟨?_, ?_⟩
    · rintro value ⟨name, hname, htype, hmem⟩
      obtain ⟨e, he, heq⟩ := List.mem_map.mp hmem
      obtain ⟨rfl, -⟩ := Prod.mk.inj heq
      rcases List.mem_append.mp (h.perm.mem_iff.mp he) with he | he
      · exact hkept e he htype hname
      · exact hdeclared e (List.mem_append_left _ he) hname
    · rintro value ⟨name, hname, htype, hmem⟩
      obtain ⟨e, he, heq⟩ := List.mem_map.mp hmem
      obtain ⟨rfl, -⟩ := Prod.mk.inj heq
      rcases List.mem_append.mp (h.perm'.mem_iff.mp he) with he | he
      · have hmem' : e.1.name ∈ kept.map fun e => e.1.name := by
          rw [← h.names]
          exact List.mem_map_of_mem he
        obtain ⟨e', he', heq⟩ := List.mem_map.mp hmem'
        exact hkept e' he' (by rw [heq]; exact htype) (by rw [heq]; exact hname)
      · exact hdeclared e (List.mem_append_right _ he) hname

/-- In strict mode an edit has undeclared entries when the record has some. -/
lemma undeclared_of_isEdit (fields : List Value) (hstrict : strict = true) :
    (((loadedEntries S strict entries).filter (·.1 != "type")).map Prod.fst).filter
        (fun name => !isDeclared fields name) = [] ↔
      (((loadedEntries S strict entries').filter (·.1 != "type")).map Prod.fst).filter
        (fun name => !isDeclared fields name) = [] := by
  have hothers : others ++ others' = [] := by
    rw [List.eq_nil_iff_forall_not_mem]
    intro e he
    have hlenient := (h.ignored e he).1
    rw [hstrict] at hlenient
    cases hlenient
  have hperm := names_perm h hothers
  rw [undeclared_eq_nil, undeclared_eq_nil]
  have hnames (entries : Entries) :
      (∀ e ∈ entries, e.1.name = "type" ∨ isDeclared fields e.1.name = true) ↔
        ∀ name ∈ entries.map fun e => e.1.name, name = "type" ∨ isDeclared fields name = true := by
    rw [List.forall_mem_map]
  rw [hnames, hnames]
  exact forall_congr' fun name => imp_congr_left hperm.mem_iff

/-- With types of one name, the two runs on the records are related as those on their fields are. -/
lemma related_record {E : RecordFault → RecordFault → Prop}
    {R : (α : Type) → RecordLoading α → RecordLoading α → Prop} (hR : RunRelation E R)
    (tag tag' : Value) (fields : List Value)
    (htag : ("type", tag) ∈ entries.map fun e => (e.1.name, e.2))
    (htag' : ("type", tag') ∈ entries'.map fun e => (e.1.name, e.2)) (hname : tag'.name = tag.name)
    (hfields : S.fields? tag = some fields)
    (hcheck : ∀ names names', (strict = true → (names = [] ↔ names' = [])) →
      R Unit (checkUndeclared strict tag.name names) (checkUndeclared strict tag.name names'))
    (hsame : ∀ p ∈ kept.zip kept', p.1.1.name ≠ "type" → ∀ type,
      R Value (loadField type (.str p.1.1.name) (loaded S strict p.1.2))
        (loadField type (.str p.1.1.name) (loaded S strict p.2.2))) :
    R Value (load S strict (.dict entries)) (load S strict (.dict entries')) := by
  have hfields' : S.fields? tag' = some fields := by
    unfold Schema.fields? at hfields ⊢
    rw [hname, hfields]
  rw [load_record_eq S strict entries tag fields h.nodup htag hfields,
    load_record_eq S strict entries' tag' fields h.nodup' htag' hfields', hname]
  apply hR.ofBind
  · apply hcheck
    exact undeclared_of_isEdit h fields
  · intro _
    apply hR.ofBind _ _ _ _ _ _ _ fun values => hR.ofPure _ _
    apply related_loadFields hR
    intro field hfield
    rcases entry_cases h tag fields htag hfields field hfield with
      ⟨p, hp, htype, hfieldName, hentry, hentry'⟩ | ⟨hnone, hnone'⟩
    · rw [given?_some S strict entries h.nodup field _ hentry,
        given?_some S strict entries' h.nodup' field _ hentry']
      apply Option.Rel.some
      rw [loadField_congr _ field (.str p.1.1.name) _ hfieldName,
        loadField_congr _ field (.str p.1.1.name) _ hfieldName]
      exact hsame p hp htype tag.name
    · rw [given?_none S strict entries h.nodup field hnone,
        given?_none S strict entries' h.nodup' field hnone']
      exact .none

/-- Records with types of one name load alike where their fields do. -/
lemma sameOutcome_typed (tag tag' : Value)
    (htag : ("type", tag) ∈ entries.map fun e => (e.1.name, e.2))
    (htag' : ("type", tag') ∈ entries'.map fun e => (e.1.name, e.2)) (hname : tag'.name = tag.name)
    (hsame : ∀ p ∈ kept.zip kept', p.1.1.name ≠ "type" → ∀ type,
      SameOutcome (loadField type (.str p.1.1.name) (loaded S strict p.1.2))
        (loadField type (.str p.1.1.name) (loaded S strict p.2.2))) :
    SameOutcome (load S strict (.dict entries)) (load S strict (.dict entries')) := by
  cases hfields : S.fields? tag with
  | none =>
    have hfields' : S.fields? tag' = none := by
      unfold Schema.fields? at hfields ⊢
      rw [hname, hfields]
    have hne {entries : Entries} {tag : Value}
        (htag : ("type", tag) ∈ entries.map fun e => (e.1.name, e.2)) : entries ≠ [] := by
      rintro rfl
      cases htag
    rw [load_dict S strict entries (hne htag), load_dict S strict entries' (hne htag'),
      loadRecord_unknownType S strict entries tag h.nodup htag hfields,
      loadRecord_unknownType S strict entries' tag' h.nodup' htag' hfields']
    rfl
  | some fields =>
    exact related_record h runRelation_sameOutcome tag tag' fields htag htag' hname hfields
      (sameOutcome_checkUndeclared strict tag.name) hsame

/-- Without a type both records are empty, or they fail alike. -/
lemma sameOutcome_untyped (htype : "type" ∉ entries.map fun e => e.1.name)
    (hothers : others ++ others' = []) :
    SameOutcome (load S strict (.dict entries)) (load S strict (.dict entries')) := by
  have hperm := names_perm h hothers
  have htype' : "type" ∉ entries'.map fun e => e.1.name := by
    rw [← hperm.mem_iff]
    exact htype
  have hlength := hperm.length_eq
  rw [List.length_map, List.length_map] at hlength
  by_cases hne : entries = []
  · obtain rfl : entries' = [] := by
      rw [hne] at hlength
      exact List.length_eq_zero_iff.mp hlength.symm
    rw [hne]
    rfl
  · have hne' : entries' ≠ [] := by
      rintro rfl
      exact hne (List.length_eq_zero_iff.mp hlength)
    rw [load_dict S strict entries hne, load_dict S strict entries' hne',
      loadRecord_missingType S strict entries h.nodup htype,
      loadRecord_missingType S strict entries' h.nodup' htype']
    rfl

lemma sameOutcome_record
    (hsame : ∀ p ∈ kept.zip kept', p.1.1.name ≠ "type" → ∀ type,
      SameOutcome (loadField type (.str p.1.1.name) (loaded S strict p.1.2))
        (loadField type (.str p.1.1.name) (loaded S strict p.2.2))) :
    SameOutcome (load S strict (.dict entries)) (load S strict (.dict entries')) := by
  rcases tag_cases h with ⟨tag, tag', htag, htag', hname⟩ | ⟨htype, hothers⟩
  · exact sameOutcome_typed h tag tag' htag htag' hname hsame
  · exact sameOutcome_untyped h htype hothers

end Edits

/-! ## Values in their places -/

section Places

variable {S : Schema} {strict : Bool}

/-- What it is for two values to load alike at their place. -/
def LoadAlike (S : Schema) (strict : Bool) : Place → Value → Value → Prop
  | .tree, _, _ => True
  | .field field, v, v' => ∀ type,
      SameOutcome (loadField type field (loaded S strict v)) (loadField type field (loaded S strict v'))
  | .argument, v, v' => ∀ type index, SameOutcome (loadArgument type index (loaded S strict v))
      (loadArgument type index (loaded S strict v'))
  | .operand, v, v' => SameOutcome (load S strict v) (load S strict v')

lemma loadAlike_of_sameContent (place : Place) (v v' : Value)
    (h : SameContent S strict place v v') : LoadAlike S strict place v v' := by
  -- By induction on how the values differ, where each step of loading keeps the outcomes alike.
  induction h with
  | same place v => cases place <;> first | trivial | exact fun _ => rfl | exact fun _ _ => rfl
  | list items items' hlength _ ih =>
    exact related_list runRelation_sameOutcome S strict strict items items'
      (forall₂_of_zip items items' hlength ih)
  | record entries entries' kept kept' others others' hedit _ ih =>
    exact sameOutcome_record hedit ih
  | args field items items' hfield hlength _ ih =>
    intro type
    apply related_args runRelation_sameOutcome S strict strict type field _ _ items items' hfield rfl rfl
    exact forall₂_of_zip items items' hlength fun p hp index => ih p hp type index
  | other field v v' hfield _ ih =>
    intro type
    exact related_loadField_other runRelation_sameOutcome type field _ _ hfield ih rfl rfl
  | argument name v v' _ ih =>
    intro type index
    exact related_argument runRelation_sameOutcome S strict strict type index _ _ name v v' rfl rfl ih

end Places

/-- Values of the same content load as equal values, or both fail with an error of the same kind. -/
theorem load_of_sameContent (S : Schema)
    (htext : ∀ entry ∈ S.table, ∀ field ∈ entry.2, field.text?.isSome = true) (strict : Bool)
    (r r' : Value) (hr : IsDecoded (· ≠ .nan) r) (h : SameContent S strict .operand r r') :
    (∃ w w', (load S strict r).result = .ok w ∧ (load S strict r').result = .ok w' ∧
      w.equal w' = true) ∨
    ∃ fault fault' kind, (load S strict r).result = .error fault ∧
      (load S strict r').result = .error fault' ∧ fault.kind? = some kind ∧
      fault'.kind? = some kind := by
  have halike : (load S strict r).result.mapError RecordFault.kind? =
      (load S strict r').result.mapError RecordFault.kind? :=
    loadAlike_of_sameContent .operand r r' h
  cases hresult : (load S strict r).result with
  | ok w =>
    rw [hresult] at halike
    cases hresult' : (load S strict r').result with
    | error fault =>
      rw [hresult'] at halike
      cases halike
    | ok w' =>
      rw [hresult'] at halike
      obtain rfl := Except.ok.inj halike
      have hform := loadedForm_of_load r w hr hresult
      exact .inl ⟨w, w, rfl, rfl, equal_of_loadedForm (fun _ hx => hx) .operand w hform⟩
  | error fault =>
    rw [hresult] at halike
    cases hresult' : (load S strict r').result with
    | ok w' =>
      rw [hresult'] at halike
      cases halike
    | error fault' =>
      rw [hresult'] at halike
      have hkind : fault.kind? = fault'.kind? := Except.error.inj halike
      obtain ⟨kind, hfault, -⟩ := load_failsWith S strict htext r fault hresult
      exact .inr ⟨fault, fault', kind, rfl, rfl, hfault, hkind ▸ hfault⟩

def plainSet : Entries := [(.str "type", .str "set"), (.str "rules", .list [])]

/-- An entry that does not load on its own. -/
def note : Value × Value := (.str "note", .list [.dict [(.str "a", .null)]])

def notedSet : Entries := [(.str "Rules", .list []), note, (.str " TYPE", .str "Set")]

def plainNegation : Entries := [(.str "type", .str "negation"), (.str "rule", .dict plainSet)]

def notedNegation : Entries := [(.str "RULE", .dict notedSet), (.str "type", .str "negation")]

lemma isEdit_notedSet : IsEdit .rules false plainSet notedSet plainSet
    [(.str " TYPE", .str "Set"), (.str "Rules", .list [])] [] [note] where
  nodup := by decide +kernel
  nodup' := by decide +kernel
  perm := by rw [List.append_nil]
  perm' :=
    List.perm_append_singleton (Value.str " TYPE", Value.str "Set") [(Value.str "Rules", .list []), note]
  names := by decide +kernel
  tags := by
    simp only [plainSet, List.zip_cons_cons, List.zip_nil_left, List.forall_mem_cons]
    refine ⟨fun _ => by decide +kernel, fun h => ?_, by simp⟩
    exact absurd h (by decide +kernel)
  ignored := by
    intro e he
    obtain rfl := List.mem_singleton.mp he
    refine ⟨rfl, by decide +kernel, .str "set", [.str "rules"], ?_, rfl, by decide +kernel⟩
    exact List.mem_map.mpr ⟨_, List.mem_cons_self, by rw [name_type]⟩

lemma isEdit_notedNegation : IsEdit .rules false plainNegation notedNegation plainNegation
    [(.str "type", .str "negation"), (.str "RULE", .dict notedSet)] [] [] where
  nodup := by decide +kernel
  nodup' := by decide +kernel
  perm := by rw [List.append_nil]
  perm' := .swap _ _ _
  names := by decide +kernel
  tags := by
    simp only [plainNegation, List.zip_cons_cons, List.zip_nil_left, List.forall_mem_cons]
    refine ⟨fun _ => trivial, fun h => ?_, by simp⟩
    exact absurd h (by decide +kernel)
  ignored := by simp

lemma sameContent_notedNegation :
    SameContent .rules false .operand (.dict plainNegation) (.dict notedNegation) := by
  have hset : SameContent .rules false .operand (.dict plainSet) (.dict notedSet) := by
    apply SameContent.record _ _ _ _ _ _ isEdit_notedSet
    simp only [plainSet, List.zip_cons_cons, List.zip_nil_left, List.forall_mem_cons]
    exact ⟨fun h => absurd name_type h, fun _ => .same _ _, by simp⟩
  apply SameContent.record _ _ _ _ _ _ isEdit_notedNegation
  simp only [plainNegation, List.zip_cons_cons, List.zip_nil_left, List.forall_mem_cons]
  refine ⟨fun h => absurd name_type h, fun _ => ?_, by simp⟩
  exact .other _ _ _ (by decide +kernel) hset

/-- Neither the spelling and the order of the entries nor the note counts. -/
theorem load_notedNegation :
    ∃ w w', (load .rules false (.dict plainNegation)).result = .ok w ∧
      (load .rules false (.dict notedNegation)).result = .ok w' ∧ w.equal w' = true := by
  have htext : ∀ entry ∈ Schema.rules.table, ∀ field ∈ entry.2, field.text?.isSome = true := by
    decide
  have hset : IsDecoded (· ≠ .nan) (.dict plainSet) :=
    .dict _ (by simp [plainSet]) (by simp [plainSet])
      (by simp [plainSet, IsDecoded.str, IsDecoded.list])
  have hr : IsDecoded (· ≠ .nan) (.dict plainNegation) :=
    .dict _ (by simp [plainNegation]) (by simp [plainNegation])
      (by simp [plainNegation, IsDecoded.str, hset])
  have hload : ∃ w, (load .rules false (.dict plainNegation)).result = .ok w :=
    ok_of_isOk (by decide +kernel)
  rcases load_of_sameContent .rules htext false _ _ hr sameContent_notedNegation with
    h | ⟨fault, -, -, hfault, -⟩
  · exact h
  · obtain ⟨w, hw⟩ := hload
    cases hw.symm.trans hfault

end Rulebook.Proofs
