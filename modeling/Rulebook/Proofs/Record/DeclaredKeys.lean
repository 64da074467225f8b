import Mathlib
import Rulebook.Proofs.Record.Rebuilding

/-!
# Keys of declared fields

A key of a record counts by its canonical name, while a schema keeps the fields of a type as they
were declared. A record with a key for each field of its type therefore loads field by field when
the type declares all these names in canonical spelling. Any other declared field is never found: its
key is reported as undeclared, and the field as missing although the record carries it.
-/

namespace Rulebook.Proofs
open Record

/-! ## Declarations -/

/-- Fields with names that can be told apart, none of them the name of the type entry. -/
structure AreFields (fields : List Value) : Prop where
  text : ∀ field ∈ fields, field.text?.isSome = true
  nodup : (fields.map Value.name).Nodup
  notType : ∀ field ∈ fields, field.name ≠ "type"

/-- A name is declared when a field is spelled as it is. -/
lemma isDeclared_iff (fields : List Value) (name : String) :
    isDeclared fields name = true ↔ ∃ field ∈ fields, field.text? = some name := by
  unfold isDeclared
  simp

/-- Of fields with distinct names, the one that has a declared name is spelled as its name. -/
lemma text?_of_isDeclared (fields : List Value) (hfields : AreFields fields) (field : Value)
    (hfield : field ∈ fields) (h : isDeclared fields field.name = true) :
    field.text? = some field.name := by
  obtain ⟨field', hfield', htext⟩ := (isDeclared_iff fields field.name).mp h
  have hname : field'.name = field.name := by
    rw [name_of_text? field' _ htext, name_str_name]
  obtain rfl := List.inj_on_of_nodup_map hfields.nodup hfield' hfield hname
  exact htext

lemma allDeclared_iff (fields : List Value) (hfields : AreFields fields) :
    (∀ field ∈ fields, isDeclared fields field.name = true) ↔
      ∀ field ∈ fields, field.text? = some field.name := by
  constructor
  · intro h field hfield
    exact text?_of_isDeclared fields hfields field hfield (h field hfield)
  · intro h field hfield
    exact (isDeclared_iff fields field.name).mpr ⟨field, hfield, h field hfield⟩

/-- If a name is not declared, there is a first field that is not spelled as its name. -/
lemma exists_misspelled (fields : List Value) (hfields : AreFields fields)
    (h : ∃ field ∈ fields, isDeclared fields field.name = false) :
    ∃ before field rest, fields = before ++ field :: rest ∧
      (∀ f ∈ before, f.text? = some f.name) ∧ field.text? ≠ some field.name := by
  rcases forall_or_first fields fun f _ => em (f.text? = some f.name) with hall | hfirst
  · obtain ⟨field, hfield, hfalse⟩ := h
    rw [(allDeclared_iff fields hfields).mpr hall field hfield] at hfalse
    cases hfalse
  · exact hfirst

/-! ## Fields that a record carries -/

/-- What a record has under the name of a field, in any spelling of the key. -/
def carried? (entries : Entries) (field : Value) : Option Value :=
  (entries.find? fun e => e.1.name == field.name).map Prod.snd

lemma carried?_isSome_iff (entries : Entries) (field : Value) :
    (carried? entries field).isSome = true ↔ field.name ∈ entries.map fun e => e.1.name := by
  unfold carried?
  rw [Option.isSome_map, List.find?_isSome, List.mem_map]
  simp only [beq_iff_eq]

section Carried

variable (S : Schema) (strict : Bool) (type : String) (entries : Entries)

/-- Loads fields in order, each from what the record has under its name. A field is missing only if
the record has nothing under its name. -/
def loadCarried : List Value → RecordLoading (List Value)
  | [] => pure []
  | field :: rest =>
    match carried? entries field with
    | none => Loading.fail (.missingField type field)
    | some raw => do
      let value ← loadField type field (loaded S strict raw)
      let values ← loadCarried rest
      pure (value :: values)

variable (hnodup : (entries.map fun e => e.1.name).Nodup)
include hnodup

lemma given?_spelled (field : Value) (htext : field.text? = some field.name)
    (htype : field.name ≠ "type") :
    given? ((loadedEntries S strict entries).filter (·.1 != "type")) field =
      (carried? entries field).map (loaded S strict) := by
  unfold carried?
  cases hfind : entries.find? fun e => e.1.name == field.name with
  | none =>
    apply given?_none S strict entries hnodup
    rintro value ⟨name, hname, -, hmem⟩
    obtain ⟨e, he, heq⟩ := List.mem_map.mp hmem
    obtain ⟨hkey, -⟩ := Prod.mk.inj heq
    obtain rfl := Option.some.inj (htext.symm.trans hname)
    exact List.find?_eq_none.mp hfind e he (beq_iff_eq.mpr hkey)
  | some e =>
    have hkey : e.1.name = field.name := by simpa using List.find?_some hfind
    apply given?_some S strict entries hnodup
    exact ⟨field.name, htext, htype,
      List.mem_map.mpr ⟨e, List.mem_of_find?_eq_some hfind, by rw [hkey]⟩⟩

/-- A field that is not spelled as its name is not found. -/
lemma given?_misspelled (field : Value) (h : field.text? ≠ some field.name) :
    given? ((loadedEntries S strict entries).filter (·.1 != "type")) field = none :=
  given?_none S strict entries hnodup field fun value hvalue =>
    h (name_of_isEntry entries field value hvalue).1

/-- Fields that are spelled as their names, or that the record does not carry, load from what it
carries. -/
lemma loadFields_carried (fields : List Value) (htexts : ∀ field ∈ fields, field.text?.isSome = true)
    (htype : ∀ field ∈ fields, field.name ≠ "type")
    (h : ∀ field ∈ fields, field.text? = some field.name ∨ carried? entries field = none) :
    loadFields type ((loadedEntries S strict entries).filter (·.1 != "type")) fields =
      loadCarried S strict type entries fields := by
  induction fields with
  | nil => rfl
  | cons field rest ih =>
    rw [List.forall_mem_cons] at htexts htype h
    obtain ⟨text, htext⟩ := Option.isSome_iff_exists.mp htexts.1
    have hentry : given? ((loadedEntries S strict entries).filter (·.1 != "type")) field =
        (carried? entries field).map (loaded S strict) := by
      by_cases hspelled : field.text? = some field.name
      · exact given?_spelled S strict entries hnodup field hspelled htype.1
      · rw [given?_misspelled S strict entries hnodup field hspelled,
          h.1.resolve_left hspelled, Option.map_none]
    rw [loadFields, loadCarried, isKey_of_text? field text htext, hentry, ih htexts.2 htype.2 h.2]
    cases carried? entries field with
    | none => rfl
    | some raw => rfl

/-- Loading ends at the first field that is not spelled as its name. -/
lemma loadFields_misspelled (before rest : List Value) (field : Value)
    (htexts : ∀ f ∈ before ++ field :: rest, f.text?.isSome = true)
    (htype : ∀ f ∈ before ++ field :: rest, f.name ≠ "type")
    (hbefore : ∀ f ∈ before, f.text? = some f.name) (hfield : field.text? ≠ some field.name) :
    loadFields type ((loadedEntries S strict entries).filter (·.1 != "type"))
        (before ++ field :: rest) =
      (do
        let _ ← loadCarried S strict type entries before
        Loading.fail (.missingField type field)) := by
  induction before with
  | nil =>
    rw [List.nil_append, List.forall_mem_cons] at htexts
    obtain ⟨text, htext⟩ := Option.isSome_iff_exists.mp htexts.1
    rw [List.nil_append, loadFields, isKey_of_text? field text htext,
      given?_misspelled S strict entries hnodup field hfield, loadCarried, pure_bind]
    rfl
  | cons f before ih =>
    rw [List.cons_append, List.forall_mem_cons] at htexts htype
    rw [List.forall_mem_cons] at hbefore
    rw [List.cons_append, loadFields, isKey_of_text? f _ hbefore.1,
      given?_spelled S strict entries hnodup f hbefore.1 htype.1, loadCarried,
      ih htexts.2 htype.2 hbefore.2]
    cases carried? entries f with
    | none => rfl
    | some raw =>
      simp only [bind_assoc, pure_bind]
      rfl

end Carried

/-! ## Records with the fields of a type -/

/-- A key for the type entry and one for each of some fields, in any order and any spelling. -/
structure HasKeysOf (fields : List Value) (tag : Value) (entries : Entries) : Prop where
  keys : (entries.map fun e => e.1.name).Perm ("type" :: fields.map Value.name)
  tag : ("type", tag) ∈ entries.map fun e => (e.1.name, e.2)

lemma nodup_keys {fields : List Value} {tag : Value} {entries : Entries} (hfields : AreFields fields)
    (hkeys : HasKeysOf fields tag entries) : (entries.map fun e => e.1.name).Nodup := by
  rw [hkeys.keys.nodup_iff, List.nodup_cons]
  refine ⟨?_, hfields.nodup⟩
  intro hmem
  obtain ⟨field, hfield, hname⟩ := List.mem_map.mp hmem
  exact hfields.notType field hfield hname

section Record

variable {S : Schema} {fields declared : List Value} {tag : Value} {entries : Entries}

/-- The keys that a type does not declare are names of fields. -/
lemma mem_undeclared_iff (S : Schema) (strict : Bool) (hfields : AreFields fields)
    (hkeys : HasKeysOf fields tag entries) (name : String) :
    name ∈ (((loadedEntries S strict entries).filter (·.1 != "type")).map Prod.fst).filter
        (fun name => !isDeclared declared name) ↔
      ∃ field ∈ fields, field.name = name ∧ isDeclared declared name = false := by
  have hmem : name ∈ ((loadedEntries S strict entries).filter (·.1 != "type")).map Prod.fst ↔
      name ∈ entries.map (fun e => e.1.name) ∧ name ≠ "type" := by
    unfold loadedEntries
    simp only [List.mem_map, List.mem_filter]
    constructor
    · rintro ⟨_, ⟨⟨e, he, rfl⟩, hne⟩, rfl⟩
      exact ⟨⟨e, he, rfl⟩, by simpa using hne⟩
    · rintro ⟨⟨e, he, rfl⟩, hne⟩
      exact ⟨_, ⟨⟨e, he, rfl⟩, by simpa using hne⟩, rfl⟩
  rw [List.mem_filter, hmem, hkeys.keys.mem_iff, List.mem_cons, List.mem_map]
  constructor
  · rintro ⟨⟨hname | ⟨field, hfield, hname⟩, hne⟩, hundeclared⟩
    · exact absurd hname hne
    · exact ⟨field, hfield, hname, by simpa using hundeclared⟩
  · rintro ⟨field, hfield, rfl, hundeclared⟩
    exact ⟨⟨.inr ⟨field, hfield, rfl⟩, hfields.notType field hfield⟩, by simpa using hundeclared⟩

/-- What is left to do for a record whose type and names are in order. -/
lemma toNode_eq (strict : Bool) (hfields : AreFields fields) (hkeys : HasKeysOf fields tag entries)
    (hdeclared : S.fields? tag = some declared) :
    ∃ undeclared : List String,
      (∀ name, name ∈ undeclared ↔
        ∃ field ∈ fields, field.name = name ∧ isDeclared declared name = false) ∧
      toNode S strict (.dict entries) =
        (do
          checkUndeclared strict tag.name undeclared
          let values ← loadFields tag.name
            ((loadedEntries S strict entries).filter (·.1 != "type")) declared
          pure (.node (.str tag.name) (payload values))) := by
  have hne : entries ≠ [] := by
    rintro rfl
    cases hkeys.tag
  refine ⟨_, mem_undeclared_iff S strict hfields hkeys, ?_⟩
  rw [toNode_eq_load entries hne,
    load_record_eq S strict entries tag declared (nodup_keys hfields hkeys) hkeys.tag hdeclared]

/-- A record whose keys are all declared loads from what it carries. -/
lemma toNode_declared (strict : Bool) (hfields : AreFields fields)
    (hkeys : HasKeysOf fields tag entries) (hdeclared : S.fields? tag = some declared)
    (hAreDeclared : AreFields declared)
    (h : ∀ field ∈ fields, isDeclared declared field.name = true) :
    toNode S strict (.dict entries) =
      (do
        let values ← loadCarried S strict tag.name entries declared
        pure (.node (.str tag.name) (payload values))) := by
  obtain ⟨undeclared, hundeclared, hrun⟩ := toNode_eq strict hfields hkeys hdeclared
  have hnone : undeclared = [] := by
    rw [List.eq_nil_iff_forall_not_mem]
    intro name hname
    obtain ⟨field, hfield, rfl, hfalse⟩ := (hundeclared name).mp hname
    rw [h field hfield] at hfalse
    cases hfalse
  rw [hrun, hnone, checkUndeclared, pure_bind, loadFields_carried S strict tag.name entries
    (nodup_keys hfields hkeys) declared hAreDeclared.text hAreDeclared.notType]
  intro field hfield
  -- a field that the record carries has the name of a key, and every key is declared
  cases hcarried : carried? entries field with
  | none => exact .inr rfl
  | some raw =>
    left
    have hname := (carried?_isSome_iff entries field).mp (by rw [hcarried]; rfl)
    rw [hkeys.keys.mem_iff, List.mem_cons] at hname
    obtain ⟨f, hf, hname⟩ := List.mem_map.mp
      (hname.resolve_left (hAreDeclared.notType field hfield))
    exact text?_of_isDeclared declared hAreDeclared field hfield (hname ▸ h f hf)

/-- Keys that are not declared are reported before any field is loaded. -/
lemma toNode_undeclared (strict : Bool) (hfields : AreFields fields)
    (hkeys : HasKeysOf fields tag entries) (hdeclared : S.fields? tag = some declared)
    (h : ∃ field ∈ fields, isDeclared declared field.name = false) :
    ∃ first others,
      (∀ name, name ∈ first :: others ↔
        ∃ field ∈ fields, field.name = name ∧ isDeclared declared name = false) ∧
      toNode S strict (.dict entries) =
        (do
          checkUndeclared strict tag.name (first :: others)
          let values ← loadFields tag.name
            ((loadedEntries S strict entries).filter (·.1 != "type")) declared
          pure (.node (.str tag.name) (payload values))) := by
  obtain ⟨undeclared, hundeclared, hrun⟩ := toNode_eq strict hfields hkeys hdeclared
  obtain ⟨field, hfield, hfalse⟩ := h
  have hmem : field.name ∈ undeclared := (hundeclared _).mpr ⟨field, hfield, rfl, hfalse⟩
  cases undeclared with
  | nil => cases hmem
  | cons first others => exact ⟨first, others, hundeclared, hrun⟩

end Record

/-- A record with the keys of a type of a table. Where the type declares the name of every key, the
record loads from what it carries and none of its keys is reported. Any other key is reported as
undeclared, and the first field in another than the canonical spelling as missing. Types that share a
name have the fields of one of them. -/
theorem toNode_of_hasKeysOf (table : Entries) (S : Schema) (hS : Schema.ofTable? table = some S)
    (htable : ∀ e ∈ table, ∀ fields, e.2.elements? = some fields → AreFields fields)
    (e : Value × Value) (he : e ∈ table) (fields : List Value)
    (hfields : e.2.elements? = some fields) (tag : Value) (htag : tag.name = e.1.name)
    (entries : Entries) (hkeys : HasKeysOf fields tag entries) (strict : Bool) :
    ∃ declared, S.fields? tag = some declared ∧
      ((table.map fun e => e.1.name).Nodup → declared = fields) ∧
      (declared = fields → ((∀ field ∈ fields, isDeclared declared field.name = true) ↔
        ∀ field ∈ fields, field.text? = some field.name)) ∧
      ((∀ field ∈ fields, isDeclared declared field.name = true) →
        toNode S strict (.dict entries) =
          (do
            let values ← loadCarried S strict tag.name entries declared
            pure (.node (.str tag.name) (payload values)))) ∧
      ((∃ field ∈ fields, isDeclared declared field.name = false) →
        ∃ first others,
          (∀ name, name ∈ first :: others ↔
            ∃ field ∈ fields, field.name = name ∧ isDeclared declared name = false) ∧
          (strict = true →
            toNode S strict (.dict entries) = Loading.fail (.undeclared tag.name first others)) ∧
          (strict = false → ∃ onward : RecordLoading Value,
            toNode S strict (.dict entries) =
              (do
                Loading.warn ⟨first :: others, tag.name⟩
                onward) ∧
            (declared = fields → ∃ before field rest, fields = before ++ field :: rest ∧
              (∀ f ∈ before, f.text? = some f.name) ∧ field.text? ≠ some field.name ∧
              onward =
                (do
                  let _ ← loadCarried S strict tag.name entries before
                  Loading.fail (.missingField tag.name field))))) := by
  have hAreFields := htable e he fields hfields
  obtain ⟨e', he', -, declared, helements, hlookup⟩ := fields?_of_mem table S hS e he
  have hAreDeclared := htable e' he' declared helements
  have hdeclared : S.fields? tag = some declared := by
    unfold Schema.fields? at hlookup ⊢
    rw [htag, hlookup]
  refine ⟨declared, hdeclared, ?_, ?_, toNode_declared strict hAreFields hkeys hdeclared hAreDeclared,
    ?_⟩
  · intro htypes
    have hown := fields?_of_nodup table S hS htypes e he
    rw [hlookup, hfields] at hown
    exact Option.some.inj hown
  · rintro rfl
    exact allDeclared_iff declared hAreFields
  · intro h
    obtain ⟨first, others, hundeclared, hrun⟩ :=
      toNode_undeclared strict hAreFields hkeys hdeclared h
    refine ⟨first, others, hundeclared, ?_, ?_⟩
    · rintro rfl
      rw [hrun]
      rfl
    · rintro rfl
      refine ⟨_, hrun, ?_⟩
      rintro rfl
      obtain ⟨before, field, rest, hsplit, hbefore, hfield⟩ :=
        exists_misspelled declared hAreFields h
      refine ⟨before, field, rest, hsplit, hbefore, hfield, ?_⟩
      rw [hsplit, loadFields_misspelled S false tag.name entries (nodup_keys hAreFields hkeys) before
        rest field (hsplit ▸ hAreFields.text) (hsplit ▸ hAreFields.notType) hbefore hfield,
        bind_assoc]
      rfl

/-! ## A field with a capital letter -/

/-- A table of one type, where one of two fields is declared with a capital letter. -/
def capitalTable : Entries := [(.str "box", .tuple [.str "size", .str "Value"])]

def capitalSchema : Schema := ⟨[("box", [.str "size", .str "Value"])]⟩

/-- A box with its fields under the names that the table declares. -/
def capitalBox : Entries := [(.str "type", .str "box"), (.str "Value", .int 1), (.str "size", .int 2)]

lemma ofTable?_capitalTable : Schema.ofTable? capitalTable = some capitalSchema := rfl

lemma hasKeysOf_capitalBox : HasKeysOf [.str "size", .str "Value"] (.str "box") capitalBox := by
  refine ⟨?_, List.mem_cons_self⟩
  decide +kernel

/-- The key of the field is reported as undeclared, and the field as missing. -/
theorem not_toNode_capitalBox :
    Schema.ofTable? capitalTable = some capitalSchema ∧
      HasKeysOf [.str "size", .str "Value"] (.str "box") capitalBox ∧
      toNode capitalSchema true (.dict capitalBox) = Loading.fail (.undeclared "box" "value" []) ∧
      toNode capitalSchema false (.dict capitalBox) =
        ⟨[⟨["value"], "box"⟩], .error (.missingField "box" (.str "Value"))⟩ :=
  ⟨ofTable?_capitalTable, hasKeysOf_capitalBox, rfl, rfl⟩

/-- Of the keys of the box, the one for the field with a capital letter is reported. -/
theorem toNode_of_hasKeysOf_capitalBox :
    Schema.ofTable? capitalTable = some capitalSchema ∧
      HasKeysOf [.str "size", .str "Value"] (.str "box") capitalBox ∧
      ∃ first others, (∀ name, name ∈ first :: others → name = "value") ∧
        toNode capitalSchema true (.dict capitalBox) =
          Loading.fail (.undeclared "box" first others) := by
  have hnames : AreFields [.str "size", .str "Value"] := by
    refine ⟨?_, by decide +kernel, by decide +kernel⟩
    simp [Value.text?]
  have htable : ∀ e ∈ capitalTable, ∀ fields, e.2.elements? = some fields → AreFields fields := by
    intro e he fields hfields
    obtain rfl := List.mem_singleton.mp he
    obtain rfl := Option.some.inj hfields
    exact hnames
  obtain ⟨declared, hdeclared, hown, -, -, hreported⟩ := toNode_of_hasKeysOf capitalTable
    capitalSchema ofTable?_capitalTable htable _ List.mem_cons_self _ rfl (.str "box") rfl capitalBox
    hasKeysOf_capitalBox true
  obtain rfl := hown (List.nodup_singleton _)
  obtain ⟨first, others, hundeclared, hstrict, -⟩ := hreported
    ⟨.str "Value", by simp, by decide +kernel⟩
  refine ⟨ofTable?_capitalTable, hasKeysOf_capitalBox, first, others, ?_, hstrict rfl⟩
  intro name hname
  obtain ⟨field, hfield, rfl, hfalse⟩ := (hundeclared name).mp hname
  rcases List.mem_pair.mp hfield with rfl | rfl
  · exact absurd hfalse (by decide +kernel)
  · rfl

end Rulebook.Proofs
