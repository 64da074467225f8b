import Mathlib
import Rulebook.Proofs.Record.LoadedForm
import Rulebook.Proofs.Record.WellFormed

/-!
# What has been loaded can be written

A tree that has been loaded can be written as a record, under every schema whose fields are texts.
The payload of a single field may be taken for a wrapped one on the way; what is left of it can be
written as well.
-/

namespace Rulebook.Proofs
open Record

/-- Every field that a schema declares is a text. -/
def HasTextFields (S : Schema) : Prop :=
  ∀ entry ∈ S.table, ∀ field ∈ entry.2, field.text?.isSome = true

section Buildable

variable {S : Schema} {isNumber : Binary64 → Prop}

/-! ## Values that export nothing, or a tree -/

/-- A value that can be written where a tree becomes its record. -/
def CanExport (S : Schema) (v : Value) : Prop :=
  v.exportsTree = true → ∃ record, ofNode S v = .ok record

/-- A value that can be written as an argument, whether it is one or not. -/
def CanArgue (S : Schema) (v : Value) : Prop := ∃ x, argument (built S v) = .ok x

lemma canExport_of_not_exports (v : Value) (h : v.exportsTree = false) : CanExport S v := by
  intro hexports
  rw [h] at hexports
  cases hexports

lemma exportsTree_of_isDecoded (v : Value) (h : IsDecoded isNumber v) : v.exportsTree = false := by
  cases h <;> rfl

/-- What stands in a pair as its second item is all that writing an argument looks at. -/
lemma canArgue_of_pair (v : Value)
    (h : ∀ name value, v.items? = some [name, value] → CanExport S value) : CanArgue S v := by
  by_cases hpair : ∃ name value, v.items? = some [name, value]
  · obtain ⟨name, value, hpair⟩ := hpair
    unfold CanArgue
    rw [argument_pair S v name value hpair]
    split
    · next hexports =>
      obtain ⟨record, hrecord⟩ := h name value hpair hexports
      exact ⟨.tuple [name, record], by rw [hrecord]; rfl⟩
    · exact ⟨v, rfl⟩
  · exact ⟨v, argument_other S v fun name value heq => hpair ⟨name, value, heq⟩⟩

lemma canArgue_of_isDecoded (v : Value) (h : IsDecoded isNumber v) : CanArgue S v := by
  apply canArgue_of_pair
  intro name value hpair
  exact canExport_of_not_exports value
    (exportsTree_of_isDecoded value (isDecoded_items v _ h hpair value (by simp)))

/-! ## Values at their places -/

/-- What it is for a loaded value to be writable at its place. A single field may be left with the
only item of its value, and a tree may stand where an argument is looked for. -/
def CanBuild (S : Schema) : Place → Value → Prop
  | .tree, v => (∃ record, ofNode S v = .ok record) ∧ CanArgue S v
  | .field field, v => CanExport S v ∧ (∀ type, ∃ x, fieldValue type field (built S v) = .ok x) ∧
      (isWrapped field v = true → ∀ inner, v.items? = some [inner] →
        ∀ type, ∃ x, fieldValue type field (built S inner) = .ok x)
  | .argument, v => CanArgue S v ∧ ∀ items, v.items? = some items → ∀ item ∈ items, CanArgue S item
  | .operand, v => CanExport S v ∧ CanArgue S v ∧
      (v.isNode = false → ∀ items, v.items? = some items → ∀ item ∈ items, CanExport S item)

lemma fieldValue_other_isOk (type : String) (field v : Value) (hrule : field.text? ≠ some "rule")
    (hrules : field.text? ≠ some "rules") (hargs : field.text? ≠ some "args")
    (h : CanExport S v) : ∃ x, fieldValue type field (built S v) = .ok x := by
  rw [fieldValue_other S _ _ _ hrule hrules fun h => absurd h hargs]
  split
  · next hexports => exact h hexports
  · exact ⟨v, rfl⟩

lemma fieldValue_args_isOk (type : String) (field v : Value) (items : List Value)
    (hfield : field.text? = some "args") (hitems : v.items? = some items)
    (h : ∀ item ∈ items, CanArgue S item) : ∃ x, fieldValue type field (built S v) = .ok x := by
  obtain ⟨xs, hxs⟩ := mapM_isOk (fun item => argument (built S item)) items h
  refine ⟨.list xs, ?_⟩
  rw [fieldValue_arguments S type field v items hfield hitems, hxs]
  rfl

lemma addFields_isOk (type : String) (fields : List Value) (parts : List Built) (record : Entries)
    (hfields : ∀ field ∈ fields, field.text?.isSome = true)
    (h : ∀ p ∈ fields.zip parts, ∃ x, fieldValue type p.1 p.2 = .ok x) :
    ∃ record', addFields type (fields.zip parts) record = .ok record' := by
  induction fields generalizing parts record with
  | nil => exact ⟨record, rfl⟩
  | cons field fields ih =>
    cases parts with
    | nil => exact ⟨record, rfl⟩
    | cons part parts =>
      rw [List.zip_cons_cons, List.forall_mem_cons] at h
      rw [List.forall_mem_cons] at hfields
      obtain ⟨⟨x, hx⟩, hrest⟩ := h
      obtain ⟨name, hname⟩ := Option.isSome_iff_exists.mp hfields.1
      obtain ⟨record', hrecord'⟩ := ih parts (record.insert field x) hfields.2 hrest
      refine ⟨record', ?_⟩
      rw [List.zip_cons_cons, addFields, hx, ok_bind, if_pos (isKey_of_text? field name hname)]
      exact hrecord'

lemma ofNode_isOk (hS : HasTextFields S) (t : String) (fields : List Value) (payload : Value)
    (parts : List Built) (hfields : S.fields? (.str t) = some fields)
    (hparts : fieldParts (Value.str t).name fields (built S payload) = .ok parts)
    (h : ∀ p ∈ fields.zip parts, ∃ x, fieldValue (Value.str t).name p.1 p.2 = .ok x) :
    ∃ record, ofNode S (.node (.str t) payload) = .ok record := by
  have htexts := hS _ (mem_table_of_fields? S _ _ hfields)
  obtain ⟨entries, hentries⟩ := addFields_isOk (Value.str t).name fields parts
    [(.str "type", .str (Value.str t).name)] htexts h
  refine ⟨.dict entries, ?_⟩
  change ofPair S (.str t) (built S payload) = _
  unfold ofPair
  rw [hfields]
  dsimp only
  rw [hparts, ok_bind, hentries]
  rfl

lemma canBuild_single (hS : HasTextFields S) (t : String) (field value : Value)
    (hfields : S.fields? (.str t) = some [field]) (h : CanBuild S (.field field) value) :
    CanBuild S .tree (.node (.str t) value) := by
  obtain ⟨hexport, hvalue, hinner⟩ := h
  refine ⟨?_, canArgue_of_pair _ ?_⟩
  · by_cases hwrapped : isWrapped field value = true
    · obtain ⟨inner, hitems⟩ := items_of_isWrapped field value hwrapped
      refine ofNode_isOk hS t [field] value [built S inner] hfields
        (fieldParts_wrapped _ field value inner hwrapped hitems) ?_
      simpa using hinner hwrapped inner hitems _
    · refine ofNode_isOk hS t [field] value [built S value] hfields
        (fieldParts_single _ field value (Bool.eq_false_iff.mpr hwrapped)) ?_
      simpa using hvalue _
  · intro tag payload hpair
    obtain ⟨-, rfl⟩ : Value.str t = tag ∧ value = payload := by
      simpa [Value.items?] using hpair
    exact hexport

lemma canBuild_several (hS : HasTextFields S) (t : String) (fields values : List Value)
    (hfields : S.fields? (.str t) = some fields) (hcount : fields.length ≠ 1)
    (hlength : values.length = fields.length)
    (h : ∀ p ∈ fields.zip values, CanBuild S (.field p.1) p.2) :
    CanBuild S .tree (.node (.str t) (.tuple values)) := by
  refine ⟨?_, canArgue_of_pair _ ?_⟩
  · rw [← payload_several values (by rw [hlength]; exact hcount)]
    refine ofNode_isOk hS t fields _ (values.map (built S)) hfields
      (fieldParts_several _ fields values hcount hlength) ?_
    rw [List.zip_map_right, List.forall_mem_map]
    exact fun p hp => (h p hp).2.1 _
  · intro tag payload hpair
    obtain ⟨-, rfl⟩ : Value.str t = tag ∧ Value.tuple values = payload := by
      simpa [Value.items?] using hpair
    exact canExport_of_not_exports _ rfl

lemma canBuild_rules (field : Value) (values : List Value) (hfield : field.text? = some "rules")
    (hnodes : ∀ v ∈ values, v.isNode = true) (h : ∀ v ∈ values, CanBuild S .tree v) :
    CanBuild S (.field field) (.list values) := by
  obtain ⟨records, hrecords⟩ := (exists_forall₂ values).mpr fun v hv => (h v hv).1
  refine ⟨canExport_of_not_exports _ rfl, fun type => ⟨.list records, ?_⟩, ?_⟩
  · exact fieldValue_trees_ok S type field values records hfield hrecords
  · intro hwrapped
    rw [isWrapped_trees field values hfield hnodes] at hwrapped
    cases hwrapped

lemma canBuild_args (field : Value) (values : List Value) (hfield : field.text? = some "args")
    (hpairs : ∀ v ∈ values, v.items?.isSome = true)
    (h : ∀ v ∈ values, CanBuild S .argument v) : CanBuild S (.field field) (.list values) := by
  refine ⟨canExport_of_not_exports _ rfl, fun type => ?_, ?_⟩
  · exact fieldValue_args_isOk type field _ values hfield rfl fun v hv => (h v hv).1
  · intro _ inner hinner type
    obtain rfl := Option.some.inj hinner
    obtain ⟨items, hitems⟩ := Option.isSome_iff_exists.mp (hpairs inner (by simp))
    have hargue := (h inner (by simp)).2 items hitems
    exact fieldValue_args_isOk type field inner items hfield hitems hargue

/-- Whatever has been loaded can be written at its place. -/
lemma canBuild_of_loadedForm (hS : HasTextFields S) (place : Place) (v : Value)
    (h : LoadedForm S isNumber place v) : CanBuild S place v := by
  induction h with
  | single t field value _ hfields _ ih => exact canBuild_single hS t field value hfields ih
  | several t fields values _ hfields hcount hlength _ ih =>
    exact canBuild_several hS t fields values hfields hcount hlength ih
  | rule field value hfield htree ih =>
    refine ⟨fun _ => ih.1, fun type => ?_, ?_⟩
    · rw [fieldValue_rule _ _ _ hfield]
      exact ih.1
    · intro hwrapped
      cases htree <;> cases hwrapped
  | rules field values hfield htrees ih =>
    exact canBuild_rules field values hfield (fun v hv => isNode_of_loadedForm v (htrees v hv)) ih
  | args field values hfield harguments ih =>
    refine canBuild_args field values hfield ?_ ih
    intro v hv
    cases harguments v hv
    rfl
  | other field value hrule hrules hargs hoperand ih =>
    obtain ⟨hexport, -, hitems⟩ := ih
    refine ⟨hexport, fun type => ?_, ?_⟩
    · exact fieldValue_other_isOk type field value hrule hrules hargs hexport
    · intro hwrapped inner hinner type
      have hnode : value.isNode = false := by cases value <;> first | rfl | cases hwrapped
      exact fieldValue_other_isOk type field inner hrule hrules hargs
        (hitems hnode _ hinner inner (by simp))
  | argument name value hname _ ih =>
    have hexport (name' value' : Value) (hpair : some [name, value] = some [name', value']) :
        CanExport S value' := by
      obtain ⟨-, rfl⟩ : name = name' ∧ value = value' := by simpa using hpair
      exact ih.1
    refine ⟨canArgue_of_pair _ hexport, ?_⟩
    intro items hitems
    obtain rfl := Option.some.inj hitems
    simp [canArgue_of_isDecoded name hname, ih.2.1]
  | nested value htree ih =>
    refine ⟨fun _ => ih.1, ih.2, ?_⟩
    intro hnode
    rw [isNode_of_loadedForm value htree] at hnode
    cases hnode
  | list values _ ih =>
    refine ⟨canExport_of_not_exports _ rfl, canArgue_of_pair _ ?_, ?_⟩
    · intro name value hpair
      obtain rfl := Option.some.inj hpair
      exact (ih value (by simp)).1
    · intro _ items hitems
      obtain rfl := Option.some.inj hitems
      exact fun item hitem => (ih item hitem).1
  | undefined =>
    exact ⟨canExport_of_not_exports _ rfl, ⟨.undefined, rfl⟩, fun _ items hitems => by cases hitems⟩
  | scalar value hvalue _ hlist =>
    have hexports := exportsTree_of_isDecoded value hvalue
    refine ⟨canExport_of_not_exports _ hexports, canArgue_of_isDecoded value hvalue, ?_⟩
    intro _ items hitems
    exact absurd (eq_list_of_isDecoded value items hvalue hitems) (hlist items)

/-- A tree that has been loaded can be written as a record. -/
theorem ofNode_of_loadedForm (hS : HasTextFields S) (n : Value) (h : LoadedForm S isNumber .tree n) :
    ∃ record, ofNode S n = .ok record :=
  (canBuild_of_loadedForm hS .tree n h).1

end Buildable

end Rulebook.Proofs
