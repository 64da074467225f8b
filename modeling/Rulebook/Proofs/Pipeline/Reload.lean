import Mathlib
import Rulebook.Proofs.Pipeline.Carried
import Rulebook.Proofs.Record.Grammar
import Rulebook.Proofs.Record.RoundTrip

/-!
# Which values come back from their text

A value is written as a record without a look at what its fields hold, so its text may be one that
does not load. Here is the exact condition: the fields `args` have pairs, and every operand that is
no tree reads as a value that loads.
-/

namespace Rulebook.Proofs
open Record Json

/-- The values of a payload, one for each field. -/
def payloadValues? (fields : List Value) (payload : Value) : Option (List Value) :=
  match fields with
  | [field] => if isWrapped field payload then payload.items? else some [payload]
  | fields => payload.items?.filter fun items => items.length == fields.length

/-- A value whose record loads again after it has been written in a layout, at its place in a
tree. -/
inductive Reloadable (S : Schema) (strict : Bool) (layout : Layout) : Place → Value → Prop
  | tree (v tag payload : Value) (fields values : List Value) : nodeParts? v = some (tag, payload) →
      S.fields? tag = some fields → payloadValues? fields payload = some values →
      (∀ p ∈ fields.zip values, Reloadable S strict layout (.field p.1) p.2) →
      Reloadable S strict layout .tree v
  | rule (field v : Value) : field.text? = some "rule" → Reloadable S strict layout .tree v →
      Reloadable S strict layout (.field field) v
  | rules (field v : Value) (items : List Value) : field.text? = some "rules" →
      v.items? = some items → (∀ item ∈ items, Reloadable S strict layout .tree item) →
      Reloadable S strict layout (.field field) v
  | args (field v : Value) (items : List Value) : field.text? = some "args" →
      v.items? = some items → (∀ item ∈ items, Reloadable S strict layout .argument item) →
      Reloadable S strict layout (.field field) v
  | other (field v : Value) : field.text? ≠ some "rule" → field.text? ≠ some "rules" →
      field.text? ≠ some "args" → Reloadable S strict layout .operand v →
      Reloadable S strict layout (.field field) v
  | argument (v name value : Value) : v.items? = some [name, value] →
      Reloadable S strict layout .operand value → Reloadable S strict layout .argument v
  | nested (v : Value) : v.exportsTree = true → Reloadable S strict layout .tree v →
      Reloadable S strict layout .operand v
  | plain (v : Value) : v.exportsTree = false → Loadable S strict .operand (reading layout v) →
      Reloadable S strict layout .operand v

section Places

variable {S : Schema} {strict : Bool} {layout : Layout}

lemma reloadable_rule (field v : Value) (h : field.text? = some "rule") :
    Reloadable S strict layout (.field field) v ↔ Reloadable S strict layout .tree v := by
  refine ⟨?_, .rule field v h⟩
  intro hv
  cases hv with
  | rule _ _ _ htree => exact htree
  | rules _ _ _ hrules => simp [h] at hrules
  | args _ _ _ hargs => simp [h] at hargs
  | other _ _ hrule => exact absurd h hrule

lemma reloadable_rules (field v : Value) (h : field.text? = some "rules") :
    Reloadable S strict layout (.field field) v ↔
      ∃ items, v.items? = some items ∧ ∀ item ∈ items, Reloadable S strict layout .tree item := by
  constructor
  · intro hv
    cases hv with
    | rule _ _ hrule => simp [h] at hrule
    | rules _ _ items _ hitems hall => exact ⟨items, hitems, hall⟩
    | args _ _ _ hargs => simp [h] at hargs
    | other _ _ _ hrules => exact absurd h hrules
  · rintro ⟨items, hitems, hall⟩
    exact .rules field v items h hitems hall

lemma reloadable_args (field v : Value) (h : field.text? = some "args") :
    Reloadable S strict layout (.field field) v ↔
      ∃ items, v.items? = some items ∧
        ∀ item ∈ items, Reloadable S strict layout .argument item := by
  constructor
  · intro hv
    cases hv with
    | rule _ _ hrule => simp [h] at hrule
    | rules _ _ _ hrules => simp [h] at hrules
    | args _ _ items _ hitems hall => exact ⟨items, hitems, hall⟩
    | other _ _ _ _ hargs => exact absurd h hargs
  · rintro ⟨items, hitems, hall⟩
    exact .args field v items h hitems hall

lemma reloadable_other (field v : Value) (hrule : field.text? ≠ some "rule")
    (hrules : field.text? ≠ some "rules") (hargs : field.text? ≠ some "args") :
    Reloadable S strict layout (.field field) v ↔ Reloadable S strict layout .operand v := by
  refine ⟨?_, .other field v hrule hrules hargs⟩
  intro hv
  cases hv with
  | rule _ _ hrule' => exact absurd hrule' hrule
  | rules _ _ _ hrules' => exact absurd hrules' hrules
  | args _ _ _ hargs' => exact absurd hargs' hargs
  | other _ _ _ _ _ hoperand => exact hoperand

lemma reloadable_argument (v : Value) :
    Reloadable S strict layout .argument v ↔
      ∃ name value, v.items? = some [name, value] ∧ Reloadable S strict layout .operand value := by
  constructor
  · intro hv
    cases hv with
    | argument _ name value hpair hvalue => exact ⟨name, value, hpair, hvalue⟩
  · rintro ⟨name, value, hpair, hvalue⟩
    exact .argument v name value hpair hvalue

lemma reloadable_operand (v : Value) :
    Reloadable S strict layout .operand v ↔
      if v.exportsTree then Reloadable S strict layout .tree v
      else Loadable S strict .operand (reading layout v) := by
  by_cases hexports : v.exportsTree = true
  · rw [if_pos hexports]
    refine ⟨?_, .nested v hexports⟩
    intro hv
    cases hv with
    | nested _ _ htree => exact htree
    | plain _ hplain => simp [hexports] at hplain
  · rw [if_neg hexports]
    refine ⟨?_, .plain v (by simpa using hexports)⟩
    intro hv
    cases hv with
    | nested _ hnested => exact absurd hnested hexports
    | plain _ _ hload => exact hload

end Places

lemma items?_reading (layout : Layout) (v : Value) :
    (reading layout v).items? = v.items?.map fun items => items.map (reading layout) := by
  cases v with
  | list items => rw [reading, readings_eq_map]; rfl
  | tuple items => rw [reading, readings_eq_map]; rfl
  | undefined =>
    rw [reading]
    cases layout.emptyObject <;> rfl
  | member value => cases value <;> rfl
  | _ => rfl

section Building

variable {S : Schema} {strict : Bool} {layout : Layout}

lemma payloadValues_several (fields : List Value) (payload : Value) (h : fields.length ≠ 1) :
    payloadValues? fields payload =
      payload.items?.filter fun items => items.length == fields.length := by
  unfold payloadValues?
  split
  · exact absurd rfl h
  · rfl

lemma payloadValues_of_fieldParts (type : String) (fields : List Value) (payload : Value)
    (parts : List Built) (h : fieldParts type fields (built S payload) = .ok parts) :
    ∃ values, payloadValues? fields payload = some values ∧ parts = values.map (built S) := by
  by_cases hcount : fields.length = 1
  · obtain ⟨field, rfl⟩ := List.length_eq_one_iff.mp hcount
    change Except.ok (if isWrapped field (built S payload).value then (built S payload).items
      else [built S payload]) = .ok parts at h
    rw [value_built] at h
    obtain rfl := Except.ok.inj h
    by_cases hwrapped : isWrapped field payload = true
    · obtain ⟨inner, hitems⟩ := items_of_isWrapped field payload hwrapped
      refine ⟨[inner], (if_pos hwrapped).trans hitems, ?_⟩
      rw [if_pos hwrapped, items_built S payload _ hitems]
    · refine ⟨[payload], if_neg hwrapped, ?_⟩
      rw [if_neg hwrapped]
      rfl
  · obtain ⟨hsome, hlength, rfl⟩ := items_of_fieldParts type fields _ parts hcount h
    rw [value_built] at hsome
    obtain ⟨items, hitems⟩ := Option.isSome_iff_exists.mp hsome
    rw [items_built S payload items hitems, List.length_map] at hlength
    refine ⟨items, ?_, items_built S payload items hitems⟩
    rw [payloadValues_several fields payload hcount, hitems, Option.filter_some,
      if_pos (by simpa using hlength)]

/-- What a value with a record is made of, and its record. The fields may have any keys as names. -/
lemma ofNode_ok (v x : Value) (h : ofNode S v = .ok x) :
    ∃ tag payload fields values xs, nodeParts? v = some (tag, payload) ∧
      S.fields? tag = some fields ∧ payloadValues? fields payload = some values ∧
      values.length = fields.length ∧ (∀ field ∈ fields, field.isKey = true) ∧
      List.Forall₂ (fun p x => fieldValue tag.name p.1 (built S p.2) = .ok x)
        (fields.zip values) xs ∧
      x = .dict (Entries.ofPairs ((.str "type", .str tag.name) :: fields.zip xs)) := by
  obtain ⟨tag, payload, hparts, h⟩ := ofPair_of_ofNode S v x h
  unfold ofPair at h
  split at h
  · cases h
  · next fields hfields =>
    obtain ⟨parts, hfieldParts, h⟩ := ok_of_bind h
    obtain ⟨record, hrecord, h⟩ := ok_of_bind h
    obtain rfl := Except.ok.inj h
    have hlength := length_fieldParts S _ _ _ _ hfieldParts
    obtain ⟨values, hvalues, rfl⟩ := payloadValues_of_fieldParts _ fields payload parts hfieldParts
    obtain ⟨hkeys, xs, hxs, rfl⟩ := addFields_eq_ok _ _ _ _ _ hlength hrecord
    rw [List.zip_map_right, List.forall₂_map_left_iff] at hxs
    rw [List.length_map] at hlength
    exact ⟨tag, payload, fields, values, xs, hparts, hfields, hvalues, hlength, hkeys, hxs, rfl⟩

lemma length_of_fieldValues (type : String) (fields values xs : List Value)
    (hlength : values.length = fields.length)
    (hxs : List.Forall₂ (fun p x => fieldValue type p.1 (built S p.2) = .ok x)
      (fields.zip values) xs) : xs.length = fields.length := by
  rw [← hxs.length_eq, List.length_zip, hlength, Nat.min_self]

/-- Where the fields have names of their own, they stand behind the tag. -/
lemma ofPairs_of_areFieldNames (t : String) (fields xs : List Value) (hnames : AreFieldNames fields)
    (hlength : xs.length = fields.length) :
    Entries.ofPairs ((.str "type", .str t) :: fields.zip xs) =
      (.str "type", .str t) :: fields.zip xs := by
  have hkeys : fields.Pairwise fun a b => a.equal b = false := by
    refine (List.pairwise_map.mp hnames.nodup).imp_of_mem fun {a b} ha hb hne => ?_
    rw [equal_of_text? a b _ (hnames.isName a ha), hnames.isName b hb, beq_eq_false_iff_ne]
    exact fun heq => hne (Option.some.inj heq).symm
  apply ofPairs_of_pairwise
  refine List.pairwise_cons.mpr ⟨fun p hp => ?_, ?_⟩
  · have hp := (List.of_mem_zip hp).1
    rw [equal_of_text? _ _ "type" rfl, hnames.isName p.1 hp, beq_eq_false_iff_ne]
    exact fun heq => hnames.notType p.1 hp (Option.some.inj heq)
  · have hall : ((fields.zip xs).map Prod.fst).Pairwise fun a b => a.equal b = false := by
      rwa [List.map_fst_zip hlength.ge]
    exact List.pairwise_map.mp hall

/-- What a record that has been built is made of. -/
lemma ofNode_eq_ok (hS : ∀ entry ∈ S.table, AreFieldNames entry.2) (v record : Value)
    (h : ofNode S v = .ok record) :
    ∃ tag payload fields values xs, nodeParts? v = some (tag, payload) ∧
      S.fields? tag = some fields ∧ payloadValues? fields payload = some values ∧
      values.length = fields.length ∧
      List.Forall₂ (fun p x => fieldValue tag.name p.1 (built S p.2) = .ok x)
        (fields.zip values) xs ∧
      record = .dict ((.str "type", .str tag.name) :: fields.zip xs) := by
  obtain ⟨tag, payload, fields, values, xs, hparts, hfields, hvalues, hlength, -, hxs, rfl⟩ :=
    ofNode_ok v record h
  rw [ofPairs_of_areFieldNames tag.name fields xs (areFieldNames_of_fields? hS tag fields hfields)
    (length_of_fieldValues tag.name fields values xs hlength hxs)]
  exact ⟨tag, payload, fields, values, xs, hparts, hfields, hvalues, hlength, hxs, rfl⟩

/-- The record of a node, after its text, is loaded field by field. -/
lemma load_reading_record (hS : ∀ entry ∈ S.table, AreFieldNames entry.2) (tag : Value)
    (fields xs : List Value) (hfields : S.fields? tag = some fields)
    (hlength : xs.length = fields.length) :
    load S strict (reading layout (.dict ((.str "type", .str tag.name) :: fields.zip xs))) =
      (do
        let values ← Loading.all (List.zipWith
          (fun field x => loadField tag.name field (loaded S strict (reading layout x))) fields xs)
        pure (.node (.str tag.name) (payload values))) :=
  load_carried (carriesRecords_reading layout) tag.name fields xs
    ((fields?_name S tag).trans hfields) (name_str_name tag)
    (areFieldNames_of_fields? hS tag fields hfields) hlength

lemma isNode_of_reload (hS : ∀ entry ∈ S.table, AreFieldNames entry.2) (v record w : Value)
    (h : ofNode S v = .ok record) (hw : (load S strict (reading layout record)).result = .ok w) :
    w.isNode = true := by
  obtain ⟨tag, payload, fields, values, xs, -, hfields, -, hlength, hxs, rfl⟩ :=
    ofNode_eq_ok hS v record h
  rw [load_reading_record hS tag fields xs hfields
    (length_of_fieldValues tag.name fields values xs hlength hxs)] at hw
  simp only [ok_of_loading_bind, result_pure] at hw
  obtain ⟨loadedValues, -, rfl⟩ := hw
  rfl

/-- What it is for the record of a value to load again exactly when the value is reloadable. -/
def ReloadsAsSaid (S : Schema) (strict : Bool) (layout : Layout) (v : Value) : Prop :=
  ∀ record, ofNode S v = .ok record →
    ((∃ w, (load S strict (reading layout record)).result = .ok w) ↔
      Reloadable S strict layout .tree v)

lemma reload_operand (v x : Value) (ih : ReloadsAsSaid S strict layout v)
    (hx : (if v.exportsTree then ofNode S v else .ok v) = .ok x) :
    (∃ w, (load S strict (reading layout x)).result = .ok w) ↔
      Reloadable S strict layout .operand v := by
  rw [reloadable_operand]
  by_cases hexports : v.exportsTree = true
  · rw [if_pos hexports] at hx ⊢
    exact ih x hx
  · rw [if_neg hexports] at hx ⊢
    obtain rfl := Except.ok.inj hx
    exact load_isOk_iff S strict _

lemma reload_argument (e x : Value)
    (ih : ∀ name value, e.items? = some [name, value] → ReloadsAsSaid S strict layout value)
    (hx : argument (built S e) = .ok x) :
    (∃ name y, (reading layout x).items? = some [name, y] ∧
      ∃ w, (load S strict y).result = .ok w) ↔ Reloadable S strict layout .argument e := by
  rw [reloadable_argument]
  by_cases hpair : ∃ name value, e.items? = some [name, value]
  · obtain ⟨name, value, hpair⟩ := hpair
    have hitems : ∃ y, (if value.exportsTree then ofNode S value else .ok value) = .ok y ∧
        (reading layout x).items? = some [reading layout name, reading layout y] := by
      rw [argument_pair S e name value hpair] at hx
      split at hx
      · next hexports =>
        obtain ⟨y, hy, rfl⟩ := ok_of_map hx
        exact ⟨y, by rw [if_pos hexports, hy], rfl⟩
      · next hexports =>
        obtain rfl := Except.ok.inj hx
        refine ⟨value, by rw [if_neg hexports], ?_⟩
        rw [items?_reading, hpair]
        rfl
    obtain ⟨y, hy, hitems⟩ := hitems
    have hoperand := reload_operand value y (ih name value hpair) hy
    constructor
    · rintro ⟨name', y', heq, hload⟩
      obtain ⟨-, rfl⟩ : reading layout name = name' ∧ reading layout y = y' := by
        simpa using hitems.symm.trans heq
      exact ⟨name, value, hpair, hoperand.mp hload⟩
    · rintro ⟨name', value', hpair', hvalue⟩
      obtain ⟨-, rfl⟩ : name = name' ∧ value = value' := by simpa using hpair.symm.trans hpair'
      exact ⟨_, _, hitems, hoperand.mpr hvalue⟩
  · have hother : ∀ name value, e.items? ≠ some [name, value] :=
      fun name value h => hpair ⟨name, value, h⟩
    rw [argument_other S e hother] at hx
    obtain rfl := Except.ok.inj hx
    constructor
    · rintro ⟨name, y, heq, -⟩
      rw [items?_reading] at heq
      obtain ⟨items, hitems, heq⟩ := Option.map_eq_some_iff.mp heq
      obtain ⟨a, b, rfl, -, -⟩ := map_eq_pair heq
      exact absurd hitems (hother a b)
    · rintro ⟨name, value, hpair', -⟩
      exact absurd hpair' (hother name value)

lemma reload_rule (hS : ∀ entry ∈ S.table, AreFieldNames entry.2) (type : String)
    (field v x : Value) (hfield : field.text? = some "rule") (ih : ReloadsAsSaid S strict layout v)
    (hx : fieldValue type field (built S v) = .ok x) :
    (∃ w, (loadField type field (loaded S strict (reading layout x))).result = .ok w) ↔
      Reloadable S strict layout (.field field) v := by
  rw [fieldValue_rule _ _ _ hfield, made_built] at hx
  have htree : (∃ w, (loadField type field (loaded S strict (reading layout x))).result = .ok w) ↔
      ∃ w, (load S strict (reading layout x)).result = .ok w := by
    simp only [loadField_rule_ok S strict type field _ _ hfield]
    constructor
    · rintro ⟨w, hw, -⟩
      exact ⟨w, hw⟩
    · rintro ⟨w, hw⟩
      exact ⟨w, hw, isNode_of_reload hS v x w hx hw⟩
  rw [htree, ih x hx, reloadable_rule field v hfield]

lemma reload_items (items xs : List Value)
    (ih : ∀ item ∈ items, ReloadsAsSaid S strict layout item)
    (hxs : items.mapM (ofNode S) = .ok xs) :
    (∃ w, (load S strict (reading layout (.list xs))).result = .ok w) ↔
      ∀ item ∈ items, Reloadable S strict layout .tree item := by
  rw [mapM_ok] at hxs
  rw [reading, readings_eq_map, load_list_isOk, List.forall_mem_map]
  exact forall_iff_of_forall₂ ih hxs

lemma all_isNode_of_reload (hS : ∀ entry ∈ S.table, AreFieldNames entry.2)
    (items xs : List Value) (w : Value) (hxs : items.mapM (ofNode S) = .ok xs)
    (hw : (load S strict (reading layout (.list xs))).result = .ok w) :
    isNodeSequence w = true := by
  rw [mapM_ok] at hxs
  rw [reading, readings_eq_map, load_list_ok] at hw
  obtain ⟨values, hvalues, rfl⟩ := hw
  rw [List.forall₂_map_left_iff] at hvalues
  have hnodes : ∀ x ∈ xs, ∀ value, (load S strict (reading layout x)).result = .ok value →
      value.isNode = true :=
    forall_right_of_forall₂ (fun item _ x hx value => isNode_of_reload hS item x value hx) hxs
  exact List.all_eq_true.mpr (forall_right_of_forall₂ hnodes hvalues)

lemma reload_rules (hS : ∀ entry ∈ S.table, AreFieldNames entry.2) (type : String)
    (field v x : Value) (hfield : field.text? = some "rules")
    (ih : ∀ items, v.items? = some items → ∀ item ∈ items, ReloadsAsSaid S strict layout item)
    (hx : fieldValue type field (built S v) = .ok x) :
    (∃ w, (loadField type field (loaded S strict (reading layout x))).result = .ok w) ↔
      Reloadable S strict layout (.field field) v := by
  cases hitems : v.items? with
  | none =>
    rw [fieldValue_rules _ _ _ hfield, value_built, hitems] at hx
    cases hx
  | some items =>
    rw [fieldValue_trees S type field v items hfield hitems] at hx
    obtain ⟨xs, hxs, rfl⟩ := ok_of_map hx
    have hload : (∃ w, (loadField type field
        (loaded S strict (reading layout (.list xs)))).result = .ok w) ↔
        ∃ w, (load S strict (reading layout (.list xs))).result = .ok w := by
      simp only [loadField_rules_ok S strict type field _ _ hfield]
      constructor
      · rintro ⟨w, hw, -⟩
        exact ⟨w, hw⟩
      · rintro ⟨w, hw⟩
        exact ⟨w, hw, all_isNode_of_reload hS items xs w hxs hw⟩
    rw [hload, reload_items items xs (ih items hitems) hxs, reloadable_rules field v hfield, hitems]
    simp

lemma reload_args (type : String) (field v x : Value) (hfield : field.text? = some "args")
    (ih : ∀ items, v.items? = some items → ∀ item ∈ items, ∀ name value,
      item.items? = some [name, value] → ReloadsAsSaid S strict layout value)
    (hx : fieldValue type field (built S v) = .ok x) :
    (∃ w, (loadField type field (loaded S strict (reading layout x))).result = .ok w) ↔
      Reloadable S strict layout (.field field) v := by
  cases hitems : v.items? with
  | none =>
    rw [fieldValue_other S _ _ _ (by simp [hfield]) (by simp [hfield]) fun _ => hitems] at hx
    have hx : x.items? = none := by
      split at hx
      · obtain ⟨entries, rfl⟩ := isDict_of_ofNode S v x hx
        rfl
      · obtain rfl := Except.ok.inj hx
        exact hitems
    constructor
    · rintro ⟨w, hw⟩
      rw [loadField_args_none _ _ _ hfield (by rw [value_loaded, items?_reading, hx]; rfl)] at hw
      exact absurd hw (result_fail _ _)
    · intro h
      obtain ⟨items, hitems', -⟩ := (reloadable_args field v hfield).mp h
      simp [hitems] at hitems'
  | some items =>
    rw [fieldValue_arguments S type field v items hfield hitems] at hx
    obtain ⟨xs, hxs, rfl⟩ := ok_of_map hx
    rw [mapM_ok] at hxs
    have hsequence : (reading layout (.list xs)).items? = some (xs.map (reading layout)) :=
      items?_reading layout (.list xs)
    have hall := forall_iff_of_forall₂
      (fun item hitem x hx => reload_argument item x (ih items hitems item hitem) hx) hxs
    rw [loadField_args_isOk S strict type field _ _ hfield hsequence, List.forall_mem_map, hall,
      reloadable_args field v hfield, hitems]
    simp

lemma reload_field (hS : ∀ entry ∈ S.table, AreFieldNames entry.2) (type : String)
    (field v x : Value) (ih : ∀ u, sizeOf u ≤ sizeOf v → ReloadsAsSaid S strict layout u)
    (hx : fieldValue type field (built S v) = .ok x) :
    (∃ w, (loadField type field (loaded S strict (reading layout x))).result = .ok w) ↔
      Reloadable S strict layout (.field field) v := by
  have hitem (items : List Value) (hitems : v.items? = some items) (item : Value)
      (hitem : item ∈ items) : sizeOf item ≤ sizeOf v := (sizeOf_item_lt v items hitems item hitem).le
  by_cases hrule : field.text? = some "rule"
  · exact reload_rule hS type field v x hrule (ih v le_rfl) hx
  · by_cases hrules : field.text? = some "rules"
    · exact reload_rules hS type field v x hrules
        (fun items hitems item h => ih item (hitem items hitems item h)) hx
    · by_cases hargs : field.text? = some "args"
      · refine reload_args type field v x hargs ?_ hx
        intro items hitems item h name value hpair
        have hlt := sizeOf_item_lt item _ hpair value (by simp)
        exact ih value (hlt.le.trans (hitem items hitems item h))
      · rw [fieldValue_other S _ _ _ hrule hrules fun h => absurd h hargs] at hx
        rw [loadField_other _ _ _ hargs hrule hrules, made_loaded,
          reload_operand v x (ih v le_rfl) hx, reloadable_other field v hrule hrules hargs]

lemma nodeParts_lt (v tag payload : Value) (h : nodeParts? v = some (tag, payload)) :
    sizeOf payload < sizeOf v := by
  have htree : sizeOf (treeOf v) ≤ sizeOf v := by
    cases v with
    | rule ast =>
      simp only [treeOf, Value.rule.sizeOf_spec]
      omega
    | _ => exact le_rfl
  unfold nodeParts? at h
  split at h
  · next tag' payload' hitems =>
    obtain ⟨rfl, rfl⟩ := Prod.mk.inj (Option.some.inj h)
    exact (sizeOf_item_lt _ _ hitems payload' (by simp)).trans_le htree
  · cases h

lemma payloadValues_le (fields values : List Value) (payload : Value)
    (h : payloadValues? fields payload = some values) :
    ∀ value ∈ values, sizeOf value ≤ sizeOf payload := by
  intro value hvalue
  unfold payloadValues? at h
  split at h
  · split at h
    · exact (sizeOf_item_lt payload values h value hvalue).le
    · obtain rfl := Option.some.inj h
      obtain rfl := List.mem_singleton.mp hvalue
      exact le_rfl
  · obtain ⟨hitems, -⟩ := Option.filter_eq_some_iff.mp h
    exact (sizeOf_item_lt payload values hitems value hvalue).le

lemma reload_fields (hS : ∀ entry ∈ S.table, AreFieldNames entry.2) (type : String)
    (fields values xs : List Value) (hlength : values.length = fields.length)
    (hxs : List.Forall₂ (fun p x => fieldValue type p.1 (built S p.2) = .ok x)
      (fields.zip values) xs)
    (ih : ∀ value ∈ values, ∀ u, sizeOf u ≤ sizeOf value → ReloadsAsSaid S strict layout u) :
    (∃ loadedValues, (Loading.all (List.zipWith (fun field x =>
        loadField type field (loaded S strict (reading layout x))) fields xs)).result =
          .ok loadedValues) ↔
      ∀ p ∈ fields.zip values, Reloadable S strict layout (.field p.1) p.2 := by
  rw [all_isOk]
  induction fields generalizing values xs with
  | nil => simp
  | cons field fields ihfields =>
    cases values with
    | nil => simp at hlength
    | cons value values =>
      rw [List.zip_cons_cons] at hxs ⊢
      obtain ⟨x, more, hx, hmore, rfl⟩ := List.forall₂_cons_left_iff.mp hxs
      rw [List.forall_mem_cons] at ih
      rw [List.zipWith_cons_cons, List.forall_mem_cons, List.forall_mem_cons]
      exact and_congr (reload_field hS type field value x ih.1 hx)
        (ihfields values more (by simpa using hlength) hmore ih.2)

/-- The record of a value loads after its text exactly when the value is reloadable. -/
theorem reloadsAsSaid (hS : ∀ entry ∈ S.table, AreFieldNames entry.2) (v : Value) :
    ReloadsAsSaid S strict layout v := by
  generalize hsize : sizeOf v = n
  induction n using Nat.strong_induction_on generalizing v with
  | _ n ih =>
  intro record hrecord
  obtain ⟨tag, payload, fields, values, xs, hparts, hfields, hvalues, hlength, hxs, rfl⟩ :=
    ofNode_eq_ok hS v record hrecord
  have hlt := nodeParts_lt v tag payload hparts
  have hle := payloadValues_le fields values payload hvalues
  have hinner : ∀ value ∈ values, ∀ u, sizeOf u ≤ sizeOf value →
      ReloadsAsSaid S strict layout u := by
    intro value hvalue u hu
    have hvalue := hle value hvalue
    exact ih (sizeOf u) (by omega) u rfl
  have hall := reload_fields hS tag.name fields values xs hlength hxs hinner
  have hload : (∃ w, (load S strict
      (reading layout (.dict ((.str "type", .str tag.name) :: fields.zip xs)))).result = .ok w) ↔
      ∀ p ∈ fields.zip values, Reloadable S strict layout (.field p.1) p.2 := by
    rw [← hall, load_reading_record hS tag fields xs hfields
      (length_of_fieldValues tag.name fields values xs hlength hxs)]
    simp only [ok_of_loading_bind, result_pure]
    constructor
    · rintro ⟨-, loadedValues, h, -⟩
      exact ⟨loadedValues, h⟩
    · rintro ⟨loadedValues, h⟩
      exact ⟨_, loadedValues, h, rfl⟩
  rw [hload]
  constructor
  · exact .tree v tag payload fields values hparts hfields hvalues
  · intro h
    cases h with
    | tree _ tag' payload' fields' values' hparts' hfields' hvalues' h =>
      obtain ⟨rfl, rfl⟩ := Prod.mk.inj (Option.some.inj (hparts.symm.trans hparts'))
      obtain rfl := Option.some.inj (hfields.symm.trans hfields')
      obtain rfl := Option.some.inj (hvalues.symm.trans hvalues')
      exact h

end Building

/-! ## Pipelines -/

/-- A value whose text loads again: a node, or a sequence of nodes. -/
def IsReloadable (strict : Bool) (layout : Layout) (v : Value) : Prop :=
  match v.items? with
  | some items =>
    if v.isNodeLike then Reloadable .rules strict layout .tree v
    else ∀ item ∈ items, Reloadable .rules strict layout .tree item
  | none => Reloadable .rules strict layout .tree v

lemma serialize_reloads (o : Options) (strict : Bool) (layout : Layout) (v records : Value)
    (h : ({ options := o } : Pipeline).serialize v = .ok records) :
    (∃ w, (Record.load .rules strict (reading layout records)).result = .ok w) ↔
      IsReloadable strict layout v := by
  have hnode (h : (ofNode .rules v).mapError Fault.record = .ok records) :
      (∃ w, (Record.load .rules strict (reading layout records)).result = .ok w) ↔
        Reloadable .rules strict layout .tree v :=
    reloadsAsSaid areFieldNames_rules v records (ok_of_mapError.mp h)
  unfold Pipeline.serialize at h
  unfold IsReloadable
  cases hitems : v.items? with
  | none =>
    rw [hitems] at h
    exact hnode h
  | some items =>
    rw [hitems] at h
    dsimp only at h ⊢
    by_cases hlike : v.isNodeLike = true
    · rw [if_pos hlike] at h ⊢
      exact hnode h
    · rw [if_neg hlike] at h ⊢
      obtain ⟨xs, hrecords, rfl⟩ := ok_of_map (ok_of_mapError.mp h)
      exact reload_items items xs (fun item _ => reloadsAsSaid areFieldNames_rules item) hrecords

/-- What a pipeline has written loads again exactly when the value is reloadable. -/
theorem load_dump_isOk_iff (v : Value) (text : String) (h : ({} : Pipeline).dump v = .ok text) :
    (∃ w, (({} : Pipeline).load (.str text)).result = .ok w) ↔
      IsReloadable false ⟨none, false, false, false, some 4300⟩ v := by
  obtain ⟨records, hrecords, -⟩ := ok_of_bind h
  rw [load_of_dump {} none rfl (isBlankLayout_none _) v records text hrecords h,
    ← serialize_reloads {} false _ v records hrecords]
  simp only [ok_of_loading_bind, result_mapFault, result_pure]
  constructor
  · rintro ⟨-, tree, htree, -⟩
    exact ⟨tree, htree⟩
  · rintro ⟨tree, htree⟩
    exact ⟨_, tree, htree, rfl⟩

lemma dump_text_args :
    ({} : Pipeline).dump (.node (.str "predicate") (.tuple [.str "f", .str "x"])) =
      .ok "\x7b\"type\": \"predicate\", \"name\": \"f\", \"args\": \"x\"\x7d" :=
  ok_of_toOption (by decide +kernel)

/-- Arguments that are a text are written, and do not load. -/
theorem not_load_dump_text_args :
    ∃ text, ({} : Pipeline).dump (.node (.str "predicate") (.tuple [.str "f", .str "x"])) =
        .ok text ∧
      ¬∃ w, (({} : Pipeline).load (.str text)).result = .ok w := by
  refine ⟨_, dump_text_args, ?_⟩
  rintro ⟨w, hw⟩
  have hfail : (({} : Pipeline).load
      (.str "\x7b\"type\": \"predicate\", \"name\": \"f\", \"args\": \"x\"\x7d")).result.isOk =
        false := by
    decide +kernel
  rw [hw] at hfail
  cases hfail

/-- Whether arguments that are a text load is decided by the text being no sequence of pairs. -/
theorem load_dump_text_args_iff :
    (∃ w, (({} : Pipeline).load
        (.str "\x7b\"type\": \"predicate\", \"name\": \"f\", \"args\": \"x\"\x7d")).result = .ok w) ↔
      IsReloadable false ⟨none, false, false, false, some 4300⟩
        (.node (.str "predicate") (.tuple [.str "f", .str "x"])) :=
  load_dump_isOk_iff _ _ dump_text_args

end Rulebook.Proofs
