import Mathlib
import Rulebook.Proofs.Record.Fields

/-!
# Trees that records hold without loss

A tree is well-formed when its nodes have the fields of their types, with trees, arguments and plain
operands in their places. A record built from such a tree loads as that tree, without a warning, and
it does so as well after any treatment that leaves names, lists and pairs what they are and keeps the
entries of records under their names.
-/

namespace Rulebook.Proofs
open Record

/-- A value that has the form its place in a tree asks for. `isName` holds for the names that
arguments may have, and `isPlain` for the operands that are no trees. -/
inductive WellFormed (S : Schema) (isName isPlain : Value → Prop) : Place → Value → Prop
  /-- A type with one field has the value of the field as its payload. The value must not look like a
  wrapped one, which a sequence of trees never does. -/
  | single (t : String) (field value : Value) : t ∈ S.types → S.fields? (.str t) = some [field] →
      WellFormed S isName isPlain (.field field) value →
      (field.text? = some "rule" ∨ field.text? = some "rules" ∨
        ∀ inner, value ≠ .list [inner] ∧ value ≠ .tuple [inner]) →
      WellFormed S isName isPlain .tree (.node (.str t) value)
  /-- Any other type has a tuple with one value for each field. -/
  | several (t : String) (fields values : List Value) : t ∈ S.types →
      S.fields? (.str t) = some fields → fields.length ≠ 1 → values.length = fields.length →
      (∀ p ∈ fields.zip values, WellFormed S isName isPlain (.field p.1) p.2) →
      WellFormed S isName isPlain .tree (.node (.str t) (.tuple values))
  | rule (field value : Value) : field.text? = some "rule" → WellFormed S isName isPlain .tree value →
      WellFormed S isName isPlain (.field field) value
  | rules (field : Value) (values : List Value) : field.text? = some "rules" →
      (∀ value ∈ values, WellFormed S isName isPlain .tree value) →
      WellFormed S isName isPlain (.field field) (.list values)
  | args (field : Value) (values : List Value) : field.text? = some "args" →
      (∀ value ∈ values, WellFormed S isName isPlain .argument value) →
      WellFormed S isName isPlain (.field field) (.list values)
  | other (field value : Value) : field.text? ≠ some "rule" → field.text? ≠ some "rules" →
      field.text? ≠ some "args" → WellFormed S isName isPlain .operand value →
      WellFormed S isName isPlain (.field field) value
  | argument (name value : Value) : isName name → WellFormed S isName isPlain .operand value →
      WellFormed S isName isPlain .argument (.tuple [name, value])
  | nested (value : Value) : WellFormed S isName isPlain .tree value →
      WellFormed S isName isPlain .operand value
  | plain (value : Value) : isPlain value → WellFormed S isName isPlain .operand value

/-- A way from building to loading. The values that pass arrive as `φ` says: names, lists and pairs
stay what they are, and a record keeps its entries under their names. -/
structure CarriesRecords (φ : Value → Value) (passes : Value → Prop) : Prop where
  text : ∀ s, φ (.str s) = .str s
  list : ∀ items, φ (.list items) = .list (items.map φ)
  pair : ∀ a b, (φ (.tuple [a, b])).items? = some [φ a, φ b]
  record : ∀ t fields values, AreFieldNames fields → values.length = fields.length →
    ∃ entries, φ (.dict ((.str "type", .str t) :: fields.zip values)) = .dict entries ∧
      (entries.map fun e => (e.1.name, e.2)).Perm
        (("type", .str t) :: List.zip (fields.map Value.name) (values.map φ))
  passes_list : ∀ items, (∀ item ∈ items, passes item) → passes (.list items)
  passes_pair : ∀ a b, passes a → passes b → passes (.tuple [a, b])
  passes_record : ∀ t fields values, AreFieldNames fields → values.length = fields.length →
    (∀ value ∈ values, passes value) → passes (.dict ((.str "type", .str t) :: fields.zip values))

/-- Records may be left alone. -/
lemma carriesRecords_id : CarriesRecords id fun _ => True where
  text _ := rfl
  list items := by rw [List.map_id]; rfl
  pair a b := rfl
  record t fields values hnames hlength := by
    refine ⟨_, rfl, ?_⟩
    rw [List.map_cons, name_type, List.map_id, List.zip_map_left]
    rfl
  passes_list _ _ := trivial
  passes_pair _ _ _ _ := trivial
  passes_record _ _ _ _ _ _ := trivial

lemma exportsTree_of_isNode (v : Value) (h : v.isNode = true) : v.exportsTree = true := by
  unfold Value.isNode at h
  split at h
  · rfl
  · cases h

section Round

variable {S : Schema} {strict : Bool} {φ : Value → Value} {passes isName isPlain : Value → Prop}

lemma fieldParts_single (t : String) (field value : Value) (h : isWrapped field value = false) :
    fieldParts t [field] (built S (payload [value])) = .ok ([value].map (built S)) := by
  have hbuilt : isWrapped field (built S value).value = false := by rw [value_built, h]
  change Except.ok (if isWrapped field (built S value).value then _ else _) = _
  rw [hbuilt]
  rfl

lemma fieldParts_wrapped (type : String) (field payload inner : Value)
    (hwrapped : isWrapped field payload = true) (hinner : payload.items? = some [inner]) :
    fieldParts type [field] (built S payload) = .ok [built S inner] := by
  change Except.ok (if isWrapped field (built S payload).value then _ else _) = _
  rw [value_built, if_pos hwrapped, items_built S payload _ hinner]
  rfl

lemma fieldParts_several (t : String) (fields values : List Value) (hcount : fields.length ≠ 1)
    (hlength : values.length = fields.length) :
    fieldParts t fields (built S (payload values)) = .ok (values.map (built S)) := by
  rw [payload_several values (by rw [hlength]; exact hcount)]
  unfold fieldParts
  split
  · exact absurd rfl hcount
  · rw [items_built S _ values rfl, value_built, if_pos]
    exact ⟨rfl, by rw [List.length_map, hlength]⟩

lemma ofNode_of_fieldValues (t : String) (fields values xs : List Value)
    (ht : (Value.str t).name = t) (hfields : S.fields? (.str t) = some fields)
    (hnames : AreFieldNames fields)
    (hparts : fieldParts t fields (built S (payload values)) = .ok (values.map (built S)))
    (hxs : List.Forall₂ (fun p x => fieldValue t p.1 (built S p.2) = .ok x) (fields.zip values) xs) :
    ofNode S (.node (.str t) (payload values)) =
      .ok (.dict ((.str "type", .str t) :: fields.zip xs)) := by
  have hbuilt : (fields.zip (values.map (built S))).mapM (fun p => fieldValue t p.1 p.2) = .ok xs := by
    rw [mapM_ok, List.zip_map_right, List.forall₂_map_left_iff]
    exact hxs
  change ofPair S (.str t) (built S (payload values)) = _
  rw [ofPair_eq S (.str t) _ fields hfields hnames, ht, hparts, ok_bind, hbuilt]
  rfl

lemma isWrapped_bare (field value : Value)
    (h : ∀ inner, value ≠ .list [inner] ∧ value ≠ .tuple [inner]) : isWrapped field value = false := by
  unfold isWrapped
  split
  · next inner => exact absurd rfl (h inner).1
  · next inner => exact absurd rfl (h inner).2
  · rfl

lemma isWrapped_trees (field : Value) (values : List Value) (hfield : field.text? = some "rules")
    (h : ∀ value ∈ values, value.isNode = true) : isWrapped field (.list values) = false := by
  unfold isWrapped
  split
  · next inner heq =>
    obtain rfl := Value.list.inj heq
    have hnode := h inner List.mem_cons_self
    rw [if_pos hfield]
    cases inner <;> first | rfl | cases hnode
  · next heq => cases heq
  · rfl

lemma load_carried (hφ : CarriesRecords φ passes) (t : String) (fields values : List Value)
    (hfields : S.fields? (.str t) = some fields) (ht : (Value.str t).name = t)
    (hnames : AreFieldNames fields) (hlength : values.length = fields.length) :
    load S strict (φ (.dict ((.str "type", .str t) :: fields.zip values))) =
      (do
        let loadedValues ← Loading.all
          (List.zipWith (fun field x => loadField t field (loaded S strict (φ x))) fields values)
        pure (.node (.str t) (payload loadedValues))) := by
  obtain ⟨entries, hentries, hperm⟩ := hφ.record t fields values hnames hlength
  rw [hentries, load_record S strict t (.str t) fields (values.map φ) entries hfields ht hnames
    (by rw [List.length_map, hlength]) hperm, List.zipWith_map_right]

/-- What it is for a value to come back from its record: at the place of a tree a node is built,
passes and loads as itself, and so on for the other places. -/
def ComesBack (S : Schema) (strict : Bool) (φ : Value → Value) (passes : Value → Prop) :
    Place → Value → Prop
  | .tree, v => v.isNode = true ∧
      ∃ x, ofNode S v = .ok x ∧ passes x ∧ load S strict (φ x) = pure v
  | .field field, v => ∀ type, ∃ x, fieldValue type field (built S v) = .ok x ∧ passes x ∧
      loadField type field (loaded S strict (φ x)) = pure v
  | .argument, v => ∃ x name y value, v = .tuple [name, value] ∧ argument (built S v) = .ok x ∧
      passes x ∧ (φ x).items? = some [name, y] ∧ load S strict y = pure value
  | .operand, v => ∃ x, (if v.exportsTree then ofNode S v else .ok v) = .ok x ∧ passes x ∧
      load S strict (φ x) = pure v

lemma comesBack_fields (type : String) (fields values : List Value)
    (hlength : values.length = fields.length)
    (h : ∀ p ∈ fields.zip values, ComesBack S strict φ passes (.field p.1) p.2) :
    ∃ xs : List Value, xs.length = fields.length ∧
      List.Forall₂ (fun p x => fieldValue type p.1 (built S p.2) = .ok x) (fields.zip values) xs ∧
      (∀ x ∈ xs, passes x) ∧
      Loading.all (List.zipWith (fun field x => loadField type field (loaded S strict (φ x)))
        fields xs) = pure values := by
  induction fields generalizing values with
  | nil =>
    obtain rfl := List.length_eq_zero_iff.mp hlength
    exact ⟨[], rfl, .nil, by simp, rfl⟩
  | cons field fields ih =>
    cases values with
    | nil => simp at hlength
    | cons value values =>
      obtain ⟨x, hx, hpass, hload⟩ := h (field, value) List.mem_cons_self type
      obtain ⟨xs, hxs, hbuilt, hpasses, hall⟩ := ih values (by simpa using hlength)
        fun p hp => h p (List.mem_cons_of_mem _ hp)
      refine ⟨x :: xs, by rw [List.length_cons, List.length_cons, hxs], .cons hx hbuilt,
        List.forall_mem_cons.mpr ⟨hpass, hpasses⟩, ?_⟩
      rw [List.zipWith_cons_cons, Loading.all, hload, hall]
      rfl

lemma comesBack_tree (hφ : CarriesRecords φ passes) (t : String) (fields values : List Value)
    (ht : (Value.str t).name = t) (hfields : S.fields? (.str t) = some fields)
    (hnames : AreFieldNames fields) (hlength : values.length = fields.length)
    (hparts : fieldParts t fields (built S (payload values)) = .ok (values.map (built S)))
    (h : ∀ p ∈ fields.zip values, ComesBack S strict φ passes (.field p.1) p.2) :
    ComesBack S strict φ passes .tree (.node (.str t) (payload values)) := by
  obtain ⟨xs, hxs, hbuilt, hpasses, hall⟩ := comesBack_fields t fields values hlength h
  refine ⟨rfl, .dict ((.str "type", .str t) :: fields.zip xs),
    ofNode_of_fieldValues t fields values xs ht hfields hnames hparts hbuilt,
    hφ.passes_record t fields xs hnames hxs hpasses, ?_⟩
  rw [load_carried hφ t fields xs hfields ht hnames hxs, hall]
  rfl

lemma comesBack_single (hφ : CarriesRecords φ passes) (t : String) (field value : Value)
    (ht : (Value.str t).name = t) (hfields : S.fields? (.str t) = some [field])
    (hnames : AreFieldNames [field]) (hwrapped : isWrapped field value = false)
    (h : ComesBack S strict φ passes (.field field) value) :
    ComesBack S strict φ passes .tree (.node (.str t) value) := by
  apply comesBack_tree hφ t [field] [value] ht hfields hnames rfl
    (fieldParts_single t field value hwrapped)
  intro p hp
  obtain rfl := List.mem_singleton.mp hp
  exact h

lemma comesBack_several (hφ : CarriesRecords φ passes) (t : String) (fields values : List Value)
    (ht : (Value.str t).name = t) (hfields : S.fields? (.str t) = some fields)
    (hnames : AreFieldNames fields) (hcount : fields.length ≠ 1)
    (hlength : values.length = fields.length)
    (h : ∀ p ∈ fields.zip values, ComesBack S strict φ passes (.field p.1) p.2) :
    ComesBack S strict φ passes .tree (.node (.str t) (.tuple values)) := by
  rw [← payload_several values (by rw [hlength]; exact hcount)]
  exact comesBack_tree hφ t fields values ht hfields hnames hlength
    (fieldParts_several t fields values hcount hlength) h

/-- Trees one after another are built and load again. -/
lemma comesBack_trees (values : List Value)
    (h : ∀ v ∈ values, ComesBack S strict φ passes .tree v) :
    ∃ xs : List Value, values.mapM (ofNode S) = .ok xs ∧ (∀ x ∈ xs, passes x) ∧
      Loading.all ((xs.map φ).map (load S strict)) = pure values := by
  induction values with
  | nil => exact ⟨[], rfl, by simp, rfl⟩
  | cons value values ih =>
    obtain ⟨-, x, hx, hpass, hload⟩ := h value List.mem_cons_self
    obtain ⟨xs, hxs, hpasses, hall⟩ := ih fun v hv => h v (List.mem_cons_of_mem _ hv)
    refine ⟨x :: xs, ?_, List.forall_mem_cons.mpr ⟨hpass, hpasses⟩, ?_⟩
    · rw [List.mapM_cons, hx, ok_bind, hxs, ok_bind]
      rfl
    · rw [List.map_cons, List.map_cons, Loading.all, hload, hall]
      rfl

lemma comesBack_rules (hφ : CarriesRecords φ passes) (field : Value) (values : List Value)
    (hfield : field.text? = some "rules") (h : ∀ v ∈ values, ComesBack S strict φ passes .tree v) :
    ComesBack S strict φ passes (.field field) (.list values) := by
  intro type
  obtain ⟨xs, hxs, hpasses, hall⟩ := comesBack_trees values h
  refine ⟨.list xs, fieldValue_trees_ok S type field values xs hfield ((mapM_ok _ _ _).mp hxs),
    hφ.passes_list xs hpasses, ?_⟩
  have hnodes : isNodeSequence (.list values) = true :=
    List.all_eq_true.mpr fun v hv => (h v hv).1
  rw [loadField_rules _ _ _ hfield, made_loaded, hφ.list, load_list, hall, pure_bind, pure_bind,
    if_pos hnodes]

lemma comesBack_args (hφ : CarriesRecords φ passes) (field : Value) (values : List Value)
    (hfield : field.text? = some "args") (h : ∀ v ∈ values, ComesBack S strict φ passes .argument v) :
    ComesBack S strict φ passes (.field field) (.list values) := by
  intro type
  have hlist (index : Nat) : ∃ xs : List Value,
      List.Forall₂ (fun v x => argument (built S v) = .ok x) values xs ∧ (∀ x ∈ xs, passes x) ∧
      loadArguments type index ((xs.map φ).map (loaded S strict)) = pure values := by
    induction values generalizing index with
    | nil => exact ⟨[], .nil, by simp, rfl⟩
    | cons value values ih =>
      obtain ⟨x, name, y, value, rfl, hx, hpass, hpair, hload⟩ := h value List.mem_cons_self
      obtain ⟨xs, hxs, hpasses, hall⟩ :=
        ih (fun v hv => h v (List.mem_cons_of_mem _ hv)) (index + 1)
      refine ⟨x :: xs, .cons hx hxs, List.forall_mem_cons.mpr ⟨hpass, hpasses⟩, ?_⟩
      rw [List.map_cons, List.map_cons, loadArguments, value_loaded,
        items_loaded S strict _ _ hpair, hpair]
      simp only [List.map_cons, List.map_nil]
      rw [made_loaded, hload, hall, value_loaded]
      rfl
  obtain ⟨xs, hxs, hpasses, hall⟩ := hlist 0
  refine ⟨.list xs, fieldValue_arguments_ok S type field values xs hfield hxs,
    hφ.passes_list xs hpasses, ?_⟩
  rw [hφ.list, loadField_args _ _ _ _ hfield (by rw [value_loaded]; rfl),
    items_loaded S strict _ _ rfl, hall]
  rfl

lemma isWrapped_of_wellFormed (field value : Value)
    (h : WellFormed S isName isPlain (.field field) value)
    (hbare : field.text? = some "rule" ∨ field.text? = some "rules" ∨
      ∀ inner, value ≠ .list [inner] ∧ value ≠ .tuple [inner]) : isWrapped field value = false := by
  cases h with
  | rule _ _ _ htree => cases htree <;> rfl
  | rules _ values hfield htrees =>
    apply isWrapped_trees field values hfield
    intro value hvalue
    cases htrees value hvalue <;> rfl
  | args _ _ hfield _ => exact isWrapped_bare field _ (by simpa [hfield] using hbare)
  | other _ _ hrule hrules _ _ => exact isWrapped_bare field _ (by simpa [hrule, hrules] using hbare)

/-- What is well-formed comes back, where names and plain operands do. -/
theorem comesBack_of_wellFormed (hφ : CarriesRecords φ passes)
    (htypes : ∀ t ∈ S.types, (Value.str t).name = t)
    (hfields : ∀ entry ∈ S.table, AreFieldNames entry.2)
    (hname : ∀ name, isName name → passes name ∧ φ name = name)
    (hplain : ∀ v, isPlain v →
      v.exportsTree = false ∧ passes v ∧ load S strict (φ v) = pure v)
    (place : Place) (v : Value) (h : WellFormed S isName isPlain place v) :
    ComesBack S strict φ passes place v := by
  have hnames := areFieldNames_of_fields? hfields
  -- By induction on the form: what comes back from the parts comes back from the whole.
  induction h with
  | single t field value ht hschema hvalue hbare ih =>
    exact comesBack_single hφ t field value (htypes t ht) hschema (hnames _ _ hschema)
      (isWrapped_of_wellFormed field value hvalue hbare) ih
  | several t fields values ht hschema hcount hlength _ ih =>
    exact comesBack_several hφ t fields values (htypes t ht) hschema (hnames _ _ hschema) hcount
      hlength ih
  | rule field value hfield _ ih =>
    intro type
    obtain ⟨hnode, x, hx, hpass, hload⟩ := ih
    refine ⟨x, by rw [fieldValue_rule _ _ _ hfield, made_built, hx], hpass, ?_⟩
    rw [loadField_rule _ _ _ hfield, made_loaded, hload, pure_bind, if_pos hnode]
  | rules field values hfield _ ih => exact comesBack_rules hφ field values hfield ih
  | args field values hfield _ ih => exact comesBack_args hφ field values hfield ih
  | other field value hrule hrules hargs _ ih =>
    intro type
    obtain ⟨x, hx, hpass, hload⟩ := ih
    refine ⟨x, ?_, hpass, ?_⟩
    · rw [fieldValue_other S _ _ _ hrule hrules fun h => absurd h hargs, hx]
    · rw [loadField_other _ _ _ hargs hrule hrules, made_loaded, hload]
  | argument name value hisName _ ih =>
    obtain ⟨x, hx, hpass, hload⟩ := ih
    refine ⟨.tuple [name, x], name, φ x, value, rfl, argument_tuple S name value x hx,
      hφ.passes_pair name x (hname name hisName).1 hpass, ?_, hload⟩
    rw [hφ.pair, (hname name hisName).2]
  | nested value _ ih =>
    obtain ⟨hnode, x, hx, hpass, hload⟩ := ih
    refine ⟨x, ?_, hpass, hload⟩
    rw [if_pos (exportsTree_of_isNode value hnode), hx]
  | plain value hvalue =>
    obtain ⟨hexports, hpass, hload⟩ := hplain value hvalue
    exact ⟨value, by rw [if_neg (by simp [hexports])], hpass, hload⟩

end Round

end Rulebook.Proofs
