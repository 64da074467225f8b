import Mathlib
import Rulebook.Proofs.Pipeline.Reload
import Rulebook.Proofs.Record.CanonicalForm
import Rulebook.Proofs.Record.Invariants

/-!
# Tags

The name of a tag is its own name. So the nodes that loading makes and the records that building makes
have tags in canonical spelling, and the schema finds the same fields for them as for the tags that they
were made of.
-/

namespace Rulebook.Proofs
open Record

/-- The name of a tag, which is its own name and stands for the same fields as the tag. -/
structure IsTag (S : Schema) (tag : Value) (t : String) (fields : List Value) : Prop where
  isName : tag.name = t
  canonical : (Value.str t).name = t
  declared : S.fields? tag = some fields
  found : S.fields? (.str t) = some fields

lemma isTag_name (S : Schema) (tag : Value) (fields : List Value) (h : S.fields? tag = some fields) :
    IsTag S tag tag.name fields :=
  ⟨rfl, name_str_name tag, h, (fields?_name S tag).trans h⟩

/-- A type of a schema is the name of a tag, and its fields are those found for it. -/
lemma isTag_of_mem_table (table : Entries) (S : Schema) (hS : Schema.ofTable? table = some S)
    (t : String) (fields : List Value) (h : (t, fields) ∈ S.table) : IsTag S (.str t) t fields := by
  have ht : (Value.str t).name = t :=
    name_of_mem_types table S hS t (List.mem_map_of_mem h)
  have hfields : S.fields? (.str t) = some fields := by
    unfold Schema.fields?
    rw [ht]
    exact lookup_of_mem S.table t fields (nodup_types table S hS) h
  exact ⟨ht, ht, hfields, hfields⟩

/-! ## Nodes -/

/-- The node of a record: the name of its type as the tag, and a value for each field. -/
def IsNodeOf (S : Schema) (entries : Entries) (tag payload : Value) : Prop :=
  ∃ spelled t fields values, ("type", spelled) ∈ entries.map (fun e => (e.1.name, e.2)) ∧
    tag = .str t ∧ IsTag S spelled t fields ∧ values.length = fields.length ∧
    payload = Record.payload values

/-- A node stands in a value already, or is the node of a record that does. -/
def ComesFrom (S : Schema) (v tag payload : Value) : Prop :=
  Occurs (.node tag payload) v ∨ ∃ entries, Occurs (.dict entries) v ∧ IsNodeOf S entries tag payload

/-- Every node in `w` comes from `v`. -/
def NodesComeFrom (S : Schema) (v w : Value) : Prop :=
  ∀ tag payload, Occurs (.node tag payload) w → ComesFrom S v tag payload

section Nodes

variable {S : Schema} {strict : Bool}

lemma comesFrom_of_occurs {v w tag payload : Value} (hvw : Occurs v w)
    (h : ComesFrom S v tag payload) : ComesFrom S w tag payload := by
  rcases h with h | ⟨entries, h, hnode⟩
  · exact .inl (occurs_trans h hvw)
  · exact .inr ⟨entries, occurs_trans h hvw, hnode⟩

lemma nodesComeFrom_same (v : Value) : NodesComeFrom S v v := fun _ _ h => .inl h

lemma nodesComeFrom_undefined (v : Value) : NodesComeFrom S v .undefined := by
  intro tag payload h
  cases occurs_atom _ _ h rfl (by simp)

/-- The nodes of a sequence come from the values that its items come from. -/
lemma nodesComeFrom_items {v w : Value} {items values : List Value} (hv : v.items? = some items)
    (hw : w.items? = some values) (hnode : w.isNode = false)
    (h : List.Forall₂ (NodesComeFrom S) items values) : NodesComeFrom S v w := by
  intro tag payload hoccurs
  have hne : Value.node tag payload ≠ w := by
    rintro rfl
    cases hnode
  obtain ⟨value, hvalue, hoccurs⟩ := occurs_items _ w values hw hoccurs hne
  have hall : ∀ value ∈ values, ∃ item ∈ items, NodesComeFrom S item value :=
    forall_right_of_forall₂ (fun item hitem _ hfrom => ⟨item, hitem, hfrom⟩) h
  obtain ⟨item, hitem, hfrom⟩ := hall value hvalue
  exact comesFrom_of_occurs (.item v items item hv hitem .self) (hfrom tag payload hoccurs)

/-- What it is for the nodes of a loaded value to come from the value, at its place. -/
def NodesComeAsSaid (S : Schema) (strict : Bool) : Place → Value → Prop
  | .tree, v => ∀ w, (load S strict v).result = .ok w → NodesComeFrom S v w
  | .field field, v => ∀ type w, (loadField type field (loaded S strict v)).result = .ok w →
      NodesComeFrom S v w
  | .argument, v => ∀ name value w, v.items? = some [name, value] →
      (load S strict value).result = .ok w → NodesComeFrom S v (.tuple [name, w])
  | .operand, v => ∀ w, (load S strict v).result = .ok w → NodesComeFrom S v w

lemma nodesComeFrom_loaded {v w : Value} {items values : List Value} (hv : v.items? = some items)
    (hw : w.items? = some values) (hnode : w.isNode = false)
    (hitems : ∀ item ∈ items, ∀ w, (load S strict item).result = .ok w → NodesComeFrom S item w)
    (h : List.Forall₂ (fun item value => (load S strict item).result = .ok value) items values) :
    NodesComeFrom S v w :=
  nodesComeFrom_items hv hw hnode (forall₂_imp_mem hitems h)

lemma isNodeOf_record (entries : Entries) (tag : Value) (fields values : List Value)
    (htag : ("type", tag) ∈ entries.map fun e => (e.1.name, e.2))
    (hfields : S.fields? tag = some fields) (hlength : values.length = fields.length) :
    IsNodeOf S entries (.str tag.name) (payload values) :=
  ⟨tag, tag.name, fields, values, htag, rfl, isTag_name S tag fields hfields, hlength, rfl⟩

/-- The node of a record, and the nodes in the values of its fields. -/
lemma nodesComeAsSaid_record (entries : Entries) (tag : Value) (fields : List Value)
    (raw : Value → Value) (hnodup : (entries.map fun e => e.1.name).Nodup)
    (htag : ("type", tag) ∈ entries.map fun e => (e.1.name, e.2))
    (hfields : S.fields? tag = some fields)
    (hentry : ∀ field ∈ fields, IsEntry entries field (raw field))
    (ih : ∀ field ∈ fields, NodesComeAsSaid S strict (.field field) (raw field)) :
    NodesComeAsSaid S strict .tree (.dict entries) := by
  intro w hw
  obtain ⟨values, rfl, hvalues⟩ :=
    load_record_entries entries tag fields raw w hnodup htag hfields hentry hw
  have hfrom : ∀ value ∈ values, NodesComeFrom S (.dict entries) value := by
    refine forall_right_of_forall₂ ?_ hvalues
    intro field hfield value hload tag' payload' hoccurs
    exact comesFrom_of_occurs (occurs_isEntry (hentry field hfield))
      (ih field hfield tag.name value hload tag' payload' hoccurs)
  intro tag' payload' hoccurs
  rcases occurs_of_occurs_node tag' payload' _ _ hoccurs with ⟨rfl, rfl⟩ | hoccurs
  · exact .inr ⟨entries, .self,
      isNodeOf_record entries tag fields values htag hfields hvalues.length_eq.symm⟩
  · rcases payload_cases fields values hvalues.length_eq.symm with ⟨-, value, -, rfl⟩ | ⟨-, htuple⟩
    · exact hfrom value List.mem_cons_self tag' payload' hoccurs
    · rw [htuple] at hoccurs
      obtain ⟨value, hvalue, hoccurs⟩ := occurs_items _ _ values rfl hoccurs (by simp)
      exact hfrom value hvalue tag' payload' hoccurs

/-- The nodes of a loaded value come from the value, by induction on the grammar of what loads. -/
lemma nodesComeAsSaid (place : Place) (v : Value) (h : Loadable S strict place v) :
    NodesComeAsSaid S strict place v := by
  induction h with
  | scalar v hdict hlist htuple =>
    intro w hw
    rw [load_scalar S strict v hdict hlist htuple, result_pure] at hw
    subst hw
    split
    · exact nodesComeFrom_undefined v
    · exact nodesComeFrom_same v
  | list items _ ih =>
    intro w hw
    obtain ⟨values, hvalues, rfl⟩ := (load_list_ok S strict items w).mp hw
    exact nodesComeFrom_loaded rfl rfl rfl ih hvalues
  | tuple items _ ih =>
    intro w hw
    obtain ⟨values, hvalues, rfl⟩ := (load_tuple_ok S strict items w).mp hw
    exact nodesComeFrom_loaded rfl rfl rfl ih hvalues
  | empty =>
    intro w hw
    obtain rfl := Except.ok.inj hw
    exact nodesComeFrom_undefined _
  | nested v _ ih => exact ih
  | record entries tag fields raw hnodup htag hfields _ hentry _ ih =>
    exact nodesComeAsSaid_record entries tag fields raw hnodup htag hfields hentry ih
  | node tag payload =>
    intro w hw
    obtain rfl := Except.ok.inj hw
    exact nodesComeFrom_same _
  | rule field v hfield _ ih =>
    intro type w hw
    obtain ⟨hload, -⟩ := (loadField_rule_ok S strict type field v w hfield).mp hw
    exact ih w hload
  | rules field v items hfield hitems _ ih =>
    intro type w hw
    obtain ⟨hload, -⟩ := (loadField_rules_ok S strict type field v w hfield).mp hw
    rcases hitems with rfl | rfl
    · obtain ⟨values, hvalues, rfl⟩ := (load_list_ok S strict items w).mp hload
      exact nodesComeFrom_loaded rfl rfl rfl ih hvalues
    · obtain ⟨values, hvalues, rfl⟩ := (load_tuple_ok S strict items w).mp hload
      exact nodesComeFrom_loaded rfl rfl rfl ih hvalues
  | pair field tag payload hfield =>
    intro type w hw
    obtain ⟨hload, -⟩ := (loadField_rules_ok S strict type field _ w hfield).mp hw
    obtain rfl := Except.ok.inj hload
    exact nodesComeFrom_same _
  | args field v items hfield hitems _ ih =>
    intro type w hw
    obtain ⟨values, hvalues, rfl⟩ :=
      (loadField_args_ok S strict type field v w items hfield hitems).mp hw
    refine nodesComeFrom_items hitems rfl rfl (forall₂_imp_mem ?_ hvalues)
    rintro item hitem _ ⟨name, value, w, hpair, hload, rfl⟩
    exact ih item hitem name value w hpair hload
  | other field v hrule hrules hargs _ ih =>
    intro type w hw
    rw [loadField_other _ _ _ hargs hrule hrules] at hw
    exact ih w hw
  | argument v name value hpair _ ih =>
    intro name' value' w hpair' hload
    obtain ⟨rfl, rfl⟩ : name = name' ∧ value = value' := by
      simpa using hpair.symm.trans hpair'
    exact nodesComeFrom_items hpair rfl rfl (.cons (nodesComeFrom_same name) (.cons (ih w hload) .nil))

/-- Every node of a loaded value comes from the value. -/
theorem nodesComeFrom_of_load (v w : Value) (h : (load S strict v).result = .ok w) :
    NodesComeFrom S v w :=
  nodesComeAsSaid .operand v ((load_isOk_iff S strict v).mp ⟨w, h⟩) w h

/-- A record on its own is loaded as its node. -/
lemma isNodeOf_of_toNode (v w : Value) (h : (toNode S strict v).result = .ok w) :
    ∃ entries tag payload, v = .dict entries ∧ w = .node tag payload ∧
      IsNodeOf S entries tag payload := by
  obtain ⟨entries, rfl, hne, hload⟩ := load_of_toNode S strict v w h
  obtain ⟨hnodup, tag, fields, htag, hfields⟩ := type_of_load_record S strict entries hne w hload
  obtain ⟨values, rfl, hvalues⟩ := load_record_ok entries tag fields w hnodup htag hfields hload
  exact ⟨entries, _, _, rfl, rfl,
    isNodeOf_record entries tag fields values htag hfields hvalues.length_eq.symm⟩

end Nodes

/-! ## Records -/

/-- A value that stands in another one, or in a tree that a rule object in it exports. -/
inductive IsWithin (u : Value) : Value → Prop
  | occurs (v : Value) : Occurs u v → IsWithin u v
  | item (v : Value) (items : List Value) (item : Value) : v.items? = some items → item ∈ items →
      IsWithin u item → IsWithin u v
  | tree (ast : Value) : IsWithin u ast → IsWithin u (.rule ast)

/-- The record of a value that stands for a node: the name of its tag under `type`, and then a value for
each field. The tag stays in front, unless a field takes its key. -/
def IsRecordOf (S : Schema) (v : Value) (entries : Entries) : Prop :=
  ∃ spelled payload t fields values, nodeParts? v = some (spelled, payload) ∧
    IsTag S spelled t fields ∧ values.length = fields.length ∧
    entries = Entries.ofPairs ((.str "type", .str t) :: fields.zip values) ∧
    ((∀ field ∈ fields, field.text? ≠ some "type") → entries.head? = some (.str "type", .str t))

/-- Every mapping in `x` stands within `v` already, or is the record of a value that does. -/
def MappingsComeFrom (S : Schema) (v x : Value) : Prop :=
  ∀ entries, Occurs (.dict entries) x →
    IsWithin (.dict entries) v ∨ ∃ n, IsWithin n v ∧ IsRecordOf S n entries

section Records

variable {S : Schema}

lemma mappingsComeFrom_same (v : Value) : MappingsComeFrom S v v := fun _ h => .inl (.occurs v h)

lemma mappingsComeFrom_item {v item x : Value} {items : List Value} (hitems : v.items? = some items)
    (hitem : item ∈ items) (h : MappingsComeFrom S item x) : MappingsComeFrom S v x := by
  intro entries hoccurs
  rcases h entries hoccurs with h | ⟨n, hn, hrecord⟩
  · exact .inl (.item v items item hitems hitem h)
  · exact .inr ⟨n, .item v items item hitems hitem hn, hrecord⟩

lemma mappingsComeFrom_treeOf {v x : Value} (h : MappingsComeFrom S (treeOf v) x) :
    MappingsComeFrom S v x := by
  cases v with
  | rule ast =>
    intro entries hoccurs
    rcases h entries hoccurs with h | ⟨n, hn, hrecord⟩
    · exact .inl (.tree ast h)
    · exact .inr ⟨n, .tree ast hn, hrecord⟩
  | _ => exact h

lemma mappingsComeFrom_items {v x : Value} {xs : List Value} (hx : x.items? = some xs)
    (h : ∀ x ∈ xs, MappingsComeFrom S v x) : MappingsComeFrom S v x := by
  intro entries hoccurs
  have hne : Value.dict entries ≠ x := by
    rintro rfl
    cases hx
  obtain ⟨item, hitem, hoccurs⟩ := occurs_items _ x xs hx hoccurs hne
  exact h item hitem entries hoccurs

lemma isRecordOf_of_ofNode (v x : Value) (h : ofNode S v = .ok x) :
    ∃ entries, x = .dict entries ∧ IsRecordOf S v entries := by
  obtain ⟨tag, payload, fields, values, xs, hparts, hfields, -, hlength, -, hxs, rfl⟩ :=
    ofNode_ok v x h
  refine ⟨_, rfl, tag, payload, tag.name, fields, xs, hparts, isTag_name S tag fields hfields,
    length_of_fieldValues tag.name fields values xs hlength hxs, rfl, fun htype => ?_⟩
  apply head?_ofPairs
  intro p hp
  rw [equal_of_text? _ _ "type" rfl, beq_eq_false_iff_ne]
  exact htype p.1 (List.of_mem_zip hp).1

/-- What it is for the mappings of the record of a value to come from the value. -/
def MappingsComeAsSaid (S : Schema) (v : Value) : Prop :=
  ∀ x, ofNode S v = .ok x → MappingsComeFrom S v x

lemma mappingsComeFrom_operand (v x : Value) (ih : MappingsComeAsSaid S v)
    (hx : (if v.exportsTree then ofNode S v else .ok v) = .ok x) : MappingsComeFrom S v x := by
  split at hx
  · exact ih x hx
  · obtain rfl := Except.ok.inj hx
    exact mappingsComeFrom_same v

lemma mappingsComeFrom_argument (e x : Value)
    (ih : ∀ name value, e.items? = some [name, value] → MappingsComeAsSaid S value)
    (hx : argument (built S e) = .ok x) : MappingsComeFrom S e x := by
  by_cases hpair : ∃ name value, e.items? = some [name, value]
  · obtain ⟨name, value, hpair⟩ := hpair
    rw [argument_pair S e name value hpair] at hx
    split at hx
    · obtain ⟨record, hrecord, rfl⟩ := ok_of_map hx
      have hname : MappingsComeFrom S e name :=
        mappingsComeFrom_item hpair (by simp) (mappingsComeFrom_same name)
      have hvalue : MappingsComeFrom S e record :=
        mappingsComeFrom_item hpair (by simp) (ih name value hpair record hrecord)
      refine mappingsComeFrom_items rfl ?_
      exact List.forall_mem_cons.mpr ⟨hname, List.forall_mem_singleton.mpr hvalue⟩
    · obtain rfl := Except.ok.inj hx
      exact mappingsComeFrom_same e
  · rw [argument_other S e fun name value heq => hpair ⟨name, value, heq⟩] at hx
    obtain rfl := Except.ok.inj hx
    exact mappingsComeFrom_same e

/-- The value of a field, where the records of all values inside are known to be as said. -/
lemma mappingsComeFrom_field (type : String) (field v x : Value)
    (ih : ∀ u, sizeOf u ≤ sizeOf v → MappingsComeAsSaid S u)
    (hx : fieldValue type field (built S v) = .ok x) : MappingsComeFrom S v x := by
  by_cases hrule : field.text? = some "rule"
  · rw [fieldValue_rule _ _ _ hrule, made_built] at hx
    exact ih v le_rfl x hx
  by_cases hrules : field.text? = some "rules"
  · cases hitems : v.items? with
    | none =>
      rw [fieldValue_rules _ _ _ hrules, value_built, hitems] at hx
      cases hx
    | some items =>
      rw [fieldValue_trees S type field v items hrules hitems] at hx
      obtain ⟨xs, hxs, rfl⟩ := ok_of_map hx
      refine mappingsComeFrom_items rfl (forall_right_of_forall₂ ?_ ((mapM_ok _ items xs).mp hxs))
      intro item hitem x hx
      have hlt := sizeOf_item_lt v items hitems item hitem
      exact mappingsComeFrom_item hitems hitem (ih item hlt.le x hx)
  by_cases hargs : field.text? = some "args" ∧ v.items?.isSome = true
  · obtain ⟨items, hitems⟩ := Option.isSome_iff_exists.mp hargs.2
    rw [fieldValue_arguments S type field v items hargs.1 hitems] at hx
    obtain ⟨xs, hxs, rfl⟩ := ok_of_map hx
    refine mappingsComeFrom_items rfl (forall_right_of_forall₂ ?_ ((mapM_ok _ items xs).mp hxs))
    intro item hitem x hx
    have hlt := sizeOf_item_lt v items hitems item hitem
    refine mappingsComeFrom_item hitems hitem (mappingsComeFrom_argument item x ?_ hx)
    intro name value hpair
    exact ih value ((sizeOf_item_lt item _ hpair value (by simp)).le.trans hlt.le)
  · rw [fieldValue_other S _ _ _ hrule hrules] at hx
    · exact mappingsComeFrom_operand v x (ih v le_rfl) hx
    · intro hfield
      by_contra hitems
      exact hargs ⟨hfield, Option.isSome_iff_ne_none.mpr hitems⟩

/-- The values of a payload stand in it. -/
lemma mappingsComeFrom_payload (fields values : List Value) (payload : Value)
    (h : payloadValues? fields payload = some values) (value : Value) (hvalue : value ∈ values)
    (x : Value) (hx : MappingsComeFrom S value x) : MappingsComeFrom S payload x := by
  unfold payloadValues? at h
  split at h
  · split at h
    · exact mappingsComeFrom_item h hvalue hx
    · obtain rfl := Option.some.inj h
      obtain rfl := List.mem_singleton.mp hvalue
      exact hx
  · obtain ⟨hitems, -⟩ := Option.filter_eq_some_iff.mp h
    exact mappingsComeFrom_item hitems hvalue hx

lemma mappingsComeFrom_node (v tag payload x : Value) (h : nodeParts? v = some (tag, payload))
    (hx : MappingsComeFrom S payload x) : MappingsComeFrom S v x := by
  unfold nodeParts? at h
  split at h
  · next tag' payload' hitems =>
    obtain ⟨rfl, rfl⟩ := Prod.mk.inj (Option.some.inj h)
    exact mappingsComeFrom_treeOf (mappingsComeFrom_item hitems (by simp) hx)
  · cases h

/-- The mappings of a record come from the value that it was built of, by induction on its size. -/
theorem mappingsComeAsSaid (v : Value) : MappingsComeAsSaid S v := by
  generalize hsize : sizeOf v = n
  induction n using Nat.strong_induction_on generalizing v with
  | _ n ih =>
  intro x hx
  obtain ⟨record, rfl, hrecord⟩ := isRecordOf_of_ofNode v x hx
  obtain ⟨tag, payload, fields, values, xs, hparts, hfields, hvalues, hlength, hkeys, hxs, heq⟩ :=
    ofNode_ok v _ hx
  obtain rfl := Value.dict.inj heq
  have hlt := nodeParts_lt v tag payload hparts
  have hle := payloadValues_le fields values payload hvalues
  have hfrom : ∀ x ∈ xs, MappingsComeFrom S v x := by
    refine forall_right_of_forall₂ ?_ hxs
    intro p hp x hx
    have hvalue := (List.of_mem_zip hp).2
    have hinner : ∀ u, sizeOf u ≤ sizeOf p.2 → MappingsComeAsSaid S u := by
      intro u hu
      have hp := hle p.2 hvalue
      exact ih (sizeOf u) (by omega) u rfl
    exact mappingsComeFrom_node v tag payload x hparts
      (mappingsComeFrom_payload fields values payload hvalues p.2 hvalue x
        (mappingsComeFrom_field tag.name p.1 p.2 x hinner hx))
  -- A mapping in the record is the record itself or stands in the value of a field: keys hold none.
  intro entries hoccurs
  cases hoccurs with
  | self => exact .inr ⟨v, .occurs v .self, hrecord⟩
  | item _ _ _ hitems => cases hitems
  | key _ e he hoccurs =>
    obtain ⟨⟨p, hp, hkey⟩, -⟩ := exists_of_mem_ofPairs _ e he
    refine absurd hoccurs (not_occurs_dict_of_isKey entries e.1 ?_)
    rw [← hkey]
    rcases List.mem_cons.mp hp with rfl | hp
    · rfl
    · exact hkeys p.1 (List.of_mem_zip hp).1
  | value _ e he hoccurs =>
    obtain ⟨-, p, hp, hvalue⟩ := exists_of_mem_ofPairs _ e he
    rw [← hvalue] at hoccurs
    rcases List.mem_cons.mp hp with rfl | hp
    · cases occurs_atom _ _ hoccurs rfl (by simp)
    · exact hfrom p.2 (List.of_mem_zip hp).2 entries hoccurs

end Records

/-! ## Tags of a schema -/

/-- A name is its own name, and a schema finds the same fields for it. So each type of a schema is a tag,
with the fields of an entry of the table under its name. Every node that loading makes has such a tag and
a value for each of its fields, and so has every record that building makes. -/
theorem tag_invariants (table : Entries) (S : Schema) (hS : Schema.ofTable? table = some S) :
    (∀ v : Value, (Value.str v.name).name = v.name ∧ S.fields? (.str v.name) = S.fields? v) ∧
      (∀ t fields, (t, fields) ∈ S.table → IsTag S (.str t) t fields) ∧
      (∀ e ∈ table, ∃ e' ∈ table, e'.1.name = e.1.name ∧ ∃ fields, e'.2.elements? = some fields ∧
        IsTag S e.1 e.1.name fields) ∧
      (∀ strict v w, (load S strict v).result = .ok w → NodesComeFrom S v w) ∧
      (∀ strict v w, (toNode S strict v).result = .ok w →
        NodesComeFrom S v w ∧ ∃ entries tag payload, v = .dict entries ∧ w = .node tag payload ∧
          IsNodeOf S entries tag payload) ∧
      ∀ v x, ofNode S v = .ok x →
        MappingsComeFrom S v x ∧ ∃ entries, x = .dict entries ∧ IsRecordOf S v entries := by
  refine ⟨fun v => ⟨name_str_name v, fields?_name S v⟩, isTag_of_mem_table table S hS, fun e he => ?_,
    fun strict v w h => nodesComeFrom_of_load v w h, fun strict v w h => ?_, fun v x h => ?_⟩
  · obtain ⟨e', he', hname, fields, helements, hfields⟩ := fields?_of_mem table S hS e he
    exact ⟨e', he', hname, fields, helements, isTag_name S e.1 fields hfields⟩
  · obtain ⟨entries, rfl, -, hload⟩ := load_of_toNode S strict v w h
    exact ⟨nodesComeFrom_of_load _ w hload, isNodeOf_of_toNode _ w h⟩
  · exact ⟨mappingsComeAsSaid v x h, isRecordOf_of_ofNode v x h⟩

/-! ## A type in capital letters -/

/-- A table of one type, whose last letter has two small forms. -/
def roadTable : Entries := [(.str " ΟΔΟΣ ", .tuple [.str "from", .str "to"])]

def roadSchema : Schema := ⟨[("οδος", [.str "from", .str "to"])]⟩

/-- A road, its type and its fields in another spelling and order. -/
def roadRecord : Entries := [(.str "Type", .str "Οδος"), (.str "to", .int 2), (.str "FROM", .int 1)]

def roadPair : Value := .tuple [.str "ΟΔΟΣ", .list [.int 1, .int 2]]

lemma name_road : (Value.str " ΟΔΟΣ ").name = "οδος" := by decide +kernel

lemma ofTable?_roadTable : Schema.ofTable? roadTable = some roadSchema := by
  change some (Schema.mk (Schema.declare (Value.str " ΟΔΟΣ ").name [.str "from", .str "to"] [])) = _
  rw [name_road]
  rfl

lemma eq_of_isTag_road (tag : Value) (t : String) (fields : List Value)
    (h : IsTag roadSchema tag t fields) : t = "οδος" ∧ fields = [.str "from", .str "to"] := by
  have hmem := mem_table_of_fields? roadSchema (.str t) fields h.found
  rw [h.canonical] at hmem
  exact Prod.mk.inj (List.mem_singleton.mp hmem)

/-- The node of the record and the record of the pair have one tag, which the schema finds. -/
theorem tag_invariants_road :
    Schema.ofTable? roadTable = some roadSchema ∧
      (∃ w, (toNode roadSchema true (.dict roadRecord)).result = .ok w ∧
        ∃ payload, w = .node (.str "οδος") payload) ∧
      (∃ entries, ofNode roadSchema roadPair = .ok (.dict entries) ∧
        entries.head? = some (.str "type", .str "οδος")) ∧
      (Value.str "οδος").name = "οδος" ∧
      roadSchema.fields? (.str "οδος") = some [.str "from", .str "to"] := by
  obtain ⟨-, htypes, -, -, hnodes, hrecords⟩ :=
    tag_invariants roadTable roadSchema ofTable?_roadTable
  have hroad := htypes "οδος" [.str "from", .str "to"] List.mem_cons_self
  obtain ⟨w, hw⟩ : ∃ w, (toNode roadSchema true (.dict roadRecord)).result = .ok w :=
    ok_of_isOk (by decide +kernel)
  obtain ⟨x, hx⟩ : ∃ x, ofNode roadSchema roadPair = .ok x := ok_of_isOk (by decide +kernel)
  refine ⟨ofTable?_roadTable, ⟨w, hw, ?_⟩, ?_, hroad.canonical, hroad.found⟩
  · obtain ⟨-, entries, tag, payload, heq, rfl, hnode⟩ := hnodes true _ w hw
    obtain rfl := Value.dict.inj heq
    obtain ⟨spelled, t, fields, values, -, rfl, htag, -⟩ := hnode
    obtain ⟨rfl, -⟩ := eq_of_isTag_road spelled t fields htag
    exact ⟨payload, rfl⟩
  · obtain ⟨-, entries, rfl, spelled, payload, t, fields, values, -, htag, -, -, hfront⟩ :=
      hrecords roadPair x hx
    obtain ⟨rfl, rfl⟩ := eq_of_isTag_road spelled t fields htag
    exact ⟨entries, hx, hfront (by simp [Value.text?])⟩

end Rulebook.Proofs
