import Mathlib
import Rulebook.Proofs.Record.WellFormed

/-!
# Values that stand for nodes

A node may be replaced by another value that stands for it, at whatever depth and with further
replacements inside its payload. Where the replacement takes a node for a node, so does the record of
the whole.
-/

namespace Rulebook.Proofs
open Record

/-- The second value is the first one with nodes replaced: a node with a tag and a payload may become
any value that is a form of that tag and payload, given as the relation `isForm`. Operands that export
a tree are replaced by operands that export one. -/
inductive StandsFor (S : Schema) (isForm : Value → Value → Value → Prop) :
    Place → Value → Value → Prop
  | same (place : Place) (v : Value) : StandsFor S isForm place v v
  | form (tag payload payload' w : Value) :
      StandsFor S isForm .tree (.node tag payload) (.node tag payload') → isForm tag payload' w →
      StandsFor S isForm .tree (.node tag payload) w
  | single (tag field value value' : Value) : S.fields? tag = some [field] →
      StandsFor S isForm (.field field) value value' →
      StandsFor S isForm .tree (.node tag value) (.node tag value')
  | several (tag : Value) (fields values values' : List Value) : S.fields? tag = some fields →
      fields.length ≠ 1 → values.length = fields.length → values'.length = fields.length →
      (∀ p ∈ fields.zip (values.zip values'), StandsFor S isForm (.field p.1) p.2.1 p.2.2) →
      StandsFor S isForm .tree (.node tag (.tuple values)) (.node tag (.tuple values'))
  | rule (field v w : Value) : field.text? = some "rule" → StandsFor S isForm .tree v w →
      StandsFor S isForm (.field field) v w
  | rules (field : Value) (values values' : List Value) : field.text? = some "rules" →
      values'.length = values.length →
      (∀ p ∈ values.zip values', StandsFor S isForm .tree p.1 p.2) →
      StandsFor S isForm (.field field) (.list values) (.list values')
  | args (field : Value) (values values' : List Value) : field.text? = some "args" →
      values'.length = values.length →
      (∀ p ∈ values.zip values', StandsFor S isForm .argument p.1 p.2) →
      StandsFor S isForm (.field field) (.list values) (.list values')
  | other (field v w : Value) : field.text? ≠ some "rule" → field.text? ≠ some "rules" →
      field.text? ≠ some "args" → StandsFor S isForm .operand v w →
      StandsFor S isForm (.field field) v w
  | argument (name v w : Value) : StandsFor S isForm .operand v w →
      StandsFor S isForm .argument (.tuple [name, v]) (.tuple [name, w])
  | nested (v w : Value) : v.exportsTree = true → w.exportsTree = true →
      StandsFor S isForm .tree v w → StandsFor S isForm .operand v w

/-! ## Nodes -/

section Nodes

variable (S : Schema)

lemma ofTree_pair (tree tag payload : Value) (h : tree.items? = some [tag, payload]) :
    ofTree S tree (built S tree).items = ofPair S tag (built S payload) := by
  unfold ofTree
  rw [h, items_built S tree _ h]
  simp only [List.map_cons, List.map_nil, value_built]

/-- The record of what exports a pair, or is one, is that of its tag and its payload. -/
lemma ofNode_parts (v tag payload : Value) (h : (treeOf v).items? = some [tag, payload]) :
    ofNode S v = ofPair S tag (built S payload) := by
  have hv : ∀ text, v ≠ .brokenRule text := by
    rintro text rfl
    cases h
  rw [ofNode_eq_ofTree S v hv, ofTree_pair S (treeOf v) tag payload h]

lemma ofNode_pair (v tag payload : Value) (h : v.items? = some [tag, payload]) :
    ofNode S v = ofPair S tag (built S payload) := by
  apply ofNode_parts
  cases v <;> first | exact h | cases h

/-- The record of a node depends on what its fields hold. -/
lemma addFields_congr (type : String) (fields : List Value) (parts parts' : List Built)
    (record : Entries) (hlength : parts.length = fields.length)
    (hlength' : parts'.length = fields.length)
    (h : ∀ p ∈ fields.zip (parts.zip parts'),
      fieldValue type p.1 p.2.2 = fieldValue type p.1 p.2.1) :
    addFields type (fields.zip parts') record = addFields type (fields.zip parts) record := by
  induction fields generalizing parts parts' record with
  | nil => rfl
  | cons field fields ih =>
    obtain ⟨part, parts, rfl⟩ := List.exists_cons_of_length_eq_add_one hlength
    obtain ⟨part', parts', rfl⟩ := List.exists_cons_of_length_eq_add_one hlength'
    rw [List.zip_cons_cons, List.zip_cons_cons, List.forall_mem_cons] at h
    rw [List.zip_cons_cons, List.zip_cons_cons, addFields, addFields, h.1]
    congr 1
    funext value
    split
    · exact ih parts parts' _ (by simpa using hlength) (by simpa using hlength') h.2
    · rfl

lemma isWrapped_of_isNodeLike (field v : Value) (h : v.isNodeLike = true) :
    isWrapped field v = false := by
  apply isWrapped_bare
  rintro inner
  constructor <;>
  · rintro rfl
    cases h

lemma isWrapped_item (field inner : Value) (hfield : field.text? = some "rules")
    (h : inner.isNodeLike = true) : isWrapped field (.list [inner]) = false := by
  unfold isWrapped
  dsimp only
  rw [if_pos hfield, h, Bool.not_true, Bool.and_false]

end Nodes

/-! ## Values in their places -/

section Places

variable {S : Schema}

/-- What it is for two values to have the same record at their place. A payload on its own is not
taken for a wrapped one on either side, unless nothing has been replaced in it. -/
def BuildAlike (S : Schema) : Place → Value → Value → Prop
  | .tree, v, w => ofNode S w = ofNode S v ∧ (w = v ∨ v.isNodeLike = true ∧ w.isNodeLike = true)
  | .field field, v, w => (∀ type, fieldValue type field (built S w) = fieldValue type field (built S v)) ∧
      (field.text? = some "rule" ∨ field.text? = some "rules" →
        w = v ∨ isWrapped field v = false ∧ isWrapped field w = false)
  | .argument, v, w => argument (built S w) = argument (built S v)
  | .operand, v, w => (if w.exportsTree then ofNode S w else .ok w) =
      if v.exportsTree then ofNode S v else .ok v

lemma buildAlike_same (place : Place) (v : Value) : BuildAlike S place v v := by
  cases place with
  | tree => exact ⟨rfl, .inl rfl⟩
  | field field => exact ⟨fun type => rfl, fun _ => .inl rfl⟩
  | argument => rfl
  | operand => rfl

lemma buildAlike_single (tag field value value' : Value) (hfields : S.fields? tag = some [field])
    (hfield : field.text? = some "rule" ∨ field.text? = some "rules")
    (h : BuildAlike S (.field field) value value') :
    BuildAlike S .tree (.node tag value) (.node tag value') := by
  refine ⟨?_, .inr ⟨rfl, rfl⟩⟩
  obtain ⟨hvalue, hwrapped⟩ := h
  rcases hwrapped hfield with rfl | ⟨hv, hw⟩
  · rfl
  · have hparts (v : Value) (h : isWrapped field v = false) :
        fieldParts tag.name [field] (built S v) = .ok [built S v] :=
      fieldParts_single tag.name field v h
    rw [ofNode_pair S _ tag value' rfl, ofNode_pair S _ tag value rfl]
    unfold ofPair
    rw [hfields]
    dsimp only
    rw [hparts value hv, hparts value' hw, ok_bind, ok_bind,
      addFields_congr tag.name [field] [built S value] [built S value'] _ rfl rfl]
    intro p hp
    obtain rfl := List.mem_singleton.mp hp
    exact hvalue tag.name

lemma buildAlike_several (tag : Value) (fields values values' : List Value)
    (hfields : S.fields? tag = some fields) (hcount : fields.length ≠ 1)
    (hlength : values.length = fields.length) (hlength' : values'.length = fields.length)
    (h : ∀ p ∈ fields.zip (values.zip values'), BuildAlike S (.field p.1) p.2.1 p.2.2) :
    BuildAlike S .tree (.node tag (.tuple values)) (.node tag (.tuple values')) := by
  refine ⟨?_, .inr ⟨rfl, rfl⟩⟩
  have hparts (values : List Value) (hlength : values.length = fields.length) :
      fieldParts tag.name fields (built S (.tuple values)) = .ok (values.map (built S)) := by
    rw [← payload_several values (by rw [hlength]; exact hcount)]
    exact fieldParts_several tag.name fields values hcount hlength
  rw [ofNode_pair S _ tag _ rfl, ofNode_pair S _ tag _ rfl]
  unfold ofPair
  rw [hfields]
  dsimp only
  rw [hparts values hlength, hparts values' hlength', ok_bind, ok_bind,
    addFields_congr tag.name fields (values.map (built S)) (values'.map (built S)) _
      (by rw [List.length_map, hlength]) (by rw [List.length_map, hlength'])]
  intro p hp
  rw [List.zip_map, List.zip_map_right] at hp
  obtain ⟨q, hq, rfl⟩ := List.mem_map.mp hp
  exact (h q hq).1 tag.name

lemma buildAlike_rule (field v w : Value) (hfield : field.text? = some "rule")
    (h : BuildAlike S .tree v w) : BuildAlike S (.field field) v w := by
  obtain ⟨hnode, hlike⟩ := h
  refine ⟨?_, fun _ => hlike.imp_right ?_⟩
  · intro type
    rw [fieldValue_rule _ _ _ hfield, fieldValue_rule _ _ _ hfield]
    exact hnode
  · rintro ⟨hv, hw⟩
    exact ⟨isWrapped_of_isNodeLike field v hv, isWrapped_of_isNodeLike field w hw⟩

lemma buildAlike_rules (field : Value) (values values' : List Value)
    (hfield : field.text? = some "rules")
    (h : List.Forall₂ (fun v w => BuildAlike S .tree v w) values values') :
    BuildAlike S (.field field) (.list values) (.list values') := by
  refine ⟨?_, fun _ => ?_⟩
  · intro type
    have hmapM : values'.mapM (ofNode S) = values.mapM (ofNode S) :=
      mapM_congr_forall₂ _ _ _ (h.imp fun _ _ hvw => hvw.1)
    rw [fieldValue_trees S type field _ _ hfield rfl, fieldValue_trees S type field _ _ hfield rfl,
      hmapM]
  · cases h with
    | nil => exact .inr ⟨rfl, rfl⟩
    | cons hvw hrest =>
      cases hrest with
      | cons _ _ => exact .inr ⟨rfl, rfl⟩
      | nil =>
        rcases hvw.2 with rfl | ⟨hv, hw⟩
        · exact .inl rfl
        · exact .inr ⟨isWrapped_item field _ hfield hv, isWrapped_item field _ hfield hw⟩

lemma buildAlike_args (field : Value) (values values' : List Value)
    (hfield : field.text? = some "args")
    (h : List.Forall₂ (fun v w => BuildAlike S .argument v w) values values') :
    BuildAlike S (.field field) (.list values) (.list values') := by
  refine ⟨?_, fun hsingle => ?_⟩
  · intro type
    have hmapM : values'.mapM (fun v => argument (built S v)) =
        values.mapM fun v => argument (built S v) := mapM_congr_forall₂ _ _ _ h
    rw [fieldValue_arguments S type field _ _ hfield rfl,
      fieldValue_arguments S type field _ _ hfield rfl, hmapM]
  · simp [hfield] at hsingle

lemma buildAlike_other (field v w : Value) (hrule : field.text? ≠ some "rule")
    (hrules : field.text? ≠ some "rules") (hargs : field.text? ≠ some "args")
    (h : BuildAlike S .operand v w) : BuildAlike S (.field field) v w := by
  refine ⟨?_, fun hsingle => ?_⟩
  · intro type
    rw [fieldValue_other S _ _ _ hrule hrules fun h => absurd h hargs,
      fieldValue_other S _ _ _ hrule hrules fun h => absurd h hargs]
    exact h
  · exact absurd hsingle (not_or_intro hrule hrules)

lemma buildAlike_argument (name v w : Value) (h : BuildAlike S .operand v w) :
    BuildAlike S .argument (.tuple [name, v]) (.tuple [name, w]) := by
  have hpair (v : Value) : argument (built S (.tuple [name, v])) =
      (if v.exportsTree then ofNode S v else .ok v).map fun x => .tuple [name, x] := by
    rw [argument_pair S _ name v rfl]
    split <;> rfl
  change argument _ = argument _
  rw [hpair, hpair, h]

/-- Stand-ins have the records of the nodes that they stand for. -/
theorem buildAlike_of_standsFor {isForm : Value → Value → Value → Prop}
    (hform : ∀ tag payload w, isForm tag payload w →
      ofNode S w = ofNode S (.node tag payload) ∧ w.isNodeLike = true)
    (hsingle : SingleFieldsHoldNodes S)
    (place : Place) (v w : Value) (h : StandsFor S isForm place v w) : BuildAlike S place v w := by
  induction h with
  | same place v => exact buildAlike_same place v
  | form tag payload payload' w _ hw ih =>
    obtain ⟨hnode, hlike⟩ := hform tag payload' w hw
    exact ⟨hnode.trans ih.1, .inr ⟨rfl, hlike⟩⟩
  | single tag field value value' hfields _ ih =>
    have hfield := hsingle tag.name field ((fields?_name S tag).trans hfields)
    exact buildAlike_single tag field value value' hfields hfield ih
  | several tag fields values values' hfields hcount hlength hlength' _ ih =>
    exact buildAlike_several tag fields values values' hfields hcount hlength hlength' ih
  | rule field v w hfield _ ih => exact buildAlike_rule field v w hfield ih
  | rules field values values' hfield hlength _ ih =>
    exact buildAlike_rules field values values' hfield (forall₂_of_zip values values' hlength ih)
  | args field values values' hfield hlength _ ih =>
    exact buildAlike_args field values values' hfield (forall₂_of_zip values values' hlength ih)
  | other field v w hrule hrules hargs _ ih => exact buildAlike_other field v w hrule hrules hargs ih
  | argument name v w _ ih => exact buildAlike_argument name v w ih
  | nested v w hv hw _ ih =>
    change (if w.exportsTree then _ else _) = if v.exportsTree then _ else _
    rw [if_pos hv, if_pos hw]
    exact ih.1

end Places

end Rulebook.Proofs
