import Mathlib
import Rulebook.Proofs.Record.Grammar
import Rulebook.Proofs.Record.StandIns

/-!
# Payloads of rule expressions

What the fields of a type get from a payload. A type with two fields takes a sequence of two. A single
field takes the payload as it is, or the only item of a sequence that wraps it, and the list of `rules`
is told from a wrapped one by what its only item is.
-/

namespace Rulebook.Proofs
open Record

/-! ## What a field gets -/

/-- A sequence of one item that counts as a wrapped payload. For `rules` the item has to be a sequence
and nothing that can stand for a node. -/
def IsWrapping (field : String) (payload inner : Value) : Prop :=
  payload.items? = some [inner] ∧
    (field = "rules" → inner.items?.isSome = true ∧ inner.isNodeLike = false)

/-- The value that a payload gives to a single field. -/
inductive GivesField (field : String) (payload : Value) : Value → Prop
  | wrapped (inner : Value) : IsWrapping field payload inner → GivesField field payload inner
  | bare : (∀ inner, ¬IsWrapping field payload inner) → GivesField field payload payload

lemma isWrapped_iff (field : String) (payload : Value) :
    isWrapped (.str field) payload = true ↔ ∃ inner, IsWrapping field payload inner := by
  have hrule (inner : Value) :
      (if (Value.str field).text? = some "rules" then inner.items?.isSome && !inner.isNodeLike
        else true) = true ↔
      (field = "rules" → inner.items?.isSome = true ∧ inner.isNodeLike = false) := by
    by_cases hfield : field = "rules" <;> simp [Value.text?, hfield]
  unfold isWrapped IsWrapping
  constructor
  · intro h
    split at h
    · next inner => exact ⟨inner, rfl, (hrule inner).mp h⟩
    · next inner => exact ⟨inner, rfl, (hrule inner).mp h⟩
    · cases h
  · rintro ⟨inner, hitems, h⟩
    cases payload with
    | list items =>
      obtain rfl := Option.some.inj hitems
      exact (hrule inner).mpr h
    | tuple items =>
      obtain rfl := Option.some.inj hitems
      exact (hrule inner).mpr h
    | node tag payload => simp [Value.items?] at hitems
    | _ => cases hitems

lemma exists_givesField (field : String) (payload : Value) :
    ∃ value, GivesField field payload value := by
  by_cases h : ∃ inner, IsWrapping field payload inner
  · obtain ⟨inner, hinner⟩ := h
    exact ⟨inner, .wrapped inner hinner⟩
  · exact ⟨payload, .bare fun inner hinner => h ⟨inner, hinner⟩⟩

lemma sizeOf_givesField (field : String) (payload value : Value)
    (h : GivesField field payload value) : sizeOf value ≤ sizeOf payload := by
  cases h with
  | wrapped _ hinner => exact (sizeOf_item_lt payload _ hinner.1 value (by simp)).le
  | bare => exact le_rfl

/-! ## Records of pairs -/

section Pairs

variable (tag payload : Value)

lemma fieldParts_givesField (type field : String) (value : Value)
    (h : GivesField field payload value) :
    fieldParts type [.str field] (built .rules payload) = .ok [built .rules value] := by
  cases h with
  | wrapped _ hinner =>
    exact fieldParts_wrapped type _ payload value ((isWrapped_iff field payload).mpr ⟨_, hinner⟩)
      hinner.1
  | bare hbare =>
    refine fieldParts_single type _ payload (Bool.eq_false_iff.mpr fun hwrapped => ?_)
    obtain ⟨inner, hinner⟩ := (isWrapped_iff field payload).mp hwrapped
    exact hbare inner hinner

lemma ofPair_single (field : String) (value : Value)
    (hfields : Schema.rules.fields? tag = some [.str field]) (h : GivesField field payload value) :
    ofPair .rules tag (built .rules payload) =
      (fieldValue tag.name (.str field) (built .rules value)).map fun x =>
        .dict [(.str "type", .str tag.name), (.str field, x)] := by
  rw [ofPair_eq .rules tag payload _ hfields (areFieldNames_of_fields? areFieldNames_rules tag _ hfields),
    fieldParts_givesField payload tag.name field value h, ok_bind]
  cases hx : fieldValue tag.name (.str field) (built .rules value) <;> simp [hx] <;> rfl

lemma ofPair_two (first second : String) (a b : Value)
    (hfields : Schema.rules.fields? tag = some [.str first, .str second])
    (hpayload : payload.items? = some [a, b]) :
    ofPair .rules tag (built .rules payload) =
      (do
        let x ← fieldValue tag.name (.str first) (built .rules a)
        let y ← fieldValue tag.name (.str second) (built .rules b)
        pure (.dict [(.str "type", .str tag.name), (.str first, x), (.str second, y)])) := by
  have hparts : fieldParts tag.name [.str first, .str second] (built .rules payload) =
      .ok [built .rules a, built .rules b] := by
    unfold fieldParts
    dsimp only
    rw [value_built, hpayload, items_built .rules payload _ hpayload]
    rfl
  rw [ofPair_eq .rules tag payload _ hfields (areFieldNames_of_fields? areFieldNames_rules tag _ hfields),
    hparts, ok_bind]
  simp only [List.zip_cons_cons, List.zip_nil_left, List.mapM_cons, List.mapM_nil, bind_assoc,
    pure_bind]

lemma ofPair_mismatch (first second : String)
    (hfields : Schema.rules.fields? tag = some [.str first, .str second])
    (hpayload : ∀ a b, payload.items? ≠ some [a, b]) :
    ofPair .rules tag (built .rules payload) =
      .error (.payloadMismatch tag.name 2 [first, second] payload) := by
  have hparts : fieldParts tag.name [.str first, .str second] (built .rules payload) =
      .error (.payloadMismatch tag.name 2 [first, second] payload) := by
    unfold fieldParts
    dsimp only
    rw [value_built, if_neg]
    · rfl
    · rintro ⟨hsome, hlength⟩
      obtain ⟨items, hitems⟩ := Option.isSome_iff_exists.mp hsome
      rw [items_built .rules payload items hitems, List.length_map] at hlength
      obtain ⟨a, b, rfl⟩ := List.length_eq_two.mp hlength
      exact hpayload a b hitems
  unfold ofPair
  rw [hfields]
  dsimp only
  rw [hparts]
  rfl

end Pairs

/-! ## Bare and wrapped payloads -/

lemma fields?_rule (tag : Value) (h : tag.name = "negation" ∨ tag.name = "each") :
    Schema.rules.fields? tag = some [.str "rule"] := by
  unfold Schema.fields?
  rcases h with h | h <;> rw [h] <;> rfl

lemma fields?_rules (tag : Value) (h : tag.name = "set" ∨ tag.name = "xor") :
    Schema.rules.fields? tag = some [.str "rules"] := by
  unfold Schema.fields?
  rcases h with h | h <;> rw [h] <;> rfl

/-- What has a record is no sequence of one. -/
lemma items_of_ofNode (S : Schema) (v record inner : Value) (h : ofNode S v = .ok record) :
    v.items? ≠ some [inner] := by
  obtain ⟨tag, payload, hparts, -⟩ := ofPair_of_ofNode S v record h
  unfold nodeParts? at hparts
  intro hitems
  cases v with
  | rule ast => cases hitems
  | _ =>
    dsimp only [treeOf] at hparts
    rw [hitems] at hparts
    cases hparts

lemma isNodeLike_of_text (v : Value) (h : v.text?.isSome = true) : v.isNodeLike = false := by
  cases v <;> first | rfl | cases h

/-- A sequence of values that can stand for nodes cannot stand for one itself. -/
lemma isNodeLike_children (v : Value) (children : List Value)
    (hv : v = .list children ∨ v = .tuple children)
    (hchildren : ∀ child ∈ children, child.isNodeLike = true) : v.isNodeLike = false := by
  have hexports : v.exportsTree = false := by rcases hv with rfl | rfl <;> rfl
  have hitems : v.items? = some children := by rcases hv with rfl | rfl <;> rfl
  unfold Value.isNodeLike
  rw [hexports, hitems, Bool.false_or]
  split
  · next tag payload heq =>
    obtain rfl := Option.some.inj heq
    by_contra htext
    have htag := hchildren tag (by simp)
    rw [isNodeLike_of_text tag (by rwa [Bool.not_eq_false] at htext)] at htag
    cases htag
  · rfl

lemma givesField_rule (child payload : Value) (hchild : ∀ inner, child.items? ≠ some [inner])
    (h : payload = child ∨ payload = .list [child] ∨ payload = .tuple [child]) :
    GivesField "rule" payload child := by
  have hwrapping (payload : Value) (hitems : payload.items? = some [child]) :
      IsWrapping "rule" payload child := ⟨hitems, fun hfield => by simp at hfield⟩
  rcases h with rfl | rfl | rfl
  · exact .bare fun inner hinner => hchild inner hinner.1
  · exact .wrapped _ (hwrapping _ rfl)
  · exact .wrapped _ (hwrapping _ rfl)

lemma givesField_rules (sequence payload : Value) (children : List Value)
    (hsequence : sequence = .list children ∨ sequence = .tuple children)
    (hchildren : ∀ child ∈ children, child.isNodeLike = true)
    (h : payload = sequence ∨ payload = .list [sequence] ∨ payload = .tuple [sequence]) :
    GivesField "rules" payload sequence := by
  have hitems : sequence.items? = some children := by rcases hsequence with rfl | rfl <;> rfl
  have hwrapping (payload : Value) (hpayload : payload.items? = some [sequence]) :
      IsWrapping "rules" payload sequence :=
    ⟨hpayload, fun _ => ⟨by rw [hitems]; rfl, isNodeLike_children sequence children hsequence hchildren⟩⟩
  rcases h with rfl | rfl | rfl
  · refine .bare fun inner hinner => ?_
    obtain rfl := Option.some.inj (hitems.symm.trans hinner.1)
    have hlike := hchildren inner (by simp)
    rw [(hinner.2 rfl).2] at hlike
    cases hlike
  · exact .wrapped _ (hwrapping _ rfl)
  · exact .wrapped _ (hwrapping _ rfl)

lemma fieldValue_rules_items (type : String) (v : Value) (items : List Value)
    (hitems : v.items? = some items) :
    fieldValue type (.str "rules") (built .rules v) = (items.mapM (ofNode .rules)).map .list :=
  fieldValue_trees .rules type (.str "rules") v items rfl hitems

/-- A single child, or a sequence of children of which each can stand for a node, gives the same
record bare and wrapped into a sequence, and every child has its record in it at its place. -/
theorem ofNode_wrapped_payload :
    (∀ v tag payload child record : Value, v.items? = some [tag, payload] →
      tag.name = "negation" ∨ tag.name = "each" → ofNode .rules child = .ok record →
      payload = child ∨ payload = .list [child] ∨ payload = .tuple [child] →
      ofNode .rules v = .ok (.dict [(.str "type", .str tag.name), (.str "rule", record)])) ∧
    ∀ (v tag payload sequence : Value) (children records : List Value),
      v.items? = some [tag, payload] → tag.name = "set" ∨ tag.name = "xor" →
      sequence = .list children ∨ sequence = .tuple children →
      (∀ child ∈ children, child.isNodeLike = true) →
      List.Forall₂ (fun child record => ofNode .rules child = .ok record) children records →
      payload = sequence ∨ payload = .list [sequence] ∨ payload = .tuple [sequence] →
      ofNode .rules v = .ok (.dict [(.str "type", .str tag.name), (.str "rules", .list records)]) := by
  constructor
  · intro v tag payload child record hpair htag hrecord hpayload
    have hgives := givesField_rule child payload
      (fun inner => items_of_ofNode .rules child record inner hrecord) hpayload
    rw [ofNode_pair .rules v tag payload hpair,
      ofPair_single tag payload "rule" child (fields?_rule tag htag) hgives,
      fieldValue_rule _ _ _ rfl, made_built, hrecord]
    rfl
  · intro v tag payload sequence children records hpair htag hsequence hchildren hrecords hpayload
    have hitems : sequence.items? = some children := by rcases hsequence with rfl | rfl <;> rfl
    have hgives := givesField_rules sequence payload children hsequence hchildren hpayload
    rw [ofNode_pair .rules v tag payload hpair,
      ofPair_single tag payload "rules" sequence (fields?_rules tag htag) hgives,
      fieldValue_rules_items tag.name sequence children hitems, (mapM_ok _ _ _).mpr hrecords]
    rfl

/-- A wrapped sequence of a bare pair and a rule object, and the bare pair as a wrapped child. -/
theorem ofNode_wrapped_pair_and_rule :
    let pair := Value.tuple [.str "Set", .list []]
    let rule := Value.rule (.node (.str "xor") (.list []))
    ofNode .rules (.tuple [.str "xor", .tuple [.list [pair, rule]]]) =
        .ok (.dict [(.str "type", .str "xor"), (.str "rules", .list
          [.dict [(.str "type", .str "set"), (.str "rules", .list [])],
            .dict [(.str "type", .str "xor"), (.str "rules", .list [])]])]) ∧
      ofNode .rules (.list [.str "negation", .list [pair]]) =
        .ok (.dict [(.str "type", .str "negation"),
          (.str "rule", .dict [(.str "type", .str "set"), (.str "rules", .list [])])]) := by
  intro pair rule
  have hset : (Value.str "Set").name = "set" := by decide +kernel
  have hxor : (Value.str "xor").name = "xor" := by decide +kernel
  have hnegation : (Value.str "negation").name = "negation" := by decide +kernel
  have hempty (v tag : Value) (htag : tag.name = "set" ∨ tag.name = "xor")
      (hpair : v.items? = some [tag, .list []]) : ofNode .rules v =
        .ok (.dict [(.str "type", .str tag.name), (.str "rules", .list [])]) :=
    ofNode_wrapped_payload.2 v tag (.list []) (.list []) [] [] hpair htag (.inl rfl) (by simp) .nil
      (.inl rfl)
  have hpair := hempty pair (.str "Set") (.inl hset) rfl
  have hrule : ofNode .rules rule = _ :=
    hempty (.node (.str "xor") (.list [])) (.str "xor") (.inr hxor) rfl
  rw [hset] at hpair
  rw [hxor] at hrule
  constructor
  · rw [ofNode_wrapped_payload.2 _ (.str "xor") _ (.list [pair, rule]) [pair, rule] _ rfl (.inr hxor)
      (.inl rfl) (by simp [pair, rule, Value.isNodeLike, Value.exportsTree, Value.items?, Value.text?])
      (.cons hpair (.cons hrule .nil)) (.inr (.inr rfl)), hxor]
  · rw [ofNode_wrapped_payload.1 _ (.str "negation") _ pair _ rfl (.inl hnegation) hpair
      (.inr (.inl rfl)), hnegation]

end Rulebook.Proofs
