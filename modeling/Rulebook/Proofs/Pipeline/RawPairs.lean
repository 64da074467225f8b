import Mathlib
import Rulebook.Proofs.Pipeline.Resave
import Rulebook.Proofs.Record.StandIns

/-!
# Plain pairs

A plain pair of a tag and a payload stands for a node where a record has one: as a whole, in the field
`rule` and in the list of `rules`. It is an operand like any other where a field takes every value.
-/

namespace Rulebook.Proofs
open Record Json

/-! ## Data as operands -/

/-- An operand that is no tree, where `isNumber` holds for the floating-point numbers in it. -/
inductive IsFlatData (isNumber : Binary64 → Prop) : Value → Prop
  | scalar (v : Value) : isScalar v = true → (∀ x, v = .float x → isNumber x) →
      IsFlatData isNumber v
  | undefined : IsFlatData isNumber .undefined
  | list (items : List Value) : (∀ item ∈ items, IsFlatData isNumber item) →
      IsFlatData isNumber (.list items)

/-- A tree of the schema of rule expressions with texts as argument names and data as operands. -/
def IsFlatTree (isNumber : Binary64 → Prop) (n : Value) : Prop :=
  WellFormed .rules (fun name => ∃ s, name = .str s) (IsFlatData isNumber) .tree n

section Data

variable {isNumber : Binary64 → Prop} (layout : Layout)

lemma isDecoded_of_isScalar (v : Value) (h : isScalar v = true)
    (hnumber : ∀ x, v = .float x → isNumber x) : IsDecoded isNumber v := by
  cases v with
  | null => exact .null
  | bool b => exact .bool b
  | int n => exact .int n
  | float x => exact .float x (hnumber x rfl)
  | str s => exact .str s
  | _ => cases h

lemma reading_of_isScalar (v : Value) (h : isScalar v = true) : reading layout v = v := by
  cases v <;> first | rfl | cases h

/-- A value that is written and read again, where `isNumber` holds for the numbers in what is read. -/
structure IsReadBack (isNumber : Binary64 → Prop) (layout : Layout) (v : Value) : Prop where
  writable : IsWritable layout v
  decoded : IsDecoded isNumber (reading layout v)

lemma isReadBack_list (items : List Value) (h : ∀ item ∈ items, IsReadBack isNumber layout item) :
    IsReadBack isNumber layout (.list items) := by
  refine ⟨isWritable_list layout items fun item hitem => (h item hitem).writable, ?_⟩
  rw [reading, readings_eq_map]
  apply IsDecoded.list
  intro item hitem
  obtain ⟨item', hitem', rfl⟩ := List.mem_map.mp hitem
  exact (h item' hitem').decoded

lemma isReadBack_pair (a b : Value) (ha : IsReadBack isNumber layout a)
    (hb : IsReadBack isNumber layout b) : IsReadBack isNumber layout (.tuple [a, b]) := by
  refine ⟨(carriesRecords_reading layout).passes_pair a b ha.writable hb.writable, ?_⟩
  rw [reading, readings_eq_map]
  exact .list _ (List.forall_mem_cons.mpr ⟨ha.decoded, List.forall_mem_singleton.mpr hb.decoded⟩)

lemma isReadBack_record (t : String) (fields values : List Value) (hnames : AreFieldNames fields)
    (hlength : values.length = fields.length)
    (h : ∀ value ∈ values, IsReadBack isNumber layout value) :
    IsReadBack isNumber layout (.dict ((.str "type", .str t) :: fields.zip values)) := by
  refine ⟨(carriesRecords_reading layout).passes_record t fields values hnames hlength
    fun value hvalue => (h value hvalue).writable, ?_⟩
  have hnodup := nodup_record t fields values hnames hlength
  obtain ⟨named, hreading, hnamed, -⟩ := reading_dict layout _ hnodup
  have hkeys : (named.map Prod.fst).Nodup := by
    rw [(hnamed.map Prod.fst).nodup_iff, List.map_map]
    exact hnodup
  rw [hreading]
  apply IsDecoded.dict
  · intro e he
    obtain ⟨p, -, rfl⟩ := List.mem_map.mp he
    exact ⟨p.1, rfl⟩
  · have hinjective : Function.Injective Value.str := fun _ _ heq => Value.str.inj heq
    have hmap : (named.map fun p => (Value.str p.1, p.2)).map Prod.fst =
        (named.map Prod.fst).map Value.str := by
      rw [List.map_map, List.map_map]
      rfl
    rw [hmap]
    exact hkeys.map hinjective
  · intro e he
    obtain ⟨p, hp, rfl⟩ := List.mem_map.mp he
    obtain ⟨e', he', rfl⟩ := List.mem_map.mp (hnamed.mem_iff.mp hp)
    rcases List.mem_cons.mp he' with rfl | he'
    · exact .str t
    · exact (h e'.2 (List.of_mem_zip he').2).decoded

lemma isReadBack_of_isFlatData (v : Value) (h : IsFlatData isNumber v)
    (hshort : HasShortIntegers layout.digits v) : IsReadBack isNumber layout v := by
  induction h with
  | scalar v hscalar hnumber =>
    have hv := isDecoded_of_isScalar v hscalar hnumber
    exact ⟨isWritable_of_isDecoded layout v hv hshort,
      by rwa [reading_of_isScalar layout v hscalar]⟩
  | undefined =>
    refine ⟨fun depth => ⟨_, rfl⟩, ?_⟩
    rw [reading]
    cases layout.emptyObject with
    | true => exact isDecoded_noEntries
    | false => exact .str _
  | list items _ ih =>
    rw [hasShortIntegers_list_iff] at hshort
    exact isReadBack_list layout items fun item hitem => ih item hitem (hshort item hitem)

lemma exportsTree_of_isFlatData (v : Value) (h : IsFlatData isNumber v) : v.exportsTree = false := by
  cases h with
  | scalar _ hscalar _ => cases v <;> first | rfl | cases hscalar
  | _ => rfl

lemma loadable_of_isFlatData (S : Schema) (strict : Bool) (v : Value) (h : IsFlatData isNumber v) :
    Loadable S strict .operand (reading layout v) := by
  induction h with
  | scalar v hscalar _ =>
    rw [reading_of_isScalar layout v hscalar]
    refine .scalar v ?_ ?_ ?_ <;>
    · rintro _ rfl
      cases hscalar
  | undefined =>
    rw [reading]
    cases layout.emptyObject with
    | true => exact .empty
    | false => exact .scalar _ (by simp) (by simp) (by simp)
  | list items _ ih =>
    rw [reading, readings_eq_map]
    apply Loadable.list
    intro item hitem
    obtain ⟨item', hitem', rfl⟩ := List.mem_map.mp hitem
    exact ih item' hitem'

end Data

/-! ## Trees of data -/

section Trees

variable {S : Schema} {isName isPlain : Value → Prop} {isNumber : Binary64 → Prop} {layout : Layout}

/-- What it is for a value to be written at its place. -/
def IsBuilt (S : Schema) (isNumber : Binary64 → Prop) (layout : Layout) : Place → Value → Prop
  | .tree, v => v.exportsTree = true ∧ ∃ x, ofNode S v = .ok x ∧ IsReadBack isNumber layout x
  | .field field, v => ∀ type, ∃ x, fieldValue type field (built S v) = .ok x ∧
      IsReadBack isNumber layout x
  | .argument, v => ∃ x, argument (built S v) = .ok x ∧ IsReadBack isNumber layout x
  | .operand, v => ∃ x, (if v.exportsTree then ofNode S v else .ok v) = .ok x ∧
      IsReadBack isNumber layout x

lemma isBuilt_tree (t : String) (fields values : List Value) (ht : (Value.str t).name = t)
    (hfields : S.fields? (.str t) = some fields) (hnames : AreFieldNames fields)
    (hlength : values.length = fields.length)
    (hparts : fieldParts t fields (built S (payload values)) = .ok (values.map (built S)))
    (h : ∀ p ∈ fields.zip values, IsBuilt S isNumber layout (.field p.1) p.2) :
    IsBuilt S isNumber layout .tree (.node (.str t) (payload values)) := by
  have hvalues : ∀ p ∈ fields.zip values, ∃ x, fieldValue t p.1 (built S p.2) = .ok x ∧
      IsReadBack isNumber layout x := fun p hp => h p hp t
  obtain ⟨xs, hxs⟩ := (exists_forall₂ _).mpr hvalues
  have hxsLength : xs.length = fields.length := by
    rw [← hxs.length_eq, List.length_zip, hlength, Nat.min_self]
  refine ⟨rfl, _, ofNode_of_fieldValues t fields values xs ht hfields hnames hparts
    (hxs.imp fun _ _ hx => hx.1), ?_⟩
  apply isReadBack_record layout t fields xs hnames hxsLength
  exact forall_right_of_forall₂ (fun _ _ _ hx => hx.2) hxs

lemma isBuilt_rules (field : Value) (values : List Value) (hfield : field.text? = some "rules")
    (h : ∀ v ∈ values, IsBuilt S isNumber layout .tree v) :
    IsBuilt S isNumber layout (.field field) (.list values) := by
  intro type
  obtain ⟨xs, hxs⟩ := (exists_forall₂ _).mpr fun v hv => (h v hv).2
  exact ⟨.list xs, fieldValue_trees_ok S type field values xs hfield (hxs.imp fun _ _ hx => hx.1),
    isReadBack_list layout xs (forall_right_of_forall₂ (fun _ _ _ hx => hx.2) hxs)⟩

lemma isBuilt_args (field : Value) (values : List Value) (hfield : field.text? = some "args")
    (h : ∀ v ∈ values, IsBuilt S isNumber layout .argument v) :
    IsBuilt S isNumber layout (.field field) (.list values) := by
  intro type
  obtain ⟨xs, hxs⟩ := (exists_forall₂ _).mpr h
  exact ⟨.list xs,
    fieldValue_arguments_ok S type field values xs hfield (hxs.imp fun _ _ hx => hx.1),
    isReadBack_list layout xs (forall_right_of_forall₂ (fun _ _ _ hx => hx.2) hxs)⟩

lemma isBuilt_argument (name v : Value) (hname : IsReadBack isNumber layout name)
    (h : IsBuilt S isNumber layout .operand v) :
    IsBuilt S isNumber layout .argument (.tuple [name, v]) := by
  obtain ⟨x, hx, hread⟩ := h
  exact ⟨.tuple [name, x], argument_tuple S name v x hx,
    isReadBack_pair layout name x hname hread⟩

/-- A well-formed tree of readable names and operands has a record that can be read. -/
lemma isBuilt_of_wellFormed (htypes : ∀ t ∈ S.types, (Value.str t).name = t)
    (hfields : ∀ entry ∈ S.table, AreFieldNames entry.2)
    (hname : ∀ name, isName name → IsReadBack isNumber layout name)
    (hplain : ∀ v, isPlain v → v.exportsTree = false ∧ IsReadBack isNumber layout v)
    (place : Place) (v : Value) (h : WellFormed S isName isPlain place v) :
    IsBuilt S isNumber layout place v := by
  have hnames := areFieldNames_of_fields? hfields
  induction h with
  | single t field value ht hschema hvalue hbare ih =>
    have hwrapped := isWrapped_of_wellFormed field value hvalue hbare
    apply isBuilt_tree t [field] [value] (htypes t ht) hschema (hnames _ _ hschema) rfl
      (fieldParts_single t field value hwrapped)
    intro p hp
    obtain rfl := List.mem_singleton.mp hp
    exact ih
  | several t fields values ht hschema hcount hlength _ ih =>
    rw [← payload_several values (by rw [hlength]; exact hcount)]
    exact isBuilt_tree t fields values (htypes t ht) hschema (hnames _ _ hschema) hlength
      (fieldParts_several t fields values hcount hlength) ih
  | rule field value hfield _ ih =>
    intro type
    rw [fieldValue_rule _ _ _ hfield]
    exact ih.2
  | rules field values hfield _ ih => exact isBuilt_rules field values hfield ih
  | args field values hfield _ ih => exact isBuilt_args field values hfield ih
  | other field value hrule hrules hargs _ ih =>
    intro type
    rw [fieldValue_other S _ _ _ hrule hrules fun h => absurd h hargs]
    exact ih
  | argument name value hisName _ ih => exact isBuilt_argument name value (hname name hisName) ih
  | nested value _ ih =>
    change ∃ x, (if value.exportsTree then _ else _) = _ ∧ _
    rw [if_pos ih.1]
    exact ih.2
  | plain value hvalue =>
    obtain ⟨hexports, hread⟩ := hplain value hvalue
    exact ⟨value, by rw [if_neg (by simp [hexports])], hread⟩

/-- A well-formed tree of operands that load has a record that loads. -/
lemma reloadable_of_wellFormed (strict : Bool)
    (hplain : ∀ v, isPlain v →
      v.exportsTree = false ∧ Loadable S strict .operand (reading layout v))
    (place : Place) (v : Value) (h : WellFormed S isName isPlain place v) :
    Reloadable S strict layout place v := by
  induction h with
  | single t field value _ hschema hvalue hbare ih =>
    have hwrapped := isWrapped_of_wellFormed field value hvalue hbare
    have hvalues : payloadValues? [field] value = some [value] :=
      if_neg (by rw [hwrapped]; exact Bool.false_ne_true)
    refine .tree _ (.str t) value [field] [value] rfl hschema hvalues ?_
    intro p hp
    obtain rfl := List.mem_singleton.mp hp
    exact ih
  | several t fields values _ hschema hcount hlength _ ih =>
    refine .tree _ (.str t) (.tuple values) fields values rfl hschema ?_ ih
    rw [payloadValues_several fields _ hcount]
    exact Option.filter_eq_some_iff.mpr ⟨rfl, by simpa using hlength⟩
  | rule field value hfield _ ih => exact .rule field value hfield ih
  | rules field values hfield _ ih => exact .rules field _ values hfield rfl ih
  | args field values hfield _ ih => exact .args field _ values hfield rfl ih
  | other field value hrule hrules hargs _ ih => exact .other field value hrule hrules hargs ih
  | argument name value _ _ ih => exact .argument _ name value rfl ih
  | nested value htree ih => exact .nested value (by cases htree <;> rfl) ih
  | plain value hvalue => exact .plain value (hplain value hvalue).1 (hplain value hvalue).2

end Trees

/-! ## Pairs in place of nodes -/

/-- A plain pair, or again a node, where the tag may be in another spelling. -/
def IsPairOrNode (tag payload w : Value) : Prop :=
  Schema.rules.declares tag = true ∧ ∃ tag', tag'.text?.isSome = true ∧ tag'.name = tag.name ∧
    (w = .tuple [tag', payload] ∨ w = .node tag' payload)

lemma ofPair_of_name (S : Schema) (tag tag' : Value) (payload : Built) (h : S.declares tag = true)
    (hname : tag'.name = tag.name) : ofPair S tag' payload = ofPair S tag payload := by
  obtain ⟨fields, hfields⟩ := Option.isSome_iff_exists.mp h
  have hfields' : S.fields? tag' = some fields := by
    unfold Schema.fields? at hfields ⊢
    rw [hname, hfields]
  unfold ofPair
  rw [hfields, hfields', hname]

lemma ofNode_of_isPairOrNode (tag payload w : Value) (h : IsPairOrNode tag payload w) :
    ofNode .rules w = ofNode .rules (.node tag payload) ∧ w.isNodeLike = true := by
  obtain ⟨htag, tag', htext, hname, hw⟩ := h
  have hitems : w.items? = some [tag', payload] := by rcases hw with rfl | rfl <;> rfl
  refine ⟨?_, ?_⟩
  · rw [ofNode_pair .rules w tag' payload hitems, ofNode_pair .rules (.node tag payload) tag payload rfl,
      ofPair_of_name .rules tag tag' _ htag hname]
  · rcases hw with rfl | rfl
    · exact htext
    · rfl

lemma isFlatTree_record (isNumber : Binary64 → Prop) (layout : Layout) (n : Value)
    (hn : IsFlatTree isNumber n) (hshort : HasShortIntegers layout.digits n) :
    ∃ record, ofNode .rules n = .ok record ∧ IsReadBack isNumber layout record := by
  refine (isBuilt_of_wellFormed types_rules areFieldNames_rules ?_ ?_ .tree n
    (wellFormed_of_hasShortIntegers .tree n hn hshort)).2
  · rintro name ⟨⟨s, rfl⟩, hshort⟩
    exact isReadBack_of_isFlatData layout _ (.scalar _ rfl (by simp)) hshort
  · rintro v ⟨hv, hshort⟩
    exact ⟨exportsTree_of_isFlatData v hv, isReadBack_of_isFlatData layout v hv hshort⟩

lemma serialize_of_standsFor (n v record : Value) (hn : n.isNode = true)
    (hv : StandsFor .rules IsPairOrNode .tree n v) (hrecord : ofNode .rules n = .ok record) :
    ofNode .rules v = .ok record ∧ ({} : Pipeline).serialize v = .ok record := by
  obtain ⟨hbuilt, hlike⟩ := buildAlike_of_standsFor ofNode_of_isPairOrNode single_rules .tree n v hv
  have hrecord' : ofNode .rules v = .ok record := hbuilt.trans hrecord
  refine ⟨hrecord', ?_⟩
  rcases hlike with rfl | ⟨-, hlike⟩
  · rw [serialize_node _ v hn, hrecord']
    rfl
  · rw [serialize_nodeLike _ v hlike, hrecord']
    rfl

/-- The record of a tree of data is written, and its text loads as a node that is equal to itself,
unless there is a NaN in the tree. -/
lemma load_of_flatTree (isNumber : Binary64 → Prop) (n record : Value) (hn : IsFlatTree isNumber n)
    (hrecord : ofNode .rules n = .ok record)
    (hread : IsReadBack isNumber (({} : Options).jsonCodec.layout none) record) :
    ∃ m, (Record.load .rules ({} : Options).strictMode.isTrue
        (reading (({} : Options).jsonCodec.layout none) record)).result = .ok m ∧ m.isNode = true ∧
      ((∀ x, isNumber x → x ≠ .nan) → m.equal m = true) := by
  have hreloadable := reloadable_of_wellFormed ({} : Options).strictMode.isTrue
    (fun v hv => ⟨exportsTree_of_isFlatData v hv, loadable_of_isFlatData
      (({} : Options).jsonCodec.layout none) .rules _ v hv⟩) .tree n hn
  obtain ⟨m, hm⟩ := (reloadsAsSaid areFieldNames_rules n record hrecord).mpr hreloadable
  have hnode := isNode_of_reload areFieldNames_rules n record m hrecord hm
  refine ⟨m, hm, hnode, ?_⟩
  intro hnumber
  exact equal_of_loadedForm hnumber .operand m (loadedForm_of_load _ m hread.decoded hm)

/-- An operand as it stands in a record: one that exports a tree becomes a record, and any other, also
a plain pair, is copied as it is. -/
def ofOperand (v : Value) : Except RecordFault Value :=
  if v.exportsTree then ofNode .rules v else .ok v

lemma ofNode_operands (tag a b : Value)
    (hfields : Schema.rules.fields? tag = some [.str "left", .str "right"]) :
    ofNode .rules (.node tag (.tuple [a, b])) =
      (do
        let x ← ofOperand a
        let y ← ofOperand b
        pure (.dict [(.str "type", .str tag.name), (.str "left", x), (.str "right", y)])) := by
  have hnames := areFieldNames_of_fields? areFieldNames_rules tag _ hfields
  have hparts := fieldParts_several (S := .rules) tag.name [.str "left", .str "right"] [a, b]
    (by simp) rfl
  have hother (field v : Value) (hrule : field.text? ≠ some "rule")
      (hrules : field.text? ≠ some "rules") (hargs : field.text? ≠ some "args") :
      fieldValue tag.name field (built .rules v) = ofOperand v :=
    fieldValue_other .rules _ _ _ hrule hrules fun h => absurd h hargs
  rw [ofNode_pair .rules _ tag _ rfl, ofPair_eq .rules tag _ _ hfields hnames]
  rw [payload_several [a, b] (by simp)] at hparts
  rw [hparts, ok_bind]
  simp only [List.map_cons, List.map_nil, List.zip_cons_cons, List.zip_nil_left, List.mapM_cons,
    List.mapM_nil]
  rw [hother (.str "left") a (by simp [Value.text?]) (by simp [Value.text?]) (by simp [Value.text?]),
    hother (.str "right") b (by simp [Value.text?]) (by simp [Value.text?]) (by simp [Value.text?])]
  simp only [bind_assoc, pure_bind]
  rfl

/-- Pairs and nodes for the nodes of a tree have one record and are written alike, and unless an
integer is too long there is a text, which loads. Operands are the exception: a plain pair is no other
operand than it is elsewhere. -/
theorem dump_of_plainPairs :
    (∀ (isNumber : Binary64 → Prop) (n v w : Value), IsFlatTree isNumber n →
      StandsFor .rules IsPairOrNode .tree n v → StandsFor .rules IsPairOrNode .tree n w →
      (∃ record, ofNode .rules v = .ok record ∧ ofNode .rules w = .ok record) ∧
      ({} : Pipeline).dump w = ({} : Pipeline).dump v ∧
      (HasShortIntegers ({} : Options).jsonCodec.digits n →
        ∃ text m, ({} : Pipeline).dump v = .ok text ∧ ({} : Pipeline).dump w = .ok text ∧
          (({} : Pipeline).load (.str text)).result = .ok m ∧ m.isNode = true ∧
          ((∀ x, isNumber x → x ≠ .nan) → m.equal m = true))) ∧
    ∀ tag a b, Schema.rules.fields? tag = some [.str "left", .str "right"] →
      ofNode .rules (.node tag (.tuple [a, b])) =
        (do
          let x ← ofOperand a
          let y ← ofOperand b
          pure (.dict [(.str "type", .str tag.name), (.str "left", x), (.str "right", y)])) := by
  refine ⟨?_, ofNode_operands⟩
  intro isNumber n v w hn hv hw
  have hnode : n.isNode = true := by cases hn <;> rfl
  obtain ⟨record, hrecord, -⟩ := isFlatTree_record isNumber
    { ({} : Options).jsonCodec.layout none with digits := none } n hn (hasShortIntegers_none n)
  obtain ⟨hbuiltv, hrecordv⟩ := serialize_of_standsFor n v record hnode hv hrecord
  obtain ⟨hbuiltw, hrecordw⟩ := serialize_of_standsFor n w record hnode hw hrecord
  have hdumpw : ({} : Pipeline).dump w = ({} : Pipeline).dump v := by
    unfold Pipeline.dump
    rw [hrecordv, hrecordw]
  refine ⟨⟨record, hbuiltv, hbuiltw⟩, hdumpw, fun hshort => ?_⟩
  obtain ⟨record', hrecord', hread⟩ :=
    isFlatTree_record isNumber (({} : Options).jsonCodec.layout none) n hn hshort
  obtain rfl := Except.ok.inj (hrecord.symm.trans hrecord')
  obtain ⟨text, hdumpv, hload⟩ :=
    load_of_serialize {} none rfl (isBlankLayout_none _) v record hrecordv hread.writable
  obtain ⟨m, hm, hmnode, hequal⟩ := load_of_flatTree isNumber n record hn hrecord hread
  refine ⟨text, m, hdumpv, hdumpw.trans hdumpv, ?_, hmnode, hequal⟩
  rw [hload]
  simp only [ok_of_loading_bind, result_mapFault, result_pure]
  exact ⟨m, hm, unsplat_of_isNode m hmnode⟩

def setNode : Value := .node (.str "set") (.list [])

def setPair : Value := .tuple [.str "set", .list []]

/-- A conjunction of two nodes and the equal one of two plain pairs have unequal records, and their
texts load as unequal values. -/
theorem not_dump_of_plainOperands :
    (Value.tuple [.str "and", .tuple [setPair, setPair]]).equal
        (.node (.str "and") (.tuple [setNode, setNode])) = true ∧
      (∃ r r', ofNode .rules (.node (.str "and") (.tuple [setNode, setNode])) = .ok r ∧
        ofNode .rules (.tuple [.str "and", .tuple [setPair, setPair]]) = .ok r' ∧
        r'.equal r = false) ∧
      ∃ text text' m m',
        ({} : Pipeline).dump (.node (.str "and") (.tuple [setNode, setNode])) = .ok text ∧
        ({} : Pipeline).dump (.tuple [.str "and", .tuple [setPair, setPair]]) = .ok text' ∧
        (({} : Pipeline).load (.str text)).result = .ok m ∧
        (({} : Pipeline).load (.str text')).result = .ok m' ∧ m'.equal m = false := by
  refine ⟨by decide +kernel, ?_, ?_⟩
  · have hrun : ((ofNode .rules (.node (.str "and") (.tuple [setNode, setNode]))).toOption.bind
        fun r => (ofNode .rules (.tuple [.str "and", .tuple [setPair, setPair]])).toOption.map
          fun r' => r'.equal r) = some false := by
      decide +kernel
    obtain ⟨r, hr, heq⟩ := Option.bind_eq_some_iff.mp hrun
    obtain ⟨r', hr', hequal⟩ := Option.map_eq_some_iff.mp heq
    exact ⟨r, r', ok_of_toOption hr, ok_of_toOption hr', hequal⟩
  · let text := "\x7b\"type\": \"and\", \"left\": \x7b\"type\": \"set\", \"rules\": []\x7d, " ++
      "\"right\": \x7b\"type\": \"set\", \"rules\": []\x7d\x7d"
    let text' := "\x7b\"type\": \"and\", \"left\": [\"set\", []], \"right\": [\"set\", []]\x7d"
    have hdump : (({} : Pipeline).dump
        (.node (.str "and") (.tuple [setNode, setNode]))).toOption = some text := by
      decide +kernel
    have hdump' : (({} : Pipeline).dump
        (.tuple [.str "and", .tuple [setPair, setPair]])).toOption = some text' := by
      decide +kernel
    have hrun : ((({} : Pipeline).load (.str text)).result.toOption.bind fun m =>
        (({} : Pipeline).load (.str text')).result.toOption.map fun m' => m'.equal m) =
          some false := by
      decide +kernel
    obtain ⟨m, hm, heq⟩ := Option.bind_eq_some_iff.mp hrun
    obtain ⟨m', hm', hequal⟩ := Option.map_eq_some_iff.mp heq
    exact ⟨text, text', m, m', ok_of_toOption hdump, ok_of_toOption hdump', ok_of_toOption hm,
      ok_of_toOption hm', hequal⟩

def integerTest : Value := .node (.str "predicate") (.tuple [.str "int?", .list []])

def integerPair : Value := .tuple [.str "predicate", .tuple [.str "int?", .list []]]

lemma isFlatTree_integerTest (isNumber : Binary64 → Prop) : IsFlatTree isNumber integerTest := by
  have hpredicate := fields?_rules_str "predicate" [.str "name", .str "args"] (by decide) rfl
  refine .several _ _ _ (by decide) hpredicate (by simp) rfl ?_
  simp only [List.zip_cons_cons, List.zip_nil_left, List.forall_mem_cons]
  refine ⟨?_, .args _ _ rfl (by simp), by simp⟩
  exact .other _ _ (by simp [Value.text?]) (by simp [Value.text?]) (by simp [Value.text?])
    (.plain _ (.scalar _ rfl (by simp)))

/-- A plain pair for a conjunction, and one inside an operand, with types in other spellings. -/
theorem dump_of_plainPairs_conjunction :
    ∃ text m,
      ({} : Pipeline).dump (.node (.str "and")
        (.tuple [.node (.str "negation") integerTest, .str "x"])) = .ok text ∧
      ({} : Pipeline).dump (.tuple [.str "And",
        .tuple [.node (.str "NEGATION") integerPair, .str "x"]]) = .ok text ∧
      (({} : Pipeline).load (.str text)).result = .ok m ∧ m.equal m = true := by
  have hand := fields?_rules_str "and" [.str "left", .str "right"] (by decide) rfl
  have hnegation := fields?_rules_str "negation" [.str "rule"] (by decide) rfl
  have hnegated : IsFlatTree (· ≠ .nan) (.node (.str "negation") integerTest) :=
    .single _ _ _ (by decide) hnegation (.rule _ _ rfl (isFlatTree_integerTest _)) (.inl rfl)
  have hother {v : Value} (field : String) (hfield : field = "left" ∨ field = "right")
      (h : WellFormed .rules (fun name => ∃ s, name = .str s) (IsFlatData (· ≠ .nan)) .operand v) :
      WellFormed .rules (fun name => ∃ s, name = .str s) (IsFlatData (· ≠ .nan))
        (.field (.str field)) v := by
    rcases hfield with rfl | rfl <;>
    · exact .other _ _ (by simp [Value.text?]) (by simp [Value.text?]) (by simp [Value.text?]) h
  have htree : IsFlatTree (· ≠ .nan)
      (.node (.str "and") (.tuple [.node (.str "negation") integerTest, .str "x"])) := by
    refine .several _ _ _ (by decide) hand (by simp) rfl ?_
    simp only [List.zip_cons_cons, List.zip_nil_left, List.forall_mem_cons]
    exact ⟨hother "left" (.inl rfl) (.nested _ hnegated),
      hother "right" (.inr rfl) (.plain _ (.scalar _ rfl (by simp))), by simp⟩
  have hpair : StandsFor .rules IsPairOrNode .tree integerTest integerPair :=
    .form _ _ _ _ (.same _ _) ⟨by decide +kernel, .str "predicate", rfl, rfl, .inl rfl⟩
  have hinner : StandsFor .rules IsPairOrNode .tree (.node (.str "negation") integerTest)
      (.node (.str "NEGATION") integerPair) := by
    apply StandsFor.form _ _ _ _ (.single _ _ _ _ hnegation (.rule _ _ _ rfl hpair))
    exact ⟨by decide +kernel, .str "NEGATION", rfl, by decide +kernel, .inr rfl⟩
  have houter : StandsFor .rules IsPairOrNode .tree
      (.node (.str "and") (.tuple [.node (.str "negation") integerTest, .str "x"]))
      (.node (.str "and") (.tuple [.node (.str "NEGATION") integerPair, .str "x"])) := by
    refine .several _ _ _ _ hand (by simp) rfl rfl ?_
    simp only [List.zip_cons_cons, List.zip_nil_left, List.forall_mem_cons]
    refine ⟨?_, .same _ _, by simp⟩
    exact .other _ _ _ (by simp [Value.text?]) (by simp [Value.text?]) (by simp [Value.text?])
      (.nested _ _ rfl rfl hinner)
  have hwhole : StandsFor .rules IsPairOrNode .tree
      (.node (.str "and") (.tuple [.node (.str "negation") integerTest, .str "x"]))
      (.tuple [.str "And", .tuple [.node (.str "NEGATION") integerPair, .str "x"]]) :=
    .form _ _ _ _ houter ⟨by decide +kernel, .str "And", rfl, by decide +kernel, .inl rfl⟩
  have hshort : HasShortIntegers ({} : Options).jsonCodec.digits
      (.node (.str "and") (.tuple [.node (.str "negation") integerTest, .str "x"])) := by
    simp [integerTest]
  obtain ⟨-, -, hwritten⟩ := dump_of_plainPairs.1 (· ≠ .nan) _ _ _ htree (.same _ _) hwhole
  obtain ⟨text, m, hdump, hdump', hload, -, hequal⟩ := hwritten hshort
  exact ⟨text, m, hdump, hdump', hload, hequal fun _ hx => hx⟩

end Rulebook.Proofs
