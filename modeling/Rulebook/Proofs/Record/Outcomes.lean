import Mathlib
import Rulebook.Proofs.Record.Payloads

/-!
# What building a record comes to

Under the schema of rule expressions, a value has a record or a fault, and which one is told from the
form of the value. The faults come in the order in which the parts of a value are gone through.
-/

namespace Rulebook.Proofs
open Record

/-! ## Values with records -/

/-- A value that has a record at its place. -/
inductive HasRecord : Place → Value → Prop
  | single (v tag payload : Value) (field : String) (value : Value) :
      (treeOf v).items? = some [tag, payload] → Schema.rules.fields? tag = some [.str field] →
      GivesField field payload value → HasRecord (.field (.str field)) value → HasRecord .tree v
  | two (v tag payload : Value) (first second : String) (a b : Value) :
      (treeOf v).items? = some [tag, payload] →
      Schema.rules.fields? tag = some [.str first, .str second] → payload.items? = some [a, b] →
      HasRecord (.field (.str first)) a → HasRecord (.field (.str second)) b → HasRecord .tree v
  | rule (v : Value) : HasRecord .tree v → HasRecord (.field (.str "rule")) v
  | rules (v : Value) (items : List Value) : v.items? = some items →
      (∀ item ∈ items, HasRecord .tree item) → HasRecord (.field (.str "rules")) v
  | args (v : Value) (items : List Value) : v.items? = some items →
      (∀ item ∈ items, HasRecord .argument item) → HasRecord (.field (.str "args")) v
  | other (field : String) (v : Value) : field ≠ "rule" → field ≠ "rules" →
      (field = "args" → v.items? = none) → HasRecord .operand v → HasRecord (.field (.str field)) v
  /-- Only the value of a pair is looked at. -/
  | argument (v : Value) :
      (∀ name value, v.items? = some [name, value] → HasRecord .operand value) →
      HasRecord .argument v
  /-- What exports no tree is its own record. -/
  | operand (v : Value) : (v.exportsTree = true → HasRecord .tree v) → HasRecord .operand v

/-- The record of a value at its place. A tree has its type in front and then the fields of the type. -/
inductive RecordOf : Place → Value → Value → Prop
  | single (v tag payload : Value) (field : String) (value x : Value) :
      (treeOf v).items? = some [tag, payload] → Schema.rules.fields? tag = some [.str field] →
      GivesField field payload value → RecordOf (.field (.str field)) value x →
      RecordOf .tree v (.dict [(.str "type", .str tag.name), (.str field, x)])
  | two (v tag payload : Value) (first second : String) (a b x y : Value) :
      (treeOf v).items? = some [tag, payload] →
      Schema.rules.fields? tag = some [.str first, .str second] → payload.items? = some [a, b] →
      RecordOf (.field (.str first)) a x → RecordOf (.field (.str second)) b y →
      RecordOf .tree v (.dict [(.str "type", .str tag.name), (.str first, x), (.str second, y)])
  | rule (v x : Value) : RecordOf .tree v x → RecordOf (.field (.str "rule")) v x
  | rules (v : Value) (items records : List Value) : v.items? = some items →
      records.length = items.length → (∀ p ∈ items.zip records, RecordOf .tree p.1 p.2) →
      RecordOf (.field (.str "rules")) v (.list records)
  | args (v : Value) (items entries : List Value) : v.items? = some items →
      entries.length = items.length → (∀ p ∈ items.zip entries, RecordOf .argument p.1 p.2) →
      RecordOf (.field (.str "args")) v (.list entries)
  | other (field : String) (v x : Value) : field ≠ "rule" → field ≠ "rules" →
      (field = "args" → v.items? = none) → RecordOf .operand v x →
      RecordOf (.field (.str field)) v x
  | pair (v name value x : Value) : v.items? = some [name, value] → value.exportsTree = true →
      RecordOf .tree value x → RecordOf .argument v (.tuple [name, x])
  | entry (v : Value) :
      (∀ name value, v.items? = some [name, value] → value.exportsTree = false) →
      RecordOf .argument v v
  | nested (v x : Value) : v.exportsTree = true → RecordOf .tree v x → RecordOf .operand v x
  | plain (v : Value) : v.exportsTree = false → RecordOf .operand v v

/-- The fault of a value at its place. What stands before the part at fault has records. -/
inductive FaultOf : Place → Value → RecordFault → Prop
  | exportFailed (text : String) : FaultOf .tree (.brokenRule text) (.exportFailed text)
  | notPair (v : Value) : (∀ text, v ≠ .brokenRule text) →
      (∀ tag payload, (treeOf v).items? ≠ some [tag, payload]) →
      FaultOf .tree v (.notPair (treeOf v))
  | unknownType (v tag payload : Value) : (treeOf v).items? = some [tag, payload] →
      Schema.rules.fields? tag = none → FaultOf .tree v (.unknownType tag)
  | payloadMismatch (v tag payload : Value) (first second : String) :
      (treeOf v).items? = some [tag, payload] →
      Schema.rules.fields? tag = some [.str first, .str second] →
      (∀ a b, payload.items? ≠ some [a, b]) →
      FaultOf .tree v (.payloadMismatch tag.name 2 [first, second] payload)
  | rulesNotSequence (v tag payload : Value) : (treeOf v).items? = some [tag, payload] →
      Schema.rules.fields? tag = some [.str "rules"] → payload.items? = none →
      FaultOf .tree v (.rulesNotSequence tag.name payload.kind)
  | single (v tag payload : Value) (field : String) (value : Value) (fault : RecordFault) :
      (treeOf v).items? = some [tag, payload] → Schema.rules.fields? tag = some [.str field] →
      GivesField field payload value → FaultOf (.field (.str field)) value fault →
      FaultOf .tree v fault
  | first (v tag payload : Value) (first second : String) (a b : Value) (fault : RecordFault) :
      (treeOf v).items? = some [tag, payload] →
      Schema.rules.fields? tag = some [.str first, .str second] → payload.items? = some [a, b] →
      FaultOf (.field (.str first)) a fault → FaultOf .tree v fault
  | second (v tag payload : Value) (first second : String) (a b : Value) (fault : RecordFault) :
      (treeOf v).items? = some [tag, payload] →
      Schema.rules.fields? tag = some [.str first, .str second] → payload.items? = some [a, b] →
      HasRecord (.field (.str first)) a → FaultOf (.field (.str second)) b fault →
      FaultOf .tree v fault
  | rule (v : Value) (fault : RecordFault) : FaultOf .tree v fault →
      FaultOf (.field (.str "rule")) v fault
  | rules (v item : Value) (before after : List Value) (fault : RecordFault) :
      v.items? = some (before ++ item :: after) →
      (∀ earlier ∈ before, HasRecord .tree earlier) → FaultOf .tree item fault →
      FaultOf (.field (.str "rules")) v fault
  | args (v item : Value) (before after : List Value) (fault : RecordFault) :
      v.items? = some (before ++ item :: after) →
      (∀ earlier ∈ before, HasRecord .argument earlier) → FaultOf .argument item fault →
      FaultOf (.field (.str "args")) v fault
  | other (field : String) (v : Value) (fault : RecordFault) : field ≠ "rule" → field ≠ "rules" →
      (field = "args" → v.items? = none) → FaultOf .operand v fault →
      FaultOf (.field (.str field)) v fault
  | argument (v name value : Value) (fault : RecordFault) : v.items? = some [name, value] →
      FaultOf .operand value fault → FaultOf .argument v fault
  | operand (v : Value) (fault : RecordFault) : v.exportsTree = true → FaultOf .tree v fault →
      FaultOf .operand v fault

/-! ## Values with records have one -/

lemma hasRecord_of_recordOf (place : Place) (v x : Value) (h : RecordOf place v x) :
    HasRecord place v := by
  have hitems {place : Place} (items records : List Value) (hlength : records.length = items.length)
      (h : ∀ p ∈ items.zip records, HasRecord place p.1) : ∀ item ∈ items, HasRecord place item := by
    intro item hitem
    obtain ⟨p, hp, rfl⟩ := exists_zip_left items records hlength item hitem
    exact h p hp
  induction h with
  | single v tag payload field value x htree hfields hgives _ ih =>
    exact .single v tag payload field value htree hfields hgives ih
  | two v tag payload first second a b x y htree hfields hpayload _ _ iha ihb =>
    exact .two v tag payload first second a b htree hfields hpayload iha ihb
  | rule v x _ ih => exact .rule v ih
  | rules v items records hv hlength _ ih => exact .rules v items hv (hitems items records hlength ih)
  | args v items entries hv hlength _ ih => exact .args v items hv (hitems items entries hlength ih)
  | other field v x hrule hrules hargs _ ih => exact .other field v hrule hrules hargs ih
  | pair v name value x hv _ _ ih =>
    refine .argument v fun name' value' hpair => ?_
    obtain ⟨-, rfl⟩ : name = name' ∧ value = value' := by simpa using hv.symm.trans hpair
    exact .operand value fun _ => ih
  | entry v hv =>
    refine .argument v fun name value hpair => .operand value fun hexports => ?_
    rw [hv name value hpair] at hexports
    cases hexports
  | nested v x _ _ ih => exact .operand v fun _ => ih
  | plain v hexports =>
    refine .operand v fun hv => ?_
    rw [hexports] at hv
    cases hv

lemma exists_recordOf (place : Place) (v : Value) (h : HasRecord place v) :
    ∃ x, RecordOf place v x := by
  have hitems {place : Place} (items : List Value) (h : ∀ item ∈ items, ∃ x, RecordOf place item x) :
      ∃ records : List Value, records.length = items.length ∧
        ∀ p ∈ items.zip records, RecordOf place p.1 p.2 := by
    obtain ⟨records, hrecords⟩ := (exists_forall₂ items).mpr h
    obtain ⟨hlength, hall⟩ := List.forall₂_iff_zip.mp hrecords
    exact ⟨records, hlength.symm, fun p hp => hall hp⟩
  induction h with
  | single v tag payload field value htree hfields hgives _ ih =>
    obtain ⟨x, hx⟩ := ih
    exact ⟨_, .single v tag payload field value x htree hfields hgives hx⟩
  | two v tag payload first second a b htree hfields hpayload _ _ iha ihb =>
    obtain ⟨x, hx⟩ := iha
    obtain ⟨y, hy⟩ := ihb
    exact ⟨_, .two v tag payload first second a b x y htree hfields hpayload hx hy⟩
  | rule v _ ih =>
    obtain ⟨x, hx⟩ := ih
    exact ⟨x, .rule v x hx⟩
  | rules v items hv _ ih =>
    obtain ⟨records, hlength, hrecords⟩ := hitems items ih
    exact ⟨_, .rules v items records hv hlength hrecords⟩
  | args v items hv _ ih =>
    obtain ⟨entries, hlength, hentries⟩ := hitems items ih
    exact ⟨_, .args v items entries hv hlength hentries⟩
  | other field v hrule hrules hargs _ ih =>
    obtain ⟨x, hx⟩ := ih
    exact ⟨x, .other field v x hrule hrules hargs hx⟩
  | argument v _ ih =>
    by_cases hpair : ∃ name value, v.items? = some [name, value] ∧ value.exportsTree = true
    · obtain ⟨name, value, hv, hexports⟩ := hpair
      obtain ⟨x, hx⟩ := ih name value hv
      cases hx with
      | nested _ _ _ hx => exact ⟨_, .pair v name value x hv hexports hx⟩
      | plain _ hplain =>
        rw [hplain] at hexports
        cases hexports
    · refine ⟨v, .entry v fun name value hv => ?_⟩
      exact Bool.eq_false_iff.mpr fun hexports => hpair ⟨name, value, hv, hexports⟩
  | operand v _ ih =>
    by_cases hexports : v.exportsTree = true
    · obtain ⟨x, hx⟩ := ih hexports
      exact ⟨x, .nested v x hexports hx⟩
    · exact ⟨v, .plain v (Bool.eq_false_iff.mpr hexports)⟩

/-! ## Outcomes -/

/-- What building comes to for a value at its place. -/
def BuildsTo : Place → Value → Except RecordFault Value → Prop
  | .tree, v, x => ofNode .rules v = x
  | .field field, v, x => ∀ type, fieldValue type field (built .rules v) = x
  | .argument, v, x => argument (built .rules v) = x
  | .operand, v, x => (if v.exportsTree then ofNode .rules v else .ok v) = x

lemma ofNode_notPair (S : Schema) (v : Value) (hv : ∀ text, v ≠ .brokenRule text)
    (h : ∀ tag payload, (treeOf v).items? ≠ some [tag, payload]) :
    ofNode S v = .error (.notPair (treeOf v)) := by
  rw [ofNode_eq_ofTree S v hv]
  unfold ofTree
  split
  · next items tag payload hitems hparts =>
    rw [items_built S _ items hitems] at hparts
    obtain ⟨a, b, rfl, -, -⟩ := map_eq_pair hparts
    exact absurd hitems (h a b)
  · rfl

lemma fieldValue_operand (type field : String) (v : Value) (hrule : field ≠ "rule")
    (hrules : field ≠ "rules") (hargs : field = "args" → v.items? = none) :
    fieldValue type (.str field) (built .rules v) =
      if v.exportsTree then ofNode .rules v else .ok v := by
  have htext (name : String) : (Value.str field).text? = some name ↔ field = name := by
    simp [Value.text?]
  exact fieldValue_other .rules type _ v (mt (htext _).mp hrule) (mt (htext _).mp hrules)
    fun h => hargs ((htext _).mp h)

/-- A value comes to its record. -/
lemma buildsTo_recordOf (place : Place) (v x : Value) (h : RecordOf place v x) :
    BuildsTo place v (.ok x) := by
  -- By induction on the form: each part is built before the record that it stands in.
  induction h with
  | single v tag payload field value x htree hfields hgives _ ih =>
    change ofNode .rules v = _
    rw [ofNode_parts .rules v tag payload htree, ofPair_single tag payload field value hfields hgives,
      ih tag.name]
    rfl
  | two v tag payload first second a b x y htree hfields hpayload _ _ iha ihb =>
    change ofNode .rules v = _
    rw [ofNode_parts .rules v tag payload htree,
      ofPair_two tag payload first second a b hfields hpayload, iha tag.name, ihb tag.name]
    rfl
  | rule v x _ ih =>
    intro type
    rw [fieldValue_rule _ _ _ rfl]
    exact ih
  | rules v items records hv hlength _ ih =>
    intro type
    rw [fieldValue_rules_items type v items hv,
      (mapM_ok _ _ _).mpr (forall₂_of_zip items records hlength ih)]
    rfl
  | args v items entries hv hlength _ ih =>
    intro type
    have hargument : ∀ p ∈ items.zip entries, argument (built .rules p.1) = .ok p.2 := ih
    rw [fieldValue_arguments .rules type _ v items rfl hv,
      (mapM_ok _ _ _).mpr (forall₂_of_zip items entries hlength hargument)]
    rfl
  | other field v x hrule hrules hargs _ ih =>
    intro type
    rw [fieldValue_operand type field v hrule hrules hargs]
    exact ih
  | pair v name value x hv hexports _ ih =>
    change argument _ = _
    rw [argument_pair .rules v name value hv, if_pos hexports, show ofNode .rules value = .ok x from ih]
    rfl
  | entry v hv =>
    change argument _ = _
    by_cases hpair : ∃ name value, v.items? = some [name, value]
    · obtain ⟨name, value, hpair⟩ := hpair
      rw [argument_pair .rules v name value hpair, if_neg (by simp [hv name value hpair])]
    · exact argument_other .rules v fun name value heq => hpair ⟨name, value, heq⟩
  | nested v x hexports _ ih =>
    change (if v.exportsTree then _ else _) = _
    rw [if_pos hexports]
    exact ih
  | plain v hexports =>
    change (if v.exportsTree then _ else _) = _
    rw [if_neg (by simp [hexports])]

lemma buildsTo_hasRecord (place : Place) (v : Value) (h : HasRecord place v) :
    ∃ x, BuildsTo place v (.ok x) := by
  obtain ⟨x, hx⟩ := exists_recordOf place v h
  exact ⟨x, buildsTo_recordOf place v x hx⟩

/-- A value comes to its fault. -/
lemma buildsTo_faultOf (place : Place) (v : Value) (fault : RecordFault) (h : FaultOf place v fault) :
    BuildsTo place v (.error fault) := by
  induction h with
  | exportFailed text => rfl
  | notPair v hbroken hpair => exact ofNode_notPair .rules v hbroken hpair
  | unknownType v tag payload htree hfields =>
    change ofNode .rules v = _
    rw [ofNode_parts .rules v tag payload htree]
    unfold ofPair
    rw [hfields]
  | payloadMismatch v tag payload first second htree hfields hpayload =>
    change ofNode .rules v = _
    rw [ofNode_parts .rules v tag payload htree]
    exact ofPair_mismatch tag payload first second hfields hpayload
  | rulesNotSequence v tag payload htree hfields hpayload =>
    have hgives : GivesField "rules" payload payload := by
      refine .bare fun inner hinner => ?_
      rw [hinner.1] at hpayload
      cases hpayload
    change ofNode .rules v = _
    rw [ofNode_parts .rules v tag payload htree, ofPair_single tag payload _ payload hfields hgives,
      fieldValue_rules _ _ _ rfl, value_built, hpayload]
    rfl
  | single v tag payload field value fault htree hfields hgives _ ih =>
    change ofNode .rules v = _
    rw [ofNode_parts .rules v tag payload htree, ofPair_single tag payload field value hfields hgives,
      ih tag.name]
    rfl
  | first v tag payload first second a b fault htree hfields hpayload _ ih =>
    change ofNode .rules v = _
    rw [ofNode_parts .rules v tag payload htree,
      ofPair_two tag payload first second a b hfields hpayload, ih tag.name]
    rfl
  | second v tag payload first second a b fault htree hfields hpayload ha _ ih =>
    obtain ⟨x, hx⟩ := buildsTo_hasRecord _ a ha
    change ofNode .rules v = _
    rw [ofNode_parts .rules v tag payload htree,
      ofPair_two tag payload first second a b hfields hpayload, hx tag.name, ih tag.name]
    rfl
  | rule v fault _ ih =>
    intro type
    rw [fieldValue_rule _ _ _ rfl]
    exact ih
  | rules v item before after fault hv hbefore _ ih =>
    intro type
    rw [fieldValue_rules_items type v _ hv,
      mapM_error _ before after item fault (fun e he => buildsTo_hasRecord _ e (hbefore e he)) ih]
    rfl
  | args v item before after fault hv hbefore _ ih =>
    intro type
    rw [fieldValue_arguments .rules type _ v _ rfl hv,
      mapM_error _ before after item fault (fun e he => buildsTo_hasRecord _ e (hbefore e he)) ih]
    rfl
  | other field v fault hrule hrules hargs _ ih =>
    intro type
    rw [fieldValue_operand type field v hrule hrules hargs]
    exact ih
  | argument v name value fault hv hvalue ih =>
    change argument _ = _
    cases hvalue with
    | operand _ _ hexports _ =>
      rw [argument_pair .rules v name value hv, if_pos hexports]
      change (if value.exportsTree then _ else _) = _ at ih
      rw [if_pos hexports] at ih
      rw [ih]
      rfl
  | operand v fault hexports _ ih =>
    change (if v.exportsTree then _ else _) = _
    rw [if_pos hexports]
    exact ih

/-! ## Every value has a record or a fault -/

/-- A value of which it is known what building comes to. -/
def IsSettled (place : Place) (v : Value) : Prop := HasRecord place v ∨ ∃ fault, FaultOf place v fault

/-- A type has a single field, which holds a node or nodes, or two fields that hold no list of nodes. -/
lemma fields_rules (tag : Value) (fields : List Value) (h : Schema.rules.fields? tag = some fields) :
    fields = [.str "rule"] ∨ fields = [.str "rules"] ∨
      ∃ first second, fields = [.str first, .str second] ∧ first ≠ "rules" ∧ second ≠ "rules" := by
  have hmem := mem_table_of_fields? .rules tag fields h
  simp only [Schema.rules, List.map_cons, List.map_nil, List.mem_cons, Prod.mk.injEq, List.not_mem_nil,
    or_false] at hmem
  rcases hmem with ⟨-, rfl⟩ | ⟨-, rfl⟩ | ⟨-, rfl⟩ | ⟨-, rfl⟩ | ⟨-, rfl⟩ | ⟨-, rfl⟩ | ⟨-, rfl⟩ |
    ⟨-, rfl⟩ | ⟨-, rfl⟩ | ⟨-, rfl⟩ | ⟨-, rfl⟩ <;> simp

lemma isSettled_operand (v : Value) (h : IsSettled .tree v) : IsSettled .operand v := by
  by_cases hexports : v.exportsTree = true
  · rcases h with h | ⟨fault, h⟩
    · exact .inl (.operand v fun _ => h)
    · exact .inr ⟨fault, .operand v fault hexports h⟩
  · exact .inl (.operand v fun h => absurd h hexports)

lemma isSettled_argument (v : Value)
    (h : ∀ name value, v.items? = some [name, value] → IsSettled .operand value) :
    IsSettled .argument v := by
  by_cases hfault : ∃ name value fault, v.items? = some [name, value] ∧ FaultOf .operand value fault
  · obtain ⟨name, value, fault, hpair, hvalue⟩ := hfault
    exact .inr ⟨fault, .argument v name value fault hpair hvalue⟩
  · refine .inl (.argument v fun name value hpair => ?_)
    rcases h name value hpair with h | ⟨fault, h⟩
    · exact h
    · exact absurd ⟨name, value, fault, hpair, h⟩ hfault

/-- The value of a field is settled with the trees inside it. -/
lemma isSettled_field (field : String) (v : Value)
    (hrules : field = "rules" → v.items?.isSome = true)
    (ih : ∀ u, sizeOf u ≤ sizeOf v → IsSettled .tree u) : IsSettled (.field (.str field)) v := by
  have hitem (items : List Value) (hitems : v.items? = some items) (item : Value)
      (hitem : item ∈ items) : sizeOf item < sizeOf v := sizeOf_item_lt v items hitems item hitem
  by_cases hrule : field = "rule"
  · subst hrule
    rcases ih v le_rfl with h | ⟨fault, h⟩
    · exact .inl (.rule v h)
    · exact .inr ⟨fault, .rule v fault h⟩
  by_cases hfield : field = "rules"
  · subst hfield
    obtain ⟨items, hitems⟩ := Option.isSome_iff_exists.mp (hrules rfl)
    rcases forall_or_first items fun item h => ih item (hitem items hitems item h).le with
      hall | ⟨before, item, after, rfl, hbefore, fault, hfault⟩
    · exact .inl (.rules v items hitems hall)
    · exact .inr ⟨fault, .rules v item before after fault hitems hbefore hfault⟩
  by_cases hargs : field = "args" ∧ v.items?.isSome = true
  · obtain ⟨rfl, hsome⟩ := hargs
    obtain ⟨items, hitems⟩ := Option.isSome_iff_exists.mp hsome
    have hsettled : ∀ item ∈ items, IsSettled .argument item := by
      intro item h
      refine isSettled_argument item fun name value hpair => isSettled_operand value (ih value ?_)
      have hlt := sizeOf_item_lt item _ hpair value (by simp)
      exact (hlt.trans (hitem items hitems item h)).le
    rcases forall_or_first items hsettled with hall | ⟨before, item, after, rfl, hbefore, fault, hfault⟩
    · exact .inl (.args v items hitems hall)
    · exact .inr ⟨fault, .args v item before after fault hitems hbefore hfault⟩
  · have hnone : field = "args" → v.items? = none := by simpa using hargs
    rcases isSettled_operand v (ih v le_rfl) with h | ⟨fault, h⟩
    · exact .inl (.other field v hrule hfield hnone h)
    · exact .inr ⟨fault, .other field v fault hrule hfield hnone h⟩

lemma sizeOf_treeOf (v : Value) : sizeOf (treeOf v) ≤ sizeOf v := by
  cases v <;> simp [treeOf]

lemma isSettled_single (v tag payload : Value) (field : String)
    (htree : (treeOf v).items? = some [tag, payload])
    (hfields : Schema.rules.fields? tag = some [.str field])
    (ih : ∀ u, sizeOf u ≤ sizeOf payload → IsSettled .tree u) : IsSettled .tree v := by
  obtain ⟨value, hgives⟩ := exists_givesField field payload
  by_cases hsequence : field = "rules" ∧ value.items? = none
  · obtain ⟨rfl, hnone⟩ := hsequence
    cases hgives with
    | wrapped _ hinner =>
      have hsome := (hinner.2 rfl).1
      rw [hnone] at hsome
      cases hsome
    | bare _ => exact .inr ⟨_, .rulesNotSequence v tag payload htree hfields hnone⟩
  · have hsettled := isSettled_field field value
      (fun hfield => Option.isSome_iff_ne_none.mpr fun hnone => hsequence ⟨hfield, hnone⟩)
      fun u hu => ih u (hu.trans (sizeOf_givesField field payload value hgives))
    rcases hsettled with h | ⟨fault, h⟩
    · exact .inl (.single v tag payload field value htree hfields hgives h)
    · exact .inr ⟨fault, .single v tag payload field value fault htree hfields hgives h⟩

lemma isSettled_two (v tag payload : Value) (first second : String)
    (htree : (treeOf v).items? = some [tag, payload])
    (hfields : Schema.rules.fields? tag = some [.str first, .str second])
    (hfirst : first ≠ "rules") (hsecond : second ≠ "rules")
    (ih : ∀ u, sizeOf u ≤ sizeOf payload → IsSettled .tree u) : IsSettled .tree v := by
  by_cases hpayload : ∃ a b, payload.items? = some [a, b]
  · obtain ⟨a, b, hpayload⟩ := hpayload
    have hsettled (field : String) (hfield : field ≠ "rules") (u : Value) (hu : u ∈ [a, b]) :
        IsSettled (.field (.str field)) u := by
      refine isSettled_field field u (fun h => absurd h hfield) fun w hw => ih w ?_
      exact hw.trans (sizeOf_item_lt payload _ hpayload u hu).le
    rcases hsettled first hfirst a (by simp) with ha | ⟨fault, ha⟩
    · rcases hsettled second hsecond b (by simp) with hb | ⟨fault, hb⟩
      · exact .inl (.two v tag payload first second a b htree hfields hpayload ha hb)
      · exact .inr ⟨fault, .second v tag payload first second a b fault htree hfields hpayload ha hb⟩
    · exact .inr ⟨fault, .first v tag payload first second a b fault htree hfields hpayload ha⟩
  · refine .inr ⟨_, .payloadMismatch v tag payload first second htree hfields fun a b h => ?_⟩
    exact hpayload ⟨a, b, h⟩

/-- Every value has a record or a fault. -/
lemma isSettled_tree (v : Value) : IsSettled .tree v := by
  -- By induction on the size: the inner value of a wrapped payload is no part of a list of fields.
  generalize hsize : sizeOf v = n
  induction n using Nat.strong_induction_on generalizing v with
  | _ n ih =>
  by_cases hpair : ∃ tag payload, (treeOf v).items? = some [tag, payload]
  · obtain ⟨tag, payload, hpair⟩ := hpair
    have hlt := sizeOf_item_lt _ _ hpair payload (by simp)
    have hle := sizeOf_treeOf v
    have hinside : ∀ u, sizeOf u ≤ sizeOf payload → IsSettled .tree u :=
      fun u hu => ih (sizeOf u) (by omega) u rfl
    cases hfields : Schema.rules.fields? tag with
    | none => exact .inr ⟨_, .unknownType v tag payload hpair hfields⟩
    | some fields =>
      rcases fields_rules tag fields hfields with rfl | rfl | ⟨first, second, rfl, hfirst, hsecond⟩
      · exact isSettled_single v tag payload "rule" hpair hfields hinside
      · exact isSettled_single v tag payload "rules" hpair hfields hinside
      · exact isSettled_two v tag payload first second hpair hfields hfirst hsecond hinside
  · have hnone : ∀ tag payload, (treeOf v).items? ≠ some [tag, payload] :=
      fun tag payload h => hpair ⟨tag, payload, h⟩
    by_cases hbroken : ∃ text, v = .brokenRule text
    · obtain ⟨text, rfl⟩ := hbroken
      exact .inr ⟨_, .exportFailed text⟩
    · exact .inr ⟨_, .notPair v (fun text h => hbroken ⟨text, h⟩) hnone⟩

/-- A value is built as its record or fails with its fault, and it is told from its form which. -/
theorem ofNode_outcome (v : Value) :
    ((∃ record, ofNode .rules v = .ok record) ↔ HasRecord .tree v) ∧
      (∀ record, ofNode .rules v = .ok record ↔ RecordOf .tree v record) ∧
      ∀ fault, ofNode .rules v = .error fault ↔ FaultOf .tree v fault := by
  have hrecordOf (record : Value) (h : ofNode .rules v = .ok record) : RecordOf .tree v record := by
    rcases isSettled_tree v with hv | ⟨fault, hfault⟩
    · obtain ⟨x, hx⟩ := exists_recordOf .tree v hv
      obtain rfl := Except.ok.inj ((buildsTo_recordOf .tree v x hx).symm.trans h)
      exact hx
    · cases (buildsTo_faultOf .tree v fault hfault).symm.trans h
  have hfaultOf (fault : RecordFault) (h : ofNode .rules v = .error fault) : FaultOf .tree v fault := by
    rcases isSettled_tree v with hv | ⟨fault', hfault⟩
    · obtain ⟨x, hx⟩ := buildsTo_hasRecord .tree v hv
      cases hx.symm.trans h
    · obtain rfl := Except.error.inj ((buildsTo_faultOf .tree v fault' hfault).symm.trans h)
      exact hfault
  refine ⟨⟨?_, buildsTo_hasRecord .tree v⟩, fun record => ?_, fun fault => ?_⟩
  · rintro ⟨record, h⟩
    exact hasRecord_of_recordOf .tree v record (hrecordOf record h)
  · exact ⟨hrecordOf record, buildsTo_recordOf .tree v record⟩
  · exact ⟨hfaultOf fault, buildsTo_faultOf .tree v fault⟩

end Rulebook.Proofs
