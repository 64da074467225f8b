import Mathlib
import Rulebook.Proofs.Pipeline.Carried
import Rulebook.Proofs.Record.LoadedForm
import Rulebook.Proofs.Record.NamedEntries

/-!
# Codecs that keep what records say

A codec may make lists of tuples, write the token for no value in three ways and rearrange the entries
of mappings, in every place as it likes. Loading is blind to all of this, so trees come back through
every such codec.
-/

namespace Rulebook.Proofs
open Record

/-- What records are made of: the token for no value, null, truth values, numbers other than NaN,
texts, lists, tuples, and mappings with distinct texts as keys. -/
inductive IsRecordData : Value → Prop
  | undefined : IsRecordData .undefined
  | scalar (v : Value) : isScalar v = true → v ≠ .float .nan → IsRecordData v
  | list (items : List Value) : (∀ item ∈ items, IsRecordData item) → IsRecordData (.list items)
  | tuple (items : List Value) : (∀ item ∈ items, IsRecordData item) → IsRecordData (.tuple items)
  | dict (members : List (String × Value)) : (members.map Prod.fst).Nodup →
      (∀ m ∈ members, IsRecordData m.2) → IsRecordData (.dict (members.map fun m => (.str m.1, m.2)))

/-- What the value on the left may be read as, after it has been written. -/
inductive ReadsAs : Value → Value → Prop
  | scalar (v w : Value) : isScalar v = true → w.equal v = true → ReadsAs v w
  | token : ReadsAs .undefined .undefined
  | text (w : Value) : w.equal (.str undefinedText) = true → ReadsAs .undefined w
  | emptyObject : ReadsAs .undefined (.dict [])
  | list (items ws : List Value) : List.Forall₂ ReadsAs items ws → ReadsAs (.list items) (.list ws)
  | tuple (items ws : List Value) : List.Forall₂ ReadsAs items ws →
      ReadsAs (.tuple items) (.tuple ws)
  | listed (items ws : List Value) : List.Forall₂ ReadsAs items ws →
      ReadsAs (.tuple items) (.list ws)
  | dict (entries arranged others : Entries) :
      List.Forall₂ (fun e e' => e'.1.equal e.1 = true) entries arranged →
      List.Forall₂ (fun e e' => ReadsAs e.2 e'.2) entries arranged → arranged.Perm others →
      ReadsAs (.dict entries) (.dict others)

/-- A codec writes a value, and reads from the text what the value may be read as. -/
def IsFaithfulOn (C : TextCodec) (v : Value) : Prop :=
  ∃ text w, C.encode v = .ok text ∧ C.decode (.str text) = .ok w ∧ ReadsAs v w

/-- A codec is faithful when it keeps whatever records are made of. -/
def IsFaithful (C : TextCodec) : Prop := ∀ v, IsRecordData v → IsFaithfulOn C v

/-! ## Scalars -/

lemma load_of_text? (S : Schema) (strict : Bool) (w : Value) (s : String) (h : w.text? = some s) :
    load S strict w = pure (if s = undefinedText then .undefined else w) := by
  have hscalar := load_scalar S strict w (by rintro _ rfl; cases h) (by rintro _ rfl; cases h)
    (by rintro _ rfl; cases h)
  rw [hscalar, h]
  simp only [Option.some.injEq]

/-- What a scalar other than the text for no value is read as is left as it is. -/
lemma load_of_equal_scalar (S : Schema) (strict : Bool) (v w : Value) (hv : isScalar v = true)
    (htext : v ≠ .str undefinedText) (h : w.equal v = true) : load S strict w = pure w := by
  cases v with
  | str s =>
    rw [load_of_text? S strict w s (text?_of_equal w s h), if_neg]
    rintro rfl
    exact htext rfl
  | null | bool _ | int _ | float _ =>
    unfold Value.equal at h
    cases w with
    | null | bool _ | int _ | float _ => rfl
    | member value => cases value <;> simp [Value.alike, Value.text?] at h
    | _ => simp [Value.alike, Value.tupleItems?, Value.text?] at h
  | _ => cases hv

/-! ## Operands -/

/-- An operand of a tree that is no tree: the token for no value, null, truth values, numbers other
than NaN, texts other than the one for no value, and lists of such. -/
inductive IsOperand : Value → Prop
  | undefined : IsOperand .undefined
  | scalar (v : Value) : isScalar v = true → v ≠ .float .nan → v ≠ .str undefinedText → IsOperand v
  | list (items : List Value) : (∀ item ∈ items, IsOperand item) → IsOperand (.list items)

lemma exportsTree_of_isOperand (v : Value) (h : IsOperand v) : v.exportsTree = false := by
  cases h with
  | scalar v hscalar => cases v <;> first | rfl | cases hscalar
  | _ => rfl

lemma isRecordData_of_isOperand (v : Value) (h : IsOperand v) : IsRecordData v := by
  induction h with
  | undefined => exact .undefined
  | scalar v hscalar hnan => exact .scalar v hscalar hnan
  | list items _ ih => exact .list items ih

/-- Loading one by one makes of each item what the item on the left asks for. -/
lemma all_pure {α β γ : Type} {f : β → RecordLoading γ} {E : γ → α → Prop} {as : List α}
    {bs : List β} (h : List.Forall₂ (fun a b => ∃ c, f b = pure c ∧ E c a) as bs) :
    ∃ cs, Loading.all (bs.map f) = pure cs ∧ List.Forall₂ E cs as := by
  induction h with
  | nil => exact ⟨[], rfl, .nil⟩
  | cons hab _ ih =>
    obtain ⟨c, hc, hE⟩ := hab
    obtain ⟨cs, hcs, hEs⟩ := ih
    refine ⟨c :: cs, ?_, .cons hE hEs⟩
    rw [List.map_cons, Loading.all, hc, hcs]
    rfl

/-- An operand comes back from whatever it is read as. -/
lemma load_of_readsAs_operand (S : Schema) (strict : Bool) (v : Value) (h : IsOperand v) (w : Value)
    (hw : ReadsAs v w) : ∃ m, load S strict w = pure m ∧ m.equal v = true := by
  induction h generalizing w with
  | undefined =>
    have hequal : Value.undefined.equal .undefined = true := by
      unfold Value.equal
      rw [Value.alike]
    refine ⟨.undefined, ?_, hequal⟩
    cases hw with
    | scalar _ _ hscalar => cases hscalar
    | token => rfl
    | text _ hequal =>
      rw [load_of_text? S strict w _ (text?_of_equal w _ hequal), if_pos rfl]
    | emptyObject => rfl
  | scalar v hscalar _ htext =>
    cases hw with
    | scalar _ _ _ hequal => exact ⟨w, load_of_equal_scalar S strict v w hscalar htext hequal, hequal⟩
    | _ => cases hscalar
  | list items _ ih =>
    cases hw with
    | scalar _ _ hscalar => cases hscalar
    | list _ ws hws =>
      obtain ⟨ms, hload, hequal⟩ := all_pure (forall₂_imp_mem ih hws)
      refine ⟨.list ms, ?_, (equal_list ms items).mpr hequal⟩
      rw [load_list, hload]
      rfl

/-! ## Trees -/

section Trees

variable {S : Schema} {strict : Bool}

/-- What it is for a value to survive at its place: it can be written, and comes back from whatever
is read in place of what has been written. -/
def Survives (S : Schema) (strict : Bool) : Place → Value → Prop
  | .tree, v => v.isNode = true ∧ ∃ x, ofNode S v = .ok x ∧ IsRecordData x ∧
      ∀ w, ReadsAs x w → ∃ m, load S strict w = pure m ∧ m.isNode = true ∧ m.equal v = true
  | .field field, v => ∀ type, ∃ x, fieldValue type field (built S v) = .ok x ∧ IsRecordData x ∧
      ∀ w, ReadsAs x w →
        ∃ m, loadField type field (loaded S strict w) = pure m ∧ m.equal v = true
  | .argument, v => ∃ x, argument (built S v) = .ok x ∧ IsRecordData x ∧
      ∀ w, ReadsAs x w → ∃ name y m, w.items? = some [name, y] ∧ load S strict y = pure m ∧
        (Value.tuple [name, m]).equal v = true
  | .operand, v => ∃ x, (if v.exportsTree then ofNode S v else .ok v) = .ok x ∧ IsRecordData x ∧
      ∀ w, ReadsAs x w → ∃ m, load S strict w = pure m ∧ m.equal v = true

lemma all_fields (f : Value → Value → RecordLoading Value) (fields values ws : List Value)
    (hlength : values.length = fields.length)
    (h : List.Forall₂ (fun p w => ∃ m, f p.1 w = pure m ∧ m.equal p.2 = true)
      (fields.zip values) ws) :
    ∃ ms, Loading.all (List.zipWith f fields ws) = pure ms ∧
      List.Forall₂ (fun m v => m.equal v = true) ms values := by
  induction fields generalizing values ws with
  | nil =>
    obtain rfl := List.length_eq_zero_iff.mp hlength
    exact ⟨[], rfl, .nil⟩
  | cons field fields ih =>
    cases values with
    | nil => simp at hlength
    | cons value values =>
      obtain ⟨w, ws, ⟨m, hm, hequal⟩, hws, rfl⟩ := List.forall₂_cons_left_iff.mp h
      obtain ⟨ms, hms, hequals⟩ := ih values ws (by simpa using hlength) hws
      refine ⟨m :: ms, ?_, .cons hequal hequals⟩
      rw [List.zipWith_cons_cons, Loading.all, hm, hms]
      rfl

/-- Fields that are texts themselves. -/
def AreTexts (fields : List Value) : Prop := ∀ field ∈ fields, ∃ s, field = .str s

lemma eq_str_name (fields : List Value) (hnames : AreFieldNames fields) (htexts : AreTexts fields)
    (field : Value) (hfield : field ∈ fields) : field = .str field.name := by
  obtain ⟨s, rfl⟩ := htexts field hfield
  have hname := hnames.isName _ hfield
  rw [← Option.some.inj hname]

lemma isRecordData_record (t : String) (fields xs : List Value) (hnames : AreFieldNames fields)
    (htexts : AreTexts fields) (hlength : xs.length = fields.length)
    (h : ∀ x ∈ xs, IsRecordData x) :
    IsRecordData (.dict ((.str "type", .str t) :: fields.zip xs)) := by
  have hmembers : (Value.str "type", Value.str t) :: fields.zip xs =
      (("type", Value.str t) :: List.zip (fields.map Value.name) xs).map
        fun m => (.str m.1, m.2) := by
    have hfields : fields.map (fun field => Value.str field.name) = fields :=
      (List.map_congr_left fun field hfield =>
        (eq_str_name fields hnames htexts field hfield).symm).trans (List.map_id' _)
    rw [List.map_cons, List.zip_map_left, List.map_map]
    conv_lhs => rw [← hfields, List.zip_map_left]
    rfl
  rw [hmembers]
  refine .dict _ ?_ ?_
  · exact nodup_named hnames hlength (List.Perm.refl _)
  · rw [List.forall_mem_cons]
    refine ⟨.scalar _ rfl (by simp), ?_⟩
    exact fun m hm => h m.2 (List.of_mem_zip hm).2

/-- The entries that a record is read as, under their names. -/
lemma named_of_readsAs (fields xs : List Value) (hnames : AreFieldNames fields)
    (htexts : AreTexts fields) (hlength : xs.length = fields.length) (entries : Entries)
    (h : List.Forall₂ (fun e e' => e'.1.equal e.1 = true) (fields.zip xs) entries) :
    entries.map (fun e => (e.1.name, e.2)) =
      List.zip (fields.map Value.name) (entries.map Prod.snd) := by
  have hname : List.Forall₂ (fun e e' => e.1.name = e'.1.name) (fields.zip xs) entries := by
    refine forall₂_imp_mem ?_ h
    intro e he e' hequal
    have heq := eq_str_name fields hnames htexts e.1 (List.of_mem_zip he).1
    rw [heq] at hequal
    rw [name_of_text? e'.1 _ (text?_of_equal e'.1 _ hequal), ← heq]
  have hmap : fields.map Value.name = entries.map fun e => e.1.name := by
    conv_lhs => rw [← List.map_fst_zip hlength.ge, List.map_map]
    rw [← List.forall₂_eq_eq_eq, List.forall₂_map_left_iff, List.forall₂_map_right_iff]
    exact hname
  rw [hmap, List.zip_map']

/-- Whatever a record is read as loads as the node of what its values are read as. -/
lemma load_of_readsAs_record (t : String) (fields xs : List Value) (ht : (Value.str t).name = t)
    (hfields : S.fields? (.str t) = some fields) (hnames : AreFieldNames fields)
    (htexts : AreTexts fields) (hlength : xs.length = fields.length) (w : Value)
    (hw : ReadsAs (.dict ((.str "type", .str t) :: fields.zip xs)) w) :
    ∃ ws, List.Forall₂ ReadsAs xs ws ∧
      load S strict w =
        (do
          let values ← Loading.all
            (List.zipWith (fun field y => loadField t field (loaded S strict y)) fields ws)
          pure (.node (.str t) (payload values))) := by
  cases hw with
  | scalar _ _ hscalar => cases hscalar
  | dict _ arranged others hkeys hvalues hperm =>
    obtain ⟨type, entries, htype, hfieldKeys, rfl⟩ := List.forall₂_cons_left_iff.mp hkeys
    obtain ⟨htag, hfieldValues⟩ := List.forall₂_cons.mp hvalues
    have htypeName : type.1.name = "type" := by
      rw [name_of_text? _ _ (text?_of_equal _ _ htype), name_type]
    have htagName : type.2.name = t := by
      cases htag with
      | scalar _ _ _ hequal => rw [name_of_text? _ _ (text?_of_equal _ _ hequal), ht]
    have htagFields : S.fields? type.2 = some fields := by
      rw [← fields?_name, htagName, hfields]
    have hentries : (others.map fun e => (e.1.name, e.2)).Perm
        (("type", type.2) :: List.zip (fields.map Value.name) (entries.map Prod.snd)) := by
      rw [← named_of_readsAs fields xs hnames htexts hlength entries hfieldKeys, ← htypeName]
      exact (hperm.map fun e => (e.1.name, e.2)).symm
    have hcount : (entries.map Prod.snd).length = fields.length := by
      rw [List.length_map, ← hfieldKeys.length_eq, List.length_zip, hlength, Nat.min_self]
    refine ⟨entries.map Prod.snd, ?_, ?_⟩
    · rw [← List.map_snd_zip hlength.le, List.forall₂_map_left_iff, List.forall₂_map_right_iff]
      exact hfieldValues
    · exact load_record S strict t type.2 fields _ others htagFields htagName hnames hcount hentries

/-- A node survives where the values of its fields do. -/
lemma survives_node (t : String) (fields values : List Value) (ht : (Value.str t).name = t)
    (hfields : S.fields? (.str t) = some fields) (hnames : AreFieldNames fields)
    (htexts : AreTexts fields) (hlength : values.length = fields.length)
    (hparts : fieldParts t fields (built S (payload values)) = .ok (values.map (built S)))
    (h : ∀ p ∈ fields.zip values, Survives S strict (.field p.1) p.2) :
    Survives S strict .tree (.node (.str t) (payload values)) := by
  choose! x hbuilt hdata hload using fun p hp => h p hp t
  let xs := (fields.zip values).map x
  have hxs : xs.length = fields.length := by
    rw [List.length_map, List.length_zip, hlength, Nat.min_self]
  refine ⟨rfl, _, ofNode_of_fieldValues t fields values xs ht hfields hnames hparts
    (forall₂_map_of_forall hbuilt), ?_, ?_⟩
  · exact isRecordData_record t fields xs hnames htexts hxs (List.forall_mem_map.mpr hdata)
  · intro w hw
    obtain ⟨ws, hws, hnode⟩ :=
      load_of_readsAs_record t fields xs ht hfields hnames htexts hxs w hw
    rw [List.forall₂_map_left_iff] at hws
    obtain ⟨ms, hms, hequal⟩ := all_fields (fun field y => loadField t field (loaded S strict y))
      fields values ws hlength (forall₂_imp_mem hload hws)
    refine ⟨.node (.str t) (payload ms), ?_, rfl, ?_⟩
    · rw [hnode, hms]
      rfl
    · rw [equal_node, equal_payload ms values hequal.length_eq]
      exact ⟨equal_str_self t, hequal⟩

/-- Trees one after another survive. -/
lemma survives_trees (values : List Value) (h : ∀ v ∈ values, Survives S strict .tree v) :
    ∃ xs : List Value, values.mapM (ofNode S) = .ok xs ∧ (∀ x ∈ xs, IsRecordData x) ∧
      ∀ ws, List.Forall₂ ReadsAs xs ws → ∃ ms, Loading.all (ws.map (load S strict)) = pure ms ∧
        List.Forall₂ (fun m v => m.isNode = true ∧ m.equal v = true) ms values := by
  choose! x hbuilt hdata hload using fun v hv => (h v hv).2
  refine ⟨values.map x, (mapM_ok _ _ _).mpr (forall₂_map_of_forall hbuilt),
    List.forall_mem_map.mpr hdata, ?_⟩
  intro ws hws
  rw [List.forall₂_map_left_iff] at hws
  exact all_pure (forall₂_imp_mem hload hws)

lemma survives_rules (field : Value) (values : List Value) (hfield : field.text? = some "rules")
    (h : ∀ v ∈ values, Survives S strict .tree v) :
    Survives S strict (.field field) (.list values) := by
  intro type
  obtain ⟨xs, hxs, hdata, hload⟩ := survives_trees values h
  refine ⟨.list xs, fieldValue_trees_ok S type field values xs hfield ((mapM_ok _ _ _).mp hxs),
    .list xs hdata, ?_⟩
  intro w hw
  cases hw with
  | scalar _ _ hscalar => cases hscalar
  | list _ ws hws =>
    obtain ⟨ms, hms, hequal⟩ := hload ws hws
    have hnodes : isNodeSequence (.list ms) = true :=
      List.all_eq_true.mpr (forall_left_of_forall₂ hequal)
    refine ⟨.list ms, ?_, (equal_list ms values).mpr (hequal.imp fun _ _ h => h.2)⟩
    rw [loadField_rules _ _ _ hfield, made_loaded, load_list, hms, pure_bind, pure_bind,
      if_pos hnodes]

lemma loadArguments_pure (type : String) (index : Nat) (values ws : List Value)
    (h : List.Forall₂ (fun v w => ∃ name y m, w.items? = some [name, y] ∧ load S strict y = pure m ∧
      (Value.tuple [name, m]).equal v = true) values ws) :
    ∃ ms, loadArguments type index (ws.map (loaded S strict)) = pure ms ∧
      List.Forall₂ (fun m v => m.equal v = true) ms values := by
  induction h generalizing index with
  | nil => exact ⟨[], rfl, .nil⟩
  | @cons v w values ws hw _ ih =>
    obtain ⟨name, y, m, hpair, hload, hequal⟩ := hw
    obtain ⟨ms, hms, hequals⟩ := ih (index + 1)
    refine ⟨.tuple [name, m] :: ms, ?_, .cons hequal hequals⟩
    rw [List.map_cons, loadArguments, value_loaded, items_loaded S strict _ _ hpair, hpair]
    simp only [List.map_cons, List.map_nil]
    rw [made_loaded, hload, hms, value_loaded]
    rfl

lemma survives_args (field : Value) (values : List Value) (hfield : field.text? = some "args")
    (h : ∀ v ∈ values, Survives S strict .argument v) :
    Survives S strict (.field field) (.list values) := by
  intro type
  choose! x hbuilt hdata hload using h
  refine ⟨.list (values.map x),
    fieldValue_arguments_ok S type field values _ hfield (forall₂_map_of_forall hbuilt),
    .list _ (List.forall_mem_map.mpr hdata), ?_⟩
  intro w hw
  cases hw with
  | scalar _ _ hscalar => cases hscalar
  | list _ ws hws =>
    rw [List.forall₂_map_left_iff] at hws
    obtain ⟨ms, hms, hequal⟩ := loadArguments_pure type 0 values ws (forall₂_imp_mem hload hws)
    refine ⟨.list ms, ?_, (equal_list ms values).mpr hequal⟩
    rw [loadField_args _ _ _ ws hfield (by rw [value_loaded]; rfl), items_loaded S strict _ ws rfl,
      hms]
    rfl

lemma survives_argument (name value : Value) (hname : ∃ s, name = .str s)
    (h : Survives S strict .operand value) :
    Survives S strict .argument (.tuple [name, value]) := by
  obtain ⟨x, hbuilt, hdata, hload⟩ := h
  refine ⟨.tuple [name, x], argument_tuple S name value x hbuilt, .tuple _ ?_, ?_⟩
  · obtain ⟨s, rfl⟩ := hname
    simp only [List.mem_cons, List.not_mem_nil, or_false, forall_eq_or_imp, forall_eq]
    exact ⟨.scalar _ rfl (by simp), hdata⟩
  · intro w hw
    have hpair : ∃ ws, w.items? = some ws ∧ List.Forall₂ ReadsAs [name, x] ws := by
      cases hw with
      | scalar _ _ hscalar => cases hscalar
      | tuple _ ws hws => exact ⟨ws, rfl, hws⟩
      | listed _ ws hws => exact ⟨ws, rfl, hws⟩
    obtain ⟨ws, hitems, hws⟩ := hpair
    obtain ⟨name', rest, hname', hrest, rfl⟩ := List.forall₂_cons_left_iff.mp hws
    obtain ⟨y, rest, hy, hnil, rfl⟩ := List.forall₂_cons_left_iff.mp hrest
    obtain rfl := List.forall₂_nil_left_iff.mp hnil
    obtain ⟨m, hm, hequal⟩ := hload y hy
    have hnames : name'.equal name = true := by
      obtain ⟨s, rfl⟩ := hname
      cases hname' with
      | scalar _ _ _ hequal => exact hequal
    exact ⟨name', y, m, hitems, hm, (equal_tuple _ _).mpr (.cons hnames (.cons hequal .nil))⟩

/-- What is well-formed survives, under a schema whose fields are texts. -/
theorem survives_of_wellFormed (htypes : ∀ t ∈ S.types, (Value.str t).name = t)
    (hfields : ∀ entry ∈ S.table, AreFieldNames entry.2 ∧ AreTexts entry.2)
    (place : Place) (v : Value)
    (h : WellFormed S (fun name => ∃ s, name = .str s) IsOperand place v) :
    Survives S strict place v := by
  have hnames (t : String) (fields : List Value) (h : S.fields? (.str t) = some fields) :=
    hfields _ (mem_table_of_fields? S _ _ h)
  induction h with
  | single t field value ht hschema hvalue hbare ih =>
    obtain ⟨hareNames, htexts⟩ := hnames t _ hschema
    refine survives_node t [field] [value] (htypes t ht) hschema hareNames htexts rfl
      (fieldParts_single t field value (isWrapped_of_wellFormed field value hvalue hbare)) ?_
    intro p hp
    obtain rfl := List.mem_singleton.mp hp
    exact ih
  | several t fields values ht hschema hcount hlength _ ih =>
    obtain ⟨hareNames, htexts⟩ := hnames t _ hschema
    rw [← payload_several values (by rw [hlength]; exact hcount)]
    exact survives_node t fields values (htypes t ht) hschema hareNames htexts hlength
      (fieldParts_several t fields values hcount hlength) ih
  | rule field value hfield _ ih =>
    intro type
    obtain ⟨-, x, hx, hdata, hload⟩ := ih
    refine ⟨x, by rw [fieldValue_rule _ _ _ hfield, made_built, hx], hdata, ?_⟩
    intro w hw
    obtain ⟨m, hm, hnode, hequal⟩ := hload w hw
    exact ⟨m, by rw [loadField_rule _ _ _ hfield, made_loaded, hm, pure_bind, if_pos hnode], hequal⟩
  | rules field values hfield _ ih => exact survives_rules field values hfield ih
  | args field values hfield _ ih => exact survives_args field values hfield ih
  | other field value hrule hrules hargs _ ih =>
    intro type
    obtain ⟨x, hx, hdata, hload⟩ := ih
    refine ⟨x, ?_, hdata, ?_⟩
    · rw [fieldValue_other S _ _ _ hrule hrules fun h => absurd h hargs, hx]
    · intro w hw
      rw [loadField_other _ _ _ hargs hrule hrules, made_loaded]
      exact hload w hw
  | argument name value hname _ ih => exact survives_argument name value hname ih
  | nested value _ ih =>
    obtain ⟨hnode, x, hx, hdata, hload⟩ := ih
    refine ⟨x, by rw [if_pos (exportsTree_of_isNode value hnode), hx], hdata, ?_⟩
    intro w hw
    obtain ⟨m, hm, -, hequal⟩ := hload w hw
    exact ⟨m, hm, hequal⟩
  | plain value hvalue =>
    have hexports := exportsTree_of_isOperand value hvalue
    exact ⟨value, by rw [if_neg (by simp [hexports])], isRecordData_of_isOperand value hvalue,
      load_of_readsAs_operand S strict value hvalue⟩

end Trees

/-! ## Pipelines -/

/-- A tree of the schema of rule expressions with texts as argument names. -/
def IsRuleTree (n : Value) : Prop :=
  WellFormed .rules (fun name => ∃ s, name = .str s) IsOperand .tree n

lemma areTexts_rules : ∀ entry ∈ Schema.rules.table, AreTexts entry.2 := by
  have htable : ∀ entry ∈ Schema.rules.table, ∀ field ∈ entry.2,
      ∃ name ∈ ["left", "right", "path", "rule", "keys", "rules", "name", "args"],
        field = .str name := by
    simp [Schema.rules]
  intro entry hentry field hfield
  obtain ⟨name, -, rfl⟩ := htable entry hentry field hfield
  exact ⟨name, rfl⟩

lemma survives_of_isRuleTree (strict : Bool) (n : Value) (h : IsRuleTree n) :
    Survives .rules strict .tree n :=
  survives_of_wellFormed types_rules
    (fun entry hentry => ⟨areFieldNames_rules entry hentry, areTexts_rules entry hentry⟩) .tree n h

section Pipelines

variable (o : Options) (C : TextCodec)

/-- A value comes back through a pipeline, as an equal one and without a warning. -/
def ComesBackThrough (v result : Value) : Prop :=
  ∃ text, ({ options := o, codec := C } : Pipeline).dump v = .ok text ∧
    ∃ m, ({ options := o, codec := C } : Pipeline).load (.str text) = pure m ∧
      m.equal result = true

/-- What a pipeline writes comes back through a codec that keeps it. -/
lemma comesBackThrough_of_records (v result records : Value)
    (hrecords : ({ options := o, codec := C } : Pipeline).serialize v = .ok records)
    (hkept : IsFaithfulOn C records)
    (hload : ∀ w, ReadsAs records w → ∃ m, Record.load .rules o.strictMode.isTrue w = pure m ∧
      m.unsplat.equal result = true) : ComesBackThrough o C v result := by
  obtain ⟨text, w, htext, hdecode, hw⟩ := hkept
  obtain ⟨m, hm, hequal⟩ := hload w hw
  refine ⟨text, ?_, m.unsplat, ?_, hequal⟩
  · unfold Pipeline.dump
    rw [hrecords, ok_bind]
    exact htext
  · have hrun : ({ options := o, codec := C } : Pipeline).load (.str text) =
        (do
          let tree ← (Record.load .rules o.strictMode.isTrue w).mapFault .record
          pure tree.unsplat) := by
      unfold Pipeline.load
      dsimp only
      rw [hdecode]
      rfl
    rw [hrun, hm]
    rfl

lemma equal_unsplat (ms ns : List Value) (h : List.Forall₂ (fun m n => m.equal n = true) ms ns) :
    (Value.list ms).unsplat.equal (Value.list ns).unsplat = true := by
  rcases ms with _ | ⟨m, _ | ⟨m', ms⟩⟩
  · obtain rfl := List.forall₂_nil_left_iff.mp h
    exact (equal_list [] []).mpr .nil
  · obtain ⟨n, ns, hn, hns, rfl⟩ := List.forall₂_cons_left_iff.mp h
    obtain rfl := List.forall₂_nil_left_iff.mp hns
    exact hn
  · obtain ⟨n, ns, hn, hns, rfl⟩ := List.forall₂_cons_left_iff.mp h
    obtain ⟨n', ns, hn', hns, rfl⟩ := List.forall₂_cons_left_iff.mp hns
    exact (equal_list _ _).mpr h

lemma comesBackThrough_tree (n : Value) (h : IsRuleTree n)
    (hC : ∀ record, ofNode .rules n = .ok record → IsRecordData record → IsFaithfulOn C record) :
    ComesBackThrough o C n n := by
  obtain ⟨hnode, record, hrecord, hdata, hload⟩ :=
    survives_of_isRuleTree o.strictMode.isTrue n h
  apply comesBackThrough_of_records o C n n record
  · rw [serialize_node _ n hnode, hrecord]
    rfl
  · exact hC record hrecord hdata
  · intro w hw
    obtain ⟨m, hm, hmnode, hequal⟩ := hload w hw
    exact ⟨m, hm, by rwa [unsplat_of_isNode m hmnode]⟩

lemma comesBackThrough_trees (ns : List Value) (h : ∀ n ∈ ns, IsRuleTree n)
    (hC : ∀ records, ns.mapM (ofNode .rules) = .ok records → IsRecordData (.list records) →
      IsFaithfulOn C (.list records)) :
    ComesBackThrough o C (.list ns) (Value.list ns).unsplat := by
  have htrees : ∀ n ∈ ns, Survives .rules o.strictMode.isTrue .tree n :=
    fun n hn => survives_of_isRuleTree _ n (h n hn)
  obtain ⟨records, hrecords, hdata, hload⟩ := survives_trees ns htrees
  apply comesBackThrough_of_records o C (.list ns) _ (.list records)
  · rw [serialize_list _ ns fun n hn => (htrees n hn).1, hrecords]
    rfl
  · exact hC records hrecords (.list records hdata)
  · intro w hw
    cases hw with
    | scalar _ _ hscalar => cases hscalar
    | list _ ws hws =>
      obtain ⟨ms, hms, hequal⟩ := hload ws hws
      refine ⟨.list ms, ?_, equal_unsplat ms ns (hequal.imp fun _ _ h => h.2)⟩
      rw [load_list, hms]
      rfl

end Pipelines

end Rulebook.Proofs
