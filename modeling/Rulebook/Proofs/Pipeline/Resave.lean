import Mathlib
import Rulebook.Proofs.Pipeline.Reload
import Rulebook.Proofs.Pipeline.RoundTrip
import Rulebook.Proofs.Record.LoadedForm

/-!
# Saving what was loaded

What has been loaded from a text can always be written again. Whether the new text loads as an equal
value depends on the trees inside lists: such a tree is written as a list, which loads as a list.
-/

namespace Rulebook.Proofs
open Record Json

/-! ## Values as they are -/

section Raw

variable {S : Schema} {isNumber : Binary64 → Prop}

/-- What has been loaded can be written as it is, unless an integer in it is too long. -/
lemma isWritable_of_loadedForm (layout : Layout) (place : Place) (v : Value)
    (h : LoadedForm S isNumber place v) (hshort : HasShortIntegers layout.digits v) :
    IsWritable layout v := by
  have hstr (s : String) : IsWritable layout (.str s) := fun depth => ⟨_, rfl⟩
  induction h with
  | single t _ _ _ _ _ ih =>
    rw [hasShortIntegers_node_iff] at hshort
    exact isWritable_node layout _ _ (hstr t) (ih hshort.2)
  | several t fields values _ _ _ hlength _ ih =>
    rw [hasShortIntegers_node_iff, hasShortIntegers_tuple_iff] at hshort
    refine isWritable_node layout _ _ (hstr t) (isWritable_tuple layout values
      (forall_right_of_zip fields values hlength fun p hp => ih p hp ?_))
    exact hshort.2 p.2 (List.of_mem_zip hp).2
  | rule _ _ _ _ ih => exact ih hshort
  | rules _ values _ _ ih | args _ values _ _ ih | list values _ ih =>
    rw [hasShortIntegers_list_iff] at hshort
    exact isWritable_list layout values fun value hvalue => ih value hvalue (hshort value hvalue)
  | other _ _ _ _ _ _ ih => exact ih hshort
  | argument name value hname _ ih =>
    rw [hasShortIntegers_tuple_iff, List.forall_mem_cons, List.forall_mem_singleton] at hshort
    apply isWritable_tuple
    rw [List.forall_mem_cons, List.forall_mem_singleton]
    exact ⟨isWritable_of_isDecoded layout name hname hshort.1, ih hshort.2⟩
  | nested _ _ ih => exact ih hshort
  | undefined => exact fun depth => ⟨_, rfl⟩
  | scalar value hvalue => exact isWritable_of_isDecoded layout value hvalue hshort

lemma isPlainData_of_scalar (v : Value) (hv : IsDecoded isNumber v)
    (hdict : ∀ entries, v ≠ .dict entries) (hlist : ∀ items, v ≠ .list items)
    (htext : v.text? ≠ some undefinedText) : isPlainData v = true := by
  cases hv with
  | str s => simpa [isPlainData, Value.text?] using htext
  | list items => exact absurd rfl (hlist items)
  | dict entries => exact absurd rfl (hdict entries)
  | _ => rfl

/-- An operand that comes back from being written as it is has no tree in it: a tree would come back
as a list. -/
lemma isPlainData_of_reload (strict : Bool) (layout : Layout) (v : Value)
    (h : LoadedForm S isNumber .operand v) (m : Value)
    (hm : (load S strict (reading layout v)).result = .ok m) (hequal : m.equal v = true) :
    isPlainData v = true := by
  -- The operands of a list are operands again, so no other place is met on the way down.
  generalize hplace : Place.operand = place at h
  induction h generalizing m with
  | nested v htree =>
    obtain ⟨tag, payload, rfl⟩ : ∃ tag payload, v = .node tag payload := by
      cases htree <;> exact ⟨_, _, rfl⟩
    obtain ⟨values, -, rfl⟩ := (load_list_ok S strict _ m).mp hm
    exact absurd hequal (not_equal_list_node values tag payload)
  | list values _ ih =>
    rw [reading, readings_eq_map, load_list_ok] at hm
    obtain ⟨ms, hms, rfl⟩ := hm
    rw [List.forall₂_map_left_iff] at hms
    rw [equal_list] at hequal
    rw [isPlainData, arePlainData_iff]
    intro value hvalue
    obtain ⟨i, hi, rfl⟩ := List.getElem_of_mem hvalue
    have him : i < ms.length := by rw [← hms.length_eq]; exact hi
    exact ih _ hvalue _ (hms.get hi him) (hequal.get him hi) rfl
  | undefined => rfl
  | scalar v hv hdict hlist htext => exact isPlainData_of_scalar v hv hdict hlist htext
  | _ => cases hplace

end Raw

/-! ## Values in records -/

section Resaving

variable {S : Schema} {strict : Bool} {layout : Layout} {isNumber : Binary64 → Prop}

/-- A loaded value in which no tree stands inside a list of operands: each operand is a tree, or holds
none. -/
def IsFlat (S : Schema) (isNumber : Binary64 → Prop) (place : Place) (v : Value) : Prop :=
  WellFormed S (IsDecoded isNumber) (fun v => isPlainData v = true) place v

/-- What it is for a loaded value to be written and, if it comes back as an equal one, to be flat. -/
def Resaves (S : Schema) (strict : Bool) (layout : Layout) (isNumber : Binary64 → Prop) :
    Place → Value → Prop
  | .tree, v => ∃ x, ofNode S v = .ok x ∧ IsWritable layout x ∧
      ∀ m, (load S strict (reading layout x)).result = .ok m → m.equal v = true →
        IsFlat S isNumber .tree v
  | .field field, v => ∀ type, ∃ x, fieldValue type field (built S v) = .ok x ∧
      IsWritable layout x ∧
      ∀ m, (loadField type field (loaded S strict (reading layout x))).result = .ok m →
        m.equal v = true → IsFlat S isNumber (.field field) v
  | .argument, v => ∃ x, argument (built S v) = .ok x ∧ IsWritable layout x ∧
      ∀ name value m, (reading layout x).items? = some [name, value] →
        (load S strict value).result = .ok m → (Value.tuple [name, m]).equal v = true →
        IsFlat S isNumber .argument v
  | .operand, v => ∃ x, (if v.exportsTree then ofNode S v else .ok v) = .ok x ∧
      IsWritable layout x ∧
      ∀ m, (load S strict (reading layout x)).result = .ok m → m.equal v = true →
        IsFlat S isNumber .operand v

lemma forall_of_forall₂ {α : Type} {R E : α → Value → Prop} {P : α → Prop} {as : List α}
    {ms : List Value} (h : ∀ a ∈ as, ∀ m, R a m → E a m → P a) (hR : List.Forall₂ R as ms)
    (hE : List.Forall₂ E as ms) : ∀ a ∈ as, P a := by
  induction hR with
  | nil => simp
  | @cons a m as ms ham _ ih =>
    cases hE with
    | cons hm hms =>
      rw [List.forall_mem_cons] at h ⊢
      exact ⟨h.1 m ham hm, ih h.2 hms⟩

lemma resaves_tree (htypes : ∀ t ∈ S.types, (Value.str t).name = t)
    (hnames : ∀ entry ∈ S.table, AreFieldNames entry.2) (t : String) (fields values : List Value)
    (ht : t ∈ S.types) (hfields : S.fields? (.str t) = some fields)
    (hlength : values.length = fields.length)
    (hparts : fieldParts t fields (built S (payload values)) = .ok (values.map (built S)))
    (h : ∀ p ∈ fields.zip values, Resaves S strict layout isNumber (.field p.1) p.2)
    (hflat : (∀ p ∈ fields.zip values, IsFlat S isNumber (.field p.1) p.2) →
      IsFlat S isNumber .tree (.node (.str t) (payload values))) :
    Resaves S strict layout isNumber .tree (.node (.str t) (payload values)) := by
  have hareNames := areFieldNames_of_fields? hnames _ _ hfields
  choose! x hbuilt hwritable hflats using fun p hp => h p hp t
  let xs := (fields.zip values).map x
  have hxs : xs.length = fields.length := by
    rw [List.length_map, List.length_zip, hlength, Nat.min_self]
  refine ⟨_, ofNode_of_fieldValues t fields values xs (htypes t ht) hfields hareNames hparts
    (forall₂_map_of_forall hbuilt), ?_, ?_⟩
  · exact (carriesRecords_reading layout).passes_record t fields xs hareNames hxs
      (List.forall_mem_map.mpr hwritable)
  · intro m hm hequal
    rw [load_carried (carriesRecords_reading layout) t fields xs hfields (htypes t ht) hareNames hxs,
      ok_of_loading_bind] at hm
    obtain ⟨ms, hms, heq⟩ := hm
    obtain rfl := Except.ok.inj heq
    have hzip : List.zipWith (fun field y => loadField t field (loaded S strict (reading layout y)))
        fields xs =
          (fields.zip values).map fun p => loadField t p.1 (loaded S strict (reading layout (x p))) := by
      have hfst : (fields.zip values).map Prod.fst = fields := List.map_fst_zip hlength.ge
      conv_lhs => rw [← hfst]
      rw [List.zipWith_map, List.zipWith_self]
    rw [hzip, all_result, List.forall₂_map_left_iff] at hms
    have hcount : ms.length = values.length := by
      rw [← hms.length_eq, List.length_zip, hlength, Nat.min_self]
    have hpayload := (equal_payload ms values hcount).mp ((equal_node _ _ _ _).mp hequal).2
    have hequals : List.Forall₂ (fun p m => Value.equal m p.2 = true) (fields.zip values) ms := by
      have hsnd : (fields.zip values).map Prod.snd = values := List.map_snd_zip hlength.le
      rw [← hsnd, List.forall₂_map_right_iff] at hpayload
      exact hpayload.flip
    exact hflat (forall_of_forall₂ hflats hms hequals)

/-- Trees one after another are written, and come back as equal ones only if they are flat. -/
lemma resaves_trees (values : List Value)
    (h : ∀ v ∈ values, Resaves S strict layout isNumber .tree v) :
    ∃ xs : List Value, values.mapM (ofNode S) = .ok xs ∧ (∀ x ∈ xs, IsWritable layout x) ∧
      ∀ m, (load S strict (reading layout (.list xs))).result = .ok m →
        m.equal (.list values) = true → ∀ v ∈ values, IsFlat S isNumber .tree v := by
  choose! x hbuilt hwritable hflat using h
  refine ⟨values.map x, (mapM_ok _ _ _).mpr (forall₂_map_of_forall hbuilt),
    List.forall_mem_map.mpr hwritable, ?_⟩
  intro m hm hequal
  rw [reading, readings_eq_map, List.map_map, load_list_ok] at hm
  obtain ⟨ms, hms, rfl⟩ := hm
  rw [List.forall₂_map_left_iff] at hms
  rw [equal_list] at hequal
  exact forall_of_forall₂ hflat hms hequal.flip

lemma resaves_rules (field : Value) (values : List Value) (hfield : field.text? = some "rules")
    (h : ∀ v ∈ values, Resaves S strict layout isNumber .tree v) :
    Resaves S strict layout isNumber (.field field) (.list values) := by
  intro type
  obtain ⟨xs, hxs, hwritable, hflat⟩ := resaves_trees values h
  refine ⟨.list xs, fieldValue_trees_ok S type field values xs hfield ((mapM_ok _ _ _).mp hxs),
    isWritable_list layout xs hwritable, ?_⟩
  intro m hm hequal
  obtain ⟨hload, -⟩ := (loadField_rules_ok S strict type field _ m hfield).mp hm
  exact .rules field values hfield (hflat m hload hequal)

lemma resaves_args (field : Value) (values : List Value) (hfield : field.text? = some "args")
    (h : ∀ v ∈ values, Resaves S strict layout isNumber .argument v) :
    Resaves S strict layout isNumber (.field field) (.list values) := by
  intro type
  choose! x hbuilt hwritable hflat using h
  refine ⟨.list (values.map x),
    fieldValue_arguments_ok S type field values _ hfield (forall₂_map_of_forall hbuilt),
    isWritable_list layout _ (List.forall_mem_map.mpr hwritable), ?_⟩
  intro m hm hequal
  rw [reading, readings_eq_map, List.map_map, loadField_args_ok S strict type field _ m _ hfield rfl]
    at hm
  obtain ⟨ms, hms, rfl⟩ := hm
  rw [List.forall₂_map_left_iff] at hms
  rw [equal_list] at hequal
  refine .args field values hfield (forall_of_forall₂ ?_ hms hequal.flip)
  rintro v hv _ ⟨name, value, m, hpair, hm, rfl⟩ hequal
  exact hflat v hv name value m hpair hm hequal

lemma resaves_argument (name value : Value) (hname : IsDecoded isNumber name)
    (hshort : HasShortIntegers layout.digits name)
    (h : Resaves S strict layout isNumber .operand value) :
    Resaves S strict layout isNumber .argument (.tuple [name, value]) := by
  obtain ⟨x, hbuilt, hwritable, hflat⟩ := h
  refine ⟨.tuple [name, x], argument_tuple S name value x hbuilt, ?_, ?_⟩
  · apply isWritable_tuple
    rw [List.forall_mem_cons, List.forall_mem_singleton]
    exact ⟨isWritable_of_isDecoded layout name hname hshort, hwritable⟩
  · intro name' value' m hpair hm hequal
    rw [reading, readings_eq_map] at hpair
    obtain ⟨rfl, rfl⟩ : reading layout name = name' ∧ reading layout x = value' := by
      simpa [Value.items?] using hpair
    rw [equal_tuple] at hequal
    obtain ⟨-, hrest⟩ := List.forall₂_cons.mp hequal
    obtain ⟨hequal, -⟩ := List.forall₂_cons.mp hrest
    exact .argument name value hname (hflat m hm hequal)

/-- An operand that is no tree is written as it is. -/
lemma resaves_raw (v : Value) (h : LoadedForm S isNumber .operand v)
    (hshort : HasShortIntegers layout.digits v) (hexports : v.exportsTree = false) :
    Resaves S strict layout isNumber .operand v := by
  refine ⟨v, by rw [if_neg (by simp [hexports])],
    isWritable_of_loadedForm layout .operand v h hshort, ?_⟩
  intro m hm hequal
  exact .plain v (isPlainData_of_reload strict layout v h m hm hequal)

lemma isWrapped_of_loadedForm (field value : Value)
    (hfield : field.text? = some "rule" ∨ field.text? = some "rules")
    (h : LoadedForm S isNumber (.field field) value) : isWrapped field value = false := by
  cases h with
  | rule _ _ _ htree => cases htree <;> rfl
  | rules _ values hrules htrees =>
    exact isWrapped_trees field values hrules fun v hv => isNode_of_loadedForm v (htrees v hv)
  | args _ _ hargs _ => simp [hargs] at hfield
  | other _ _ hrule hrules _ _ => simp [hrule, hrules] at hfield

/-- What has been loaded is written, and comes back as an equal value only if it is flat. The one
field of a type must be for trees, since a list of one operand would be taken for a wrapped one. -/
theorem resaves_of_loadedForm (htypes : ∀ t ∈ S.types, (Value.str t).name = t)
    (hnames : ∀ entry ∈ S.table, AreFieldNames entry.2)
    (hsingle : SingleFieldsHoldNodes S)
    (place : Place) (v : Value) (h : LoadedForm S isNumber place v)
    (hshort : HasShortIntegers layout.digits v) : Resaves S strict layout isNumber place v := by
  induction h with
  | single t field value ht hfields hvalue ih =>
    rw [hasShortIntegers_node_iff] at hshort
    have hfield := hsingle t field hfields
    have hwrapped := isWrapped_of_loadedForm field value hfield hvalue
    refine resaves_tree htypes hnames t [field] [value] ht hfields rfl
      (fieldParts_single t field value hwrapped) ?_ ?_
    · intro p hp
      obtain rfl := List.mem_singleton.mp hp
      exact ih hshort.2
    · intro hflat
      exact .single t field value ht hfields (hflat (field, value) List.mem_cons_self)
        (hfield.imp_right .inl)
  | several t fields values ht hfields hcount hlength _ ih =>
    rw [hasShortIntegers_node_iff, hasShortIntegers_tuple_iff] at hshort
    rw [← payload_several values (by rw [hlength]; exact hcount)]
    refine resaves_tree htypes hnames t fields values ht hfields hlength
      (fieldParts_several t fields values hcount hlength)
      (fun p hp => ih p hp (hshort.2 p.2 (List.of_mem_zip hp).2)) ?_
    intro hflat
    rw [payload_several values (by rw [hlength]; exact hcount)]
    exact .several t fields values ht hfields hcount hlength hflat
  | rule field value hfield htree ih =>
    intro type
    obtain ⟨x, hx, hwritable, hflat⟩ := ih hshort
    refine ⟨x, by rw [fieldValue_rule _ _ _ hfield, made_built, hx], hwritable, ?_⟩
    intro m hm hequal
    obtain ⟨hload, -⟩ := (loadField_rule_ok S strict type field _ m hfield).mp hm
    exact .rule field value hfield (hflat m hload hequal)
  | rules field values hfield _ ih =>
    rw [hasShortIntegers_list_iff] at hshort
    exact resaves_rules field values hfield fun v hv => ih v hv (hshort v hv)
  | args field values hfield _ ih =>
    rw [hasShortIntegers_list_iff] at hshort
    exact resaves_args field values hfield fun v hv => ih v hv (hshort v hv)
  | other field value hrule hrules hargs _ ih =>
    intro type
    obtain ⟨x, hx, hwritable, hflat⟩ := ih hshort
    refine ⟨x, ?_, hwritable, ?_⟩
    · rw [fieldValue_other S _ _ _ hrule hrules fun h => absurd h hargs]
      exact hx
    · intro m hm hequal
      rw [loadField_other _ _ _ hargs hrule hrules, made_loaded] at hm
      exact .other field value hrule hrules hargs (hflat m hm hequal)
  | argument name value hname _ ih =>
    rw [hasShortIntegers_tuple_iff, List.forall_mem_cons, List.forall_mem_singleton] at hshort
    exact resaves_argument name value hname hshort.1 (ih hshort.2)
  | nested value htree ih =>
    obtain ⟨x, hx, hwritable, hflat⟩ := ih hshort
    have hexports := exportsTree_of_isNode value (isNode_of_loadedForm value htree)
    refine ⟨x, by rw [if_pos hexports, hx], hwritable, ?_⟩
    intro m hm hequal
    exact .nested value (hflat m hm hequal)
  | list values hvalues => exact resaves_raw _ (.list values hvalues) hshort rfl
  | undefined => exact resaves_raw _ .undefined hshort rfl
  | scalar value hvalue hdict hlist htext =>
    have hexports := exportsTree_of_isPlainData value
      (isPlainData_of_scalar value hvalue hdict hlist htext)
    exact resaves_raw value (.scalar value hvalue hdict hlist htext) hshort hexports

lemma comesBack_of_isFlat (htypes : ∀ t ∈ S.types, (Value.str t).name = t)
    (hnames : ∀ entry ∈ S.table, AreFieldNames entry.2) (hlayout : layout.sorted = false)
    (place : Place) (v : Value) (h : IsFlat S isNumber place v) :
    ComesBack S strict (reading layout) (fun _ => True) place v := by
  apply comesBack_of_wellFormed (carriesRecords_any (carriesRecords_reading layout)) htypes hnames
    _ _ place v h
  · intro name hname
    exact ⟨trivial, reading_of_isDecoded layout hlayout name hname⟩
  · intro v hv
    exact ⟨exportsTree_of_isPlainData v hv, trivial, load_of_isPlainData S strict layout v hv⟩

end Resaving

/-! ## Pipelines -/

lemma loadedForm_unsplat {S : Schema} {isNumber : Binary64 → Prop} (v : Value)
    (h : LoadedForm S isNumber .operand v) : LoadedForm S isNumber .operand v.unsplat := by
  unfold Value.unsplat
  split
  · next item =>
    cases h with
    | nested _ htree => cases htree
    | list _ hitems => exact hitems item List.mem_cons_self
    | scalar _ _ _ hlist => exact absurd rfl (hlist [item])
  · next item =>
    cases h with
    | nested _ htree => cases htree
    | scalar _ hdecoded => cases hdecoded
  · exact h

lemma tree_of_isNode {S : Schema} {isNumber : Binary64 → Prop} (v : Value)
    (h : LoadedForm S isNumber .operand v) (hnode : v.isNode = true) :
    LoadedForm S isNumber .tree v := by
  cases h with
  | nested _ htree => exact htree
  | scalar _ hdecoded => cases hdecoded <;> cases hnode
  | _ => cases hnode

/-- A node, or a list of nodes, in which no node stands inside a list that is an operand. -/
def IsRestorable : Value → Prop
  | .list ns => ∀ n ∈ ns, IsFlat .rules (· ≠ .nan) .tree n
  | n => IsFlat .rules (· ≠ .nan) .tree n

/-- Whether a token stands for a NaN. -/
def isNanToken : Token → Bool
  | .scalar (.float .nan) => true
  | _ => false

lemma loadedForm_of_pipeline (text : String) (w : Value)
    (hnan : ∀ t ∈ scan text.toList, isNanToken t.2 = false)
    (h : (({} : Pipeline).load (.str text)).result = .ok w) :
    LoadedForm .rules (· ≠ .nan) .operand w := by
  obtain ⟨v, tree, hdecode, htree, rfl⟩ := decode_of_load {} (.str text) w h
  apply loadedForm_unsplat
  apply loadedForm_of_load v tree _ htree
  apply isDecoded_of_decode _ text v _ hdecode
  rintro t ht x hx rfl
  have h := hnan t ht
  rw [hx] at h
  cases h

lemma resaves_rules_schema (place : Place) (v : Value)
    (h : LoadedForm .rules (· ≠ .nan) place v)
    (hshort : HasShortIntegers ({} : Options).jsonCodec.digits v) :
    Resaves .rules ({} : Options).strictMode.isTrue (({} : Options).jsonCodec.layout none)
      (· ≠ .nan) place v :=
  resaves_of_loadedForm types_rules areFieldNames_rules single_rules place v h hshort

lemma comesBack_rules_schema (v : Value) (h : IsFlat .rules (· ≠ .nan) .tree v) :
    ComesBack .rules ({} : Options).strictMode.isTrue
      (reading (({} : Options).jsonCodec.layout none)) (fun _ => True) .tree v :=
  comesBack_of_isFlat types_rules areFieldNames_rules rfl .tree v h

lemma reload_node_iff (n : Value) (h : LoadedForm .rules (· ≠ .nan) .tree n)
    (hshort : HasShortIntegers ({} : Options).jsonCodec.digits n) :
    ∃ saved, ({} : Pipeline).dump n = .ok saved ∧
      ((∃ m, (({} : Pipeline).load (.str saved)).result = .ok m ∧ m.equal n = true) ↔
        IsFlat .rules (· ≠ .nan) .tree n) := by
  have hnode := isNode_of_loadedForm n h
  have hequal := equal_of_loadedForm (fun x hx => hx) .tree n h
  obtain ⟨record, hrecord, hwritable, hflat⟩ := resaves_rules_schema .tree n h hshort
  obtain ⟨saved, hsaved, hreload⟩ := load_of_serialize {} none rfl (isBlankLayout_none _) n record
    (by rw [serialize_node _ n hnode, hrecord]; rfl) hwritable
  refine ⟨saved, hsaved, ?_⟩
  rw [hreload]
  simp only [ok_of_loading_bind, result_mapFault, result_pure]
  constructor
  · rintro ⟨m, ⟨tree, htree, rfl⟩, hm⟩
    have htreeNode := isNode_of_reload areFieldNames_rules n record tree hrecord htree
    rw [unsplat_of_isNode tree htreeNode] at hm
    exact hflat tree htree hm
  · intro hn
    obtain ⟨-, record', hrecord', -, hload'⟩ := comesBack_rules_schema n hn
    obtain rfl := Except.ok.inj (hrecord.symm.trans hrecord')
    exact ⟨n, ⟨n, by rw [hload']; rfl, unsplat_of_isNode n hnode⟩, hequal⟩

lemma unsplat_of_two_le (items : List Value) (h : 2 ≤ items.length) :
    (Value.list items).unsplat = .list items := by
  unfold Value.unsplat
  split
  · next heq =>
    obtain rfl := Value.list.inj heq
    simp at h
  · next heq => cases heq
  · rfl

lemma reload_list_iff (ns : List Value) (hcount : 2 ≤ ns.length)
    (h : ∀ n ∈ ns, LoadedForm .rules (· ≠ .nan) .tree n)
    (hshort : HasShortIntegers ({} : Options).jsonCodec.digits (.list ns)) :
    ∃ saved, ({} : Pipeline).dump (.list ns) = .ok saved ∧
      ((∃ m, (({} : Pipeline).load (.str saved)).result = .ok m ∧ m.equal (.list ns) = true) ↔
        ∀ n ∈ ns, IsFlat .rules (· ≠ .nan) .tree n) := by
  have hnodes : ∀ n ∈ ns, n.isNode = true := fun n hn => isNode_of_loadedForm n (h n hn)
  have hequal : (Value.list ns).equal (.list ns) = true := by
    rw [equal_list, List.forall₂_same]
    exact fun n hn => equal_of_loadedForm (fun x hx => hx) .tree n (h n hn)
  rw [hasShortIntegers_list_iff] at hshort
  obtain ⟨records, hrecords, hwritable, hflat⟩ :=
    resaves_trees ns fun n hn => resaves_rules_schema .tree n (h n hn) (hshort n hn)
  obtain ⟨saved, hsaved, hreload⟩ := load_of_serialize {} none rfl (isBlankLayout_none _) (.list ns)
    (.list records) (by rw [serialize_list _ ns hnodes, hrecords]; rfl)
    (isWritable_list _ records hwritable)
  refine ⟨saved, hsaved, ?_⟩
  rw [hreload]
  simp only [ok_of_loading_bind, result_mapFault, result_pure]
  constructor
  · rintro ⟨m, ⟨tree, htree, rfl⟩, hm⟩
    obtain ⟨ms, hms, rfl⟩ : ∃ ms, ms.length = ns.length ∧ tree = .list ms := by
      rw [reading, readings_eq_map, load_list_ok] at htree
      obtain ⟨ms, hms, rfl⟩ := htree
      have hbuilt := (mapM_ok _ _ _).mp hrecords
      exact ⟨ms, by rw [← hms.length_eq, hbuilt.length_eq, List.length_map], rfl⟩
    rw [unsplat_of_two_le ms (by rw [hms]; exact hcount)] at hm
    exact hflat _ htree hm
  · intro hns
    obtain ⟨records', hrecords', -, hloads⟩ :=
      comesBack_trees ns fun n hn => comesBack_rules_schema n (hns n hn)
    obtain rfl := Except.ok.inj (hrecords.symm.trans hrecords')
    refine ⟨.list ns, ⟨.list ns, ?_, unsplat_of_two_le ns hcount⟩, hequal⟩
    rw [reading, readings_eq_map, load_list, hloads]
    rfl

/-- What has been loaded from a text without a NaN is written, and the new text loads as an equal
value exactly when no tree stands inside a list that is an operand. -/
theorem load_dump_load_iff (text : String) (w : Value)
    (hnan : ∀ t ∈ scan text.toList, isNanToken t.2 = false)
    (hload : (({} : Pipeline).load (.str text)).result = .ok w)
    (hw : w.isNode = true ∨ ∃ ns, w = .list ns ∧ 2 ≤ ns.length ∧ ∀ n ∈ ns, n.isNode = true) :
    ∃ saved, ({} : Pipeline).dump w = .ok saved ∧
      ((∃ m, (({} : Pipeline).load (.str saved)).result = .ok m ∧ m.equal w = true) ↔
        IsRestorable w) := by
  have hform := loadedForm_of_pipeline text w hnan hload
  have hshort := hasShortIntegers_of_pipeline {} (.str text) w hload
  rcases hw with hnode | ⟨ns, rfl, hcount, hnodes⟩
  · have hrestorable : IsRestorable w ↔ IsFlat .rules (· ≠ .nan) .tree w := by
      cases w <;> first | rfl | cases hnode
    rw [hrestorable]
    exact reload_node_iff w (tree_of_isNode w hform hnode) hshort
  · refine reload_list_iff ns hcount (fun n hn => ?_) hshort
    cases hform with
    | nested _ htree => cases htree
    | list _ hoperands => exact tree_of_isNode n (hoperands n hn) (hnodes n hn)
    | scalar _ _ _ hlist => exact absurd rfl (hlist ns)

/-- A conjunction whose left operand is a list with a tree in it. -/
def listedTree : String :=
  "\x7b\"type\":\"and\",\"left\":[\x7b\"type\":\"set\",\"rules\":[]\x7d],\"right\":1\x7d"

lemma load_listedTree :
    ∃ w, (({} : Pipeline).load (.str listedTree)).result = .ok w ∧ w.isNode = true ∧
      ∃ saved, ({} : Pipeline).dump w = .ok saved ∧
        ∃ m, (({} : Pipeline).load (.str saved)).result = .ok m ∧ m.equal w = false := by
  let saved := "\x7b\"type\": \"and\", \"left\": [[\"set\", []]], \"right\": 1\x7d"
  have hrun : ((({} : Pipeline).load (.str listedTree)).result.toOption.map fun w =>
      (w.isNode, (({} : Pipeline).dump w).toOption,
        (({} : Pipeline).load (.str saved)).result.toOption.map fun m => m.equal w)) =
      some (true, some saved, some false) := by
    decide +kernel
  obtain ⟨w, hw, heq⟩ := Option.map_eq_some_iff.mp hrun
  obtain ⟨hnode, heq⟩ := Prod.mk.inj heq
  obtain ⟨hsaved, heq⟩ := Prod.mk.inj heq
  obtain ⟨m, hm, hequal⟩ := Option.map_eq_some_iff.mp heq
  exact ⟨w, ok_of_toOption hw, hnode, saved, ok_of_toOption hsaved, m, ok_of_toOption hm, hequal⟩

/-- A tree inside a list comes back as a list, which is no equal value. -/
theorem not_load_dump_listedTree :
    ∃ w saved, (({} : Pipeline).load (.str listedTree)).result = .ok w ∧ w.isNode = true ∧
      ({} : Pipeline).dump w = .ok saved ∧
      ¬∃ m, (({} : Pipeline).load (.str saved)).result = .ok m ∧ m.equal w = true := by
  obtain ⟨w, hw, hnode, saved, hsaved, m, hm, hequal⟩ := load_listedTree
  refine ⟨w, saved, hw, hnode, hsaved, ?_⟩
  rintro ⟨m', hm', hequal'⟩
  obtain rfl := Except.ok.inj (hm.symm.trans hm')
  rw [hequal] at hequal'
  cases hequal'

/-- Whether the conjunction comes back is decided by the tree in its list. -/
theorem load_dump_listedTree_iff :
    ∃ w saved, (({} : Pipeline).load (.str listedTree)).result = .ok w ∧
      ({} : Pipeline).dump w = .ok saved ∧
      ((∃ m, (({} : Pipeline).load (.str saved)).result = .ok m ∧ m.equal w = true) ↔
        IsRestorable w) := by
  obtain ⟨w, hw, hnode, -⟩ := load_listedTree
  obtain ⟨saved, hsaved, hiff⟩ := load_dump_load_iff listedTree w (by decide +kernel) hw (.inl hnode)
  exact ⟨w, saved, hw, hsaved, hiff⟩

end Rulebook.Proofs
