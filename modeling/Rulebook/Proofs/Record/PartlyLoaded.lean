import Mathlib
import Rulebook.Proofs.Record.Content

/-!
# Values of which parts have been loaded

Loading what has been loaded changes nothing. So it does not matter which parts of a value have been
loaded before the whole, nor in which of its forms the token for no value stands in it.
-/

namespace Rulebook.Proofs
open Record

/-- The forms of the token for no value that load as the token. -/
def IsAbsence (v : Value) : Prop := v = .dict [] ∨ v = .str undefinedText ∨ v = .undefined

/-- The second value is the first one with some parts loaded. Such a part is the value itself, an item
of a list, the value of a declared field or the value of an argument. The type of a record, the entries
that it does not declare and the names of arguments stay as they are. -/
inductive PartlyLoaded (S : Schema) (strict : Bool) : Place → Value → Value → Prop
  | same (place : Place) (v : Value) : PartlyLoaded S strict place v v
  | loaded (v w : Value) : (load S strict v).result = .ok w → PartlyLoaded S strict .operand v w
  | absence (v v' : Value) : IsAbsence v → IsAbsence v' → PartlyLoaded S strict .operand v v'
  | list (items items' : List Value) : items'.length = items.length →
      (∀ p ∈ items.zip items', PartlyLoaded S strict .operand p.1 p.2) →
      PartlyLoaded S strict .operand (.list items) (.list items')
  | record (entries entries' : Entries) (tag : Value) (fields : List Value) :
      entries'.map Prod.fst = entries.map Prod.fst →
      ("type", tag) ∈ entries.map (fun e => (e.1.name, e.2)) → S.fields? tag = some fields →
      (∀ p ∈ entries.zip entries', p.1.1.name = "type" ∨ isDeclared fields p.1.1.name = false →
        p.2.2 = p.1.2) →
      (∀ p ∈ entries.zip entries', p.1.1.name ≠ "type" →
        PartlyLoaded S strict (.field (.str p.1.1.name)) p.1.2 p.2.2) →
      PartlyLoaded S strict .operand (.dict entries) (.dict entries')
  | args (field : Value) (items items' : List Value) : field.text? = some "args" →
      items'.length = items.length →
      (∀ p ∈ items.zip items', PartlyLoaded S strict .argument p.1 p.2) →
      PartlyLoaded S strict (.field field) (.list items) (.list items')
  | other (field v v' : Value) : field.text? ≠ some "args" → PartlyLoaded S strict .operand v v' →
      PartlyLoaded S strict (.field field) v v'
  | argument (name v v' : Value) : PartlyLoaded S strict .operand v v' →
      PartlyLoaded S strict .argument (.list [name, v]) (.list [name, v'])

section Loading

variable {S : Schema} {strict : Bool}

/-! ## Loading again -/

lemma load_of_isAbsence (v : Value) (h : IsAbsence v) : load S strict v = pure .undefined := by
  rcases h with rfl | rfl | rfl
  · rfl
  · rw [load_scalar S strict _ (by simp) (by simp) (by simp)]
    simp [Value.text?]
  · rfl

lemma load_of_scalar (v w : Value) (hdict : ∀ entries, v ≠ .dict entries)
    (hlist : ∀ items, v ≠ .list items) (htuple : ∀ items, v ≠ .tuple items)
    (h : (load S strict v).result = .ok w) : (load S strict w).result = .ok w := by
  have hload := h
  rw [load_scalar S strict v hdict hlist htuple, result_pure] at h
  split at h
  · subst h
    rfl
  · subst h
    exact hload

/-- What has been loaded loads as itself. -/
lemma load_of_load (v w : Value) (h : (load S strict v).result = .ok w) :
    (load S strict w).result = .ok w := by
  -- By induction on the size: a sequence is loaded item by item.
  generalize hsize : sizeOf v = n
  induction n using Nat.strong_induction_on generalizing v w with
  | _ n ih =>
  have hitems (items values : List Value) (hitems : v.items? = some items)
      (hvalues : List.Forall₂ (fun item value => (load S strict item).result = .ok value)
        items values) :
      List.Forall₂ (fun value value' => (load S strict value).result = .ok value') values values := by
    rw [List.forall₂_same]
    refine forall_right_of_forall₂ (fun item hitem value hvalue => ?_) hvalues
    have hlt := sizeOf_item_lt v items hitems item hitem
    exact ih (sizeOf item) (hsize ▸ hlt) item value hvalue rfl
  match v with
  | .list items =>
    obtain ⟨values, hvalues, rfl⟩ := (load_list_ok S strict items w).mp h
    exact (load_list_ok S strict values _).mpr ⟨values, hitems items values rfl hvalues, rfl⟩
  | .tuple items =>
    obtain ⟨values, hvalues, rfl⟩ := (load_tuple_ok S strict items w).mp h
    exact (load_tuple_ok S strict values _).mpr ⟨values, hitems items values rfl hvalues, rfl⟩
  | .dict [] =>
    obtain rfl := Except.ok.inj h
    rfl
  | .dict (e :: rest) =>
    obtain ⟨t, payload, rfl⟩ := isNode_of_load_record S strict (e :: rest) (by simp) w h
    rfl
  | .null | .bool _ | .int _ | .float _ | .str _ | .bytes _ | .set _ | .timestamp _ | .undefined |
    .node .. | .rule _ | .brokenRule _ | .member _ | .constant _ | .inert =>
    exact load_of_scalar _ w (by simp) (by simp) (by simp) h

/-! ## Runs on values of which parts have been loaded -/

/-- The second run has the result of the first one, if that has one. -/
def SucceedsAs {α : Type} (x y : RecordLoading α) : Prop := ∀ a, x.result = .ok a → y.result = .ok a

lemma runRelation_succeedsAs : RunRelation (fun _ _ => True) (fun α => SucceedsAs (α := α)) where
  sameFault _ := trivial
  ofPure _ _ _ h := h
  ofFail _ fault _ _ a h := absurd h (result_fail fault a)
  ofBind _ _ x y f g hxy hfg b h := by
    rw [ok_of_loading_bind] at h ⊢
    obtain ⟨a, ha, hb⟩ := h
    exact ⟨a, hxy a ha, hfg a b hb⟩

lemma succeedsAs_checkUndeclared (type : String) (names names' : List String)
    (h : strict = true → (names = [] ↔ names' = [])) :
    SucceedsAs (checkUndeclared strict type names) (checkUndeclared strict type names') := by
  intro _ hnames
  rw [checkUndeclared_isOk] at hnames ⊢
  exact fun hstrict => (h hstrict).mp (hnames hstrict)

/-- A record with values in place of those of its declared fields is an edit of it. -/
lemma isEdit_of_values (entries entries' : Entries) (hnodup : (entries.map fun e => e.1.name).Nodup)
    (hkeys : entries'.map Prod.fst = entries.map Prod.fst)
    (htype : ∀ p ∈ entries.zip entries', p.1.1.name = "type" → p.2.2 = p.1.2) :
    IsEdit S strict entries entries' entries entries' [] [] := by
  have hnames : (entries'.map fun e => e.1.name) = entries.map fun e => e.1.name := by
    have hmap := congrArg (List.map Value.name) hkeys
    rwa [List.map_map, List.map_map] at hmap
  exact {
    nodup := hnodup
    nodup' := by rw [hnames]; exact hnodup
    perm := by rw [List.append_nil]
    perm' := by rw [List.append_nil]
    names := hnames
    tags := fun p hp h => by rw [htype p hp h]
    ignored := by simp }

/-- What it is for a value to load as another one does at its place. -/
def LoadsLike (S : Schema) (strict : Bool) : Place → Value → Value → Prop
  | .tree, _, _ => True
  | .field field, v, v' => ∀ type,
      SucceedsAs (loadField type field (loaded S strict v)) (loadField type field (loaded S strict v'))
  | .argument, v, v' => ∀ type index, SucceedsAs (loadArgument type index (loaded S strict v))
      (loadArgument type index (loaded S strict v'))
  | .operand, v, v' => SucceedsAs (load S strict v) (load S strict v')

lemma loadsLike_record (entries entries' : Entries) (tag : Value) (fields : List Value)
    (hkeys : entries'.map Prod.fst = entries.map Prod.fst)
    (htag : ("type", tag) ∈ entries.map fun e => (e.1.name, e.2))
    (hfields : S.fields? tag = some fields)
    (htype : ∀ p ∈ entries.zip entries', p.1.1.name = "type" → p.2.2 = p.1.2)
    (h : ∀ p ∈ entries.zip entries', p.1.1.name ≠ "type" →
      LoadsLike S strict (.field (.str p.1.1.name)) p.1.2 p.2.2) :
    SucceedsAs (load S strict (.dict entries)) (load S strict (.dict entries')) := by
  intro w hw
  have hne : entries ≠ [] := by
    rintro rfl
    cases htag
  -- The names are distinct, since the first run succeeds.
  have hnodup := (type_of_load_record S strict entries hne w hw).1
  have hedit : IsEdit S strict entries entries' entries entries' [] [] :=
    isEdit_of_values entries entries' hnodup hkeys htype
  have htag' : ("type", tag) ∈ entries'.map fun e => (e.1.name, e.2) := by
    obtain ⟨e, he, heq⟩ := List.mem_map.mp htag
    obtain ⟨p, hp, rfl⟩ := exists_zip_left entries entries' (length_of_isEdit hedit) e he
    obtain ⟨hname, rfl⟩ := Prod.mk.inj heq
    refine List.mem_map.mpr ⟨p.2, (List.of_mem_zip hp).2, ?_⟩
    rw [name_of_isEdit hedit p hp, hname, htype p hp hname]
  exact related_record hedit runRelation_succeedsAs tag tag fields htag htag' rfl hfields
    (succeedsAs_checkUndeclared tag.name) h w hw

/-- A value of which parts have been loaded loads as the value itself does. -/
lemma loadsLike_of_partlyLoaded (place : Place) (v v' : Value)
    (h : PartlyLoaded S strict place v v') : LoadsLike S strict place v v' := by
  -- By induction on what has been loaded: each step of loading keeps the result of the first run.
  induction h with
  | same place v =>
    cases place <;> first | trivial | exact fun _ h => h | exact fun _ _ h => h | exact fun _ _ _ h => h
  | loaded v w hw =>
    intro a ha
    obtain rfl := Except.ok.inj (hw.symm.trans ha)
    exact load_of_load v w hw
  | absence v v' hv hv' =>
    change SucceedsAs _ _
    rw [load_of_isAbsence v hv, load_of_isAbsence v' hv']
    exact fun _ h => h
  | list items items' hlength _ ih =>
    exact related_list runRelation_succeedsAs S strict strict items items'
      (forall₂_of_zip items items' hlength ih)
  | record entries entries' tag fields hkeys htag hfields hkept _ ih =>
    exact loadsLike_record entries entries' tag fields hkeys htag hfields
      (fun p hp htype => hkept p hp (.inl htype)) ih
  | args field items items' hfield hlength _ ih =>
    intro type
    apply related_args runRelation_succeedsAs S strict strict type field _ _ items items' hfield rfl rfl
    exact forall₂_of_zip items items' hlength fun p hp index => ih p hp type index
  | other field v v' hfield _ ih =>
    intro type
    exact related_loadField_other runRelation_succeedsAs type field _ _ hfield ih trivial trivial
  | argument name v v' _ ih =>
    intro type index
    exact related_argument runRelation_succeedsAs S strict strict type index _ _ name v v' rfl rfl ih

end Loading

/-- A value that loads has the same result after any parts of it have been loaded, and the result loads
as itself. -/
theorem load_of_partlyLoaded (S : Schema) (strict : Bool) (v w : Value)
    (hv : IsDecoded (· ≠ .nan) v) (hw : (load S strict v).result = .ok w) :
    (∀ v', PartlyLoaded S strict .operand v v' → (load S strict v').result = .ok w) ∧
      (load S strict w).result = .ok w ∧ w.equal w = true := by
  refine ⟨fun v' hv' => loadsLike_of_partlyLoaded .operand v v' hv' w hw, load_of_load v w hw, ?_⟩
  exact equal_of_loadedForm (fun _ hx => hx) .operand w (loadedForm_of_load v w hv hw)

/-- A negated predicate with two arguments, the second one a list of one. -/
def negatedPredicate (first second : Value) : Value :=
  .dict [(.str "type", .str "negation"), (.str "rule", .dict [(.str "type", .str "predicate"),
    (.str "name", .str "f"),
    (.str "args", .list [.list [.str "x", first], .list [.str "y", .list [second]]])])]

lemma partlyLoaded_negatedPredicate (S : Schema) (strict : Bool) (first first' second second' : Value)
    (hnegation : S.fields? (.str "negation") = some [.str "rule"])
    (hpredicate : S.fields? (.str "predicate") = some [.str "name", .str "args"])
    (hfirst : PartlyLoaded S strict .operand first first')
    (hsecond : PartlyLoaded S strict .operand second second') :
    PartlyLoaded S strict .operand (negatedPredicate first second) (negatedPredicate first' second') := by
  have hrule : (Value.str "rule").name = "rule" := by decide +kernel
  have hname : (Value.str "name").name = "name" := by decide +kernel
  have hargs : (Value.str "args").name = "args" := by decide +kernel
  have hlist : PartlyLoaded S strict (.field (.str "args"))
      (.list [.list [.str "x", first], .list [.str "y", .list [second]]])
      (.list [.list [.str "x", first'], .list [.str "y", .list [second']]]) := by
    refine .args _ _ _ rfl rfl ?_
    simp only [List.zip_cons_cons, List.zip_nil_left, List.forall_mem_cons]
    exact ⟨.argument _ _ _ hfirst, .argument _ _ _ (.list _ _ rfl (by simpa using hsecond)), by simp⟩
  refine .record _ _ (.str "negation") _ rfl (by simp [name_type]) hnegation ?_ ?_
  · simp [hrule, isDeclared, Value.text?]
  · simp only [List.zip_cons_cons, List.zip_nil_left, List.forall_mem_cons, hrule]
    refine ⟨fun h => absurd name_type h, fun _ => .other _ _ _ (by simp [Value.text?]) ?_, by simp⟩
    refine .record _ _ (.str "predicate") _ rfl (by simp [name_type]) hpredicate ?_ ?_
    · simp [hname, hargs, isDeclared, Value.text?]
    · simp only [List.zip_cons_cons, List.zip_nil_left, List.forall_mem_cons, hname, hargs]
      exact ⟨fun h => absurd name_type h, fun _ => .same _ _, fun _ => hlist, by simp⟩

/-- An empty mapping as the token, and a record in a list as its node, inside of arguments. -/
theorem load_negatedPredicate_partly :
    ∃ w, (load .rules true (negatedPredicate (.dict []) (.dict plainSet))).result = .ok w ∧
      (load .rules true (negatedPredicate .undefined (.node (.str "set") (.list [])))).result = .ok w ∧
      w.equal w = true := by
  have hdecoded : IsDecoded (· ≠ .nan) (negatedPredicate (.dict []) (.dict plainSet)) := by
    have hset : IsDecoded (· ≠ .nan) (.dict plainSet) :=
      .dict _ (by simp [plainSet]) (by simp [plainSet])
        (by simp [plainSet, IsDecoded.str, IsDecoded.list])
    have hargs : IsDecoded (· ≠ .nan)
        (.list [.list [.str "x", .dict []], .list [.str "y", .list [.dict plainSet]]]) := by
      refine .list _ (List.forall_mem_cons.mpr ⟨.list _ ?_, List.forall_mem_singleton.mpr (.list _ ?_)⟩)
      · simp [IsDecoded.str, isDecoded_noEntries]
      · simpa [IsDecoded.str] using IsDecoded.list [.dict plainSet] (by simpa using hset)
    refine .dict _ (by simp) (by simp) ?_
    refine List.forall_mem_cons.mpr ⟨.str _, List.forall_mem_singleton.mpr ?_⟩
    exact .dict _ (by simp) (by simp) (by simp [IsDecoded.str, hargs])
  have hload : ∃ w, (load .rules true (negatedPredicate (.dict []) (.dict plainSet))).result = .ok w :=
    ok_of_isOk (by decide +kernel)
  obtain ⟨w, hw⟩ := hload
  have hset : (load .rules true (.dict plainSet)).result = .ok (.node (.str "set") (.list [])) := by
    rfl
  have hpartly := partlyLoaded_negatedPredicate .rules true _ .undefined _ _ rfl rfl
    (.absence _ _ (.inl rfl) (.inr (.inr rfl))) (.loaded _ _ hset)
  obtain ⟨hresult, -, hequal⟩ := load_of_partlyLoaded .rules true _ w hdecoded hw
  exact ⟨w, hw, hresult _ hpartly, hequal⟩

end Rulebook.Proofs
