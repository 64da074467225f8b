import Mathlib
import Rulebook.Proofs.Record.Buildable
import Rulebook.Proofs.Record.CanonicalForm
import Rulebook.Proofs.Record.NamedEntries
import Rulebook.Proofs.Record.Runs

/-!
# Loading what has been written

Under every schema whose fields are texts, a record that loads is written again, and what it loads
as comes back from the new record unless a single field holds a sequence of one: such a value is
taken for a wrapped one, and what is written is its only item.
-/

namespace Rulebook.Proofs
open Record

/-! ## Wrapped values -/

section Wrapped

variable {S : Schema} {strict : Bool}

lemma eq_list_of_load (v : Value) (ms : List Value)
    (h : (load S strict v).result = .ok (.list ms)) :
    ∃ items, v = .list items ∧
      List.Forall₂ (fun item m => (load S strict item).result = .ok m) items ms := by
  by_cases hdict : ∃ entries, v = .dict entries
  · obtain ⟨entries, rfl⟩ := hdict
    by_cases hne : entries = []
    · subst hne
      cases h
    · obtain ⟨t, payload, heq⟩ := isNode_of_load_record S strict entries hne _ h
      cases heq
  · by_cases hlist : ∃ items, v = .list items
    · obtain ⟨items, rfl⟩ := hlist
      obtain ⟨values, hvalues, heq⟩ := (load_list_ok S strict items _).mp h
      obtain rfl := Value.list.inj heq
      exact ⟨items, rfl, hvalues⟩
    · by_cases htuple : ∃ items, v = .tuple items
      · obtain ⟨items, rfl⟩ := htuple
        obtain ⟨values, -, heq⟩ := (load_tuple_ok S strict items _).mp h
        cases heq
      · rw [load_scalar S strict v (not_exists.mp hdict) (not_exists.mp hlist)
          (not_exists.mp htuple), result_pure] at h
        split at h
        · cases h
        · exact absurd ⟨ms, h⟩ hlist

/-- No value loads as the list that has it as its only item. -/
lemma not_equal_singleton (v m : Value) (h : (load S strict v).result = .ok m) :
    ¬m.equal (.list [v]) = true := by
  -- By induction on the size: the value would be a list of one itself, and so on down.
  generalize hsize : sizeOf v = n
  induction n using Nat.strong_induction_on generalizing v m with
  | _ n ih =>
  intro hequal
  obtain ⟨ms, rfl, hms⟩ := eq_list_of_equal m [v] hequal
  obtain ⟨items, rfl, hitems⟩ := eq_list_of_load v ms h
  obtain ⟨m, rest, hm, hrest, rfl⟩ := List.forall₂_cons_right_iff.mp hms
  obtain rfl := List.forall₂_nil_right_iff.mp hrest
  obtain ⟨item, more, hitem, hmore, rfl⟩ := List.forall₂_cons_right_iff.mp hitems
  obtain rfl := List.forall₂_nil_right_iff.mp hmore
  have hlt := sizeOf_item_lt (.list [item]) [item] rfl item (by simp)
  exact ih (sizeOf item) (hsize ▸ hlt) item m hitem rfl hm

/-- What is written for the only item of a value does not load as that value. -/
lemma not_equal_wrapped {isNumber : Binary64 → Prop} (type : String) (field value inner x m : Value)
    (hvalue : LoadedForm S isNumber (.field field) value) (hwrapped : isWrapped field value = true)
    (hinner : value.items? = some [inner])
    (hx : fieldValue type field (built S inner) = .ok x)
    (hm : (loadField type field (loaded S strict x)).result = .ok m) : ¬m.equal value = true := by
  cases hvalue with
  | rule _ _ _ htree => cases htree <;> cases hwrapped
  | rules _ values hfield htrees =>
    rw [isWrapped_trees field values hfield fun v hv => isNode_of_loadedForm v (htrees v hv)]
      at hwrapped
    cases hwrapped
  | args _ values hfield harguments =>
    obtain rfl := Option.some.inj hinner
    obtain ⟨name, value, -, -, rfl⟩ : ∃ name value, IsDecoded isNumber name ∧
        LoadedForm S isNumber .operand value ∧ inner = .tuple [name, value] := by
      cases harguments inner (by simp) with
      | argument name value hname hvalue => exact ⟨name, value, hname, hvalue, rfl⟩
    -- The pair itself is written as the list of arguments, which has two items.
    rw [fieldValue_arguments S type field _ _ hfield rfl] at hx
    obtain ⟨xs, hxs, rfl⟩ := ok_of_map hx
    obtain ⟨ms, hms, rfl⟩ := (loadField_args_ok S strict type field _ m xs hfield rfl).mp hm
    have hlength : ms.length = 2 := by
      rw [← hms.length_eq, ← ((mapM_ok _ _ _).mp hxs).length_eq]
      rfl
    intro hequal
    have hequal := ((equal_list ms _).mp hequal).length_eq
    rw [hlength] at hequal
    cases hequal
  | other _ _ hrule hrules hargs hoperand =>
    rw [fieldValue_other S _ _ _ hrule hrules fun h => absurd h hargs] at hx
    rw [loadField_other _ _ _ hargs hrule hrules, made_loaded] at hm
    have hlist : value = .list [inner] := by
      cases hoperand with
      | nested _ htree => cases htree <;> cases hwrapped
      | list values _ => rw [Option.some.inj hinner]
      | undefined => cases hwrapped
      | scalar _ hdecoded => exact eq_list_of_isDecoded value _ hdecoded hinner
    rw [hlist]
    split at hx
    · intro hequal
      obtain ⟨ms, rfl, -⟩ := eq_list_of_equal m [inner] hequal
      obtain ⟨entries, rfl⟩ := isDict_of_ofNode S inner x hx
      obtain ⟨items, heq, -⟩ := eq_list_of_load _ ms hm
      cases heq
    · obtain rfl := Except.ok.inj hx
      exact not_equal_singleton inner m hm

end Wrapped

/-! ## Trees from records -/

/-- A loaded value in which no single field holds a sequence of one, apart from the trees that stand
inside other values. -/
def IsBare (S : Schema) (place : Place) (v : Value) : Prop :=
  WellFormed S (fun _ => True) (fun v => v.exportsTree = false) place v

/-! ## Values of fields that are bare -/

section Bare

variable {S : Schema}

lemma isBare_rule (field w : Value) (hfield : field.text? = some "rule") :
    IsBare S (.field field) w ↔ IsBare S .tree w := by
  refine ⟨fun h => ?_, .rule field w hfield⟩
  cases h with
  | rule _ _ _ htree => exact htree
  | rules _ _ hrules => simp [hfield] at hrules
  | args _ _ hargs => simp [hfield] at hargs
  | other _ _ hrule => exact absurd hfield hrule

lemma isBare_rules (field : Value) (values : List Value) (hfield : field.text? = some "rules") :
    IsBare S (.field field) (.list values) ↔ ∀ v ∈ values, IsBare S .tree v := by
  refine ⟨fun h => ?_, .rules field values hfield⟩
  cases h with
  | rule _ _ hrule => simp [hfield] at hrule
  | rules _ _ _ htrees => exact htrees
  | args _ _ hargs => simp [hfield] at hargs
  | other _ _ _ hrules => exact absurd hfield hrules

lemma isBare_args (field : Value) (values : List Value) (hfield : field.text? = some "args") :
    IsBare S (.field field) (.list values) ↔ ∀ v ∈ values, IsBare S .argument v := by
  refine ⟨fun h => ?_, .args field values hfield⟩
  cases h with
  | rule _ _ hrule => simp [hfield] at hrule
  | rules _ _ hrules => simp [hfield] at hrules
  | args _ _ _ harguments => exact harguments
  | other _ _ _ _ hargs => exact absurd hfield hargs

lemma isBare_other (field w : Value) (hrule : field.text? ≠ some "rule")
    (hrules : field.text? ≠ some "rules") (hargs : field.text? ≠ some "args") :
    IsBare S (.field field) w ↔ IsBare S .operand w := by
  refine ⟨fun h => ?_, .other field w hrule hrules hargs⟩
  cases h with
  | rule _ _ hfield => exact absurd hfield hrule
  | rules _ _ hfield => exact absurd hfield hrules
  | args _ _ hfield => exact absurd hfield hargs
  | other _ _ _ _ _ hoperand => exact hoperand

lemma isBare_argument (name w : Value) :
    IsBare S .argument (.tuple [name, w]) ↔ IsBare S .operand w := by
  refine ⟨fun h => ?_, .argument name w trivial⟩
  cases h with
  | argument _ _ _ hoperand => exact hoperand

lemma isBare_nested (w : Value) (hexports : w.exportsTree = true) :
    IsBare S .operand w ↔ IsBare S .tree w := by
  refine ⟨fun h => ?_, .nested w⟩
  cases h with
  | nested _ htree => exact htree
  | plain _ hplain =>
    rw [hexports] at hplain
    cases hplain

end Bare

/-! ## Values at their places -/

/-- What it is for a loaded value to be written, and to come back as an equal one if it is bare. -/
def Rebuilds (S : Schema) (strict : Bool) : Place → Value → Prop
  | .tree, w => ∃ entries, ofNode S w = .ok (.dict entries) ∧ entries ≠ [] ∧
      ((∃ m, (load S strict (.dict entries)).result = .ok m ∧ m.equal w = true) ↔
        IsBare S .tree w)
  | .field field, w => ∀ type, ∃ x, fieldValue type field (built S w) = .ok x ∧
      ((∃ m, (loadField type field (loaded S strict x)).result = .ok m ∧ m.equal w = true) ↔
        IsBare S (.field field) w)
  | .argument, w => ∃ x, argument (built S w) = .ok x ∧
      ((∃ m : Value, (∃ name v v', x.items? = some [name, v] ∧ (load S strict v).result = .ok v' ∧
        m = .tuple [name, v']) ∧ m.equal w = true) ↔ IsBare S .argument w)
  | .operand, w => ∃ x, (if w.exportsTree then ofNode S w else .ok w) = .ok x ∧
      ((∃ m, (load S strict x).result = .ok m ∧ m.equal w = true) ↔ IsBare S .operand w)

section Rebuilding

variable {S : Schema} {strict strict' : Bool} {isNumber : Binary64 → Prop}

lemma fieldValue_congr (type : String) (field field' : Value) (part : Built)
    (h : field.text? = field'.text?) :
    fieldValue type field part = fieldValue type field' part := by
  unfold fieldValue
  rw [h]

/-- What is chosen for each item, alike for items with one key, is chosen for the key. -/
lemma exists_byKey {α β γ : Type} [Nonempty γ] (as : List α) (key : α → β) (f : α → γ)
    (h : ∀ a ∈ as, ∀ b ∈ as, key a = key b → f a = f b) :
    ∃ g : β → γ, ∀ a ∈ as, g (key a) = f a := by
  have hfactors : Function.FactorsThrough (fun a : {a // a ∈ as} => f a) fun a => key a :=
    fun a b heq => h a a.2 b b.2 heq
  obtain ⟨g, hg⟩ := (Function.factorsThrough_iff _).mp hfactors
  exact ⟨g, fun a ha => (congrFun hg ⟨a, ha⟩).symm⟩

/-- A node with a value for each field comes back where the values of its fields do. Fields of one
name have one value. -/
lemma rebuilds_node (t : String) (ht : (Value.str t).name = t) (fields values : List Value)
    (hfields : S.fields? (.str t) = some fields) (hnames : AreEntryNames fields)
    (hlength : values.length = fields.length)
    (hsame : ∀ p ∈ fields.zip values, ∀ q ∈ fields.zip values, p.1.name = q.1.name → p.2 = q.2)
    (hparts : fieldParts t fields (built S (payload values)) = .ok (values.map (built S)))
    (h : ∀ p ∈ fields.zip values, Rebuilds S strict (.field p.1) p.2)
    (hbare : (∀ p ∈ fields.zip values, IsBare S (.field p.1) p.2) ↔
      IsBare S .tree (.node (.str t) (payload values))) :
    Rebuilds S strict .tree (.node (.str t) (payload values)) := by
  choose! x hx hiff using fun p hp => h p hp t
  obtain ⟨value, hvalue⟩ := exists_byKey (fields.zip values) (fun p => p.1.name) x <| by
    intro p hp q hq heq
    have htext : p.1.text? = q.1.text? := by
      rw [(hnames p.1 (List.of_mem_zip hp).1).1, (hnames q.1 (List.of_mem_zip hq).1).1, heq]
    have hq := hx q hq
    rw [← hsame p hp q ‹_› heq, ← fieldValue_congr t p.1 q.1 _ htext, hx p hp] at hq
    exact Except.ok.inj hq
  obtain ⟨record, hrecord, hheld⟩ := ofNode_named t ht fields _ _ value hfields hnames hparts <| by
    rw [List.zip_map_right, List.forall_mem_map]
    intro p hp
    change fieldValue t p.1 (built S p.2) = .ok (value p.1.name)
    rw [hvalue p hp, hx p hp]
  refine ⟨record, hrecord, ne_nil_of_held hheld, ?_⟩
  rw [← hbare]
  have hloads : (∃ m, (load S strict (.dict record)).result = .ok m ∧
      m.equal (.node (.str t) (payload values)) = true) ↔
        ∃ ms, List.Forall₂ (fun field m => (loadField t field
          (loaded S strict (value field.name))).result = .ok m) fields ms ∧
            List.Forall₂ (fun m value => m.equal value = true) ms values := by
    simp only [load_held hheld ht hfields hnames]
    constructor
    · rintro ⟨_, ⟨ms, rfl, hms⟩, hequal⟩
      have hcount : ms.length = values.length := by rw [← hms.length_eq, hlength]
      exact ⟨ms, hms, (equal_payload ms values hcount).mp ((equal_node _ _ _ _).mp hequal).2⟩
    · rintro ⟨ms, hms, hequal⟩
      have hpayload := (equal_payload ms values hequal.length_eq).mpr hequal
      exact ⟨_, ⟨ms, rfl, hms⟩, (equal_node _ _ _ _).mpr ⟨equal_str_self t, hpayload⟩⟩
  rw [hloads, exists_between fields values hlength]
  refine forall₂_congr fun p hp => ?_
  rw [hvalue p hp]
  exact hiff p hp

lemma isBare_single (t : String) (field value : Value) (ht : t ∈ S.types)
    (hfields : S.fields? (.str t) = some [field])
    (hvalue : LoadedForm S isNumber (.field field) value)
    (hwrapped : isWrapped field value = false) :
    (∀ p ∈ [field].zip [value], IsBare S (.field p.1) p.2) ↔
      IsBare S .tree (.node (.str t) value) := by
  have hbare : field.text? = some "rule" ∨ field.text? = some "rules" ∨
      ∀ inner, value ≠ .list [inner] ∧ value ≠ .tuple [inner] := by
    by_cases hrules : field.text? = some "rules"
    · exact .inr (.inl hrules)
    · refine .inr (.inr fun inner => ⟨?_, ?_⟩)
      all_goals
        rintro rfl
        simp [isWrapped, hrules] at hwrapped
  rw [List.zip_cons_cons, List.zip_nil_left, List.forall_mem_singleton]
  constructor
  · exact fun h => .single t field value ht hfields h hbare
  · intro h
    cases h with
    | single _ field' _ _ hfields' h _ =>
      obtain rfl : field = field' := by simpa using hfields.symm.trans hfields'
      exact h
    | several _ fields _ _ hfields' hcount _ _ =>
      obtain rfl := Option.some.inj (hfields.symm.trans hfields')
      exact absurd rfl hcount

lemma isBare_several (t : String) (fields values : List Value) (ht : t ∈ S.types)
    (hfields : S.fields? (.str t) = some fields) (hcount : fields.length ≠ 1)
    (hlength : values.length = fields.length) :
    (∀ p ∈ fields.zip values, IsBare S (.field p.1) p.2) ↔
      IsBare S .tree (.node (.str t) (payload values)) := by
  rw [payload_several values (by rw [hlength]; exact hcount)]
  constructor
  · exact fun h => .several t fields values ht hfields hcount hlength h
  · intro h
    cases h with
    | single _ field _ _ hfields' _ _ =>
      obtain rfl := Option.some.inj (hfields.symm.trans hfields')
      exact absurd rfl hcount
    | several _ fields' _ _ hfields' _ _ h =>
      obtain rfl := Option.some.inj (hfields.symm.trans hfields')
      exact h

/-- A single field with a sequence of one is neither bare nor comes back. -/
lemma rebuilds_wrapped (hS : HasTextFields S) (t : String) (ht : (Value.str t).name = t)
    (field value : Value) (hfields : S.fields? (.str t) = some [field])
    (hnames : AreEntryNames [field]) (hvalue : LoadedForm S isNumber (.field field) value)
    (hwrapped : isWrapped field value = true) :
    Rebuilds S strict .tree (.node (.str t) value) := by
  obtain ⟨inner, hinner⟩ := items_of_isWrapped field value hwrapped
  obtain ⟨-, -, hbuild⟩ := canBuild_of_loadedForm hS (.field field) value hvalue
  obtain ⟨x, hx⟩ := hbuild hwrapped inner hinner t
  obtain ⟨record, hrecord, hheld⟩ := ofNode_named t ht [field] value [built S inner] (fun _ => x)
    hfields hnames (fieldParts_wrapped t field value inner hwrapped hinner) (by simpa using hx)
  refine ⟨record, hrecord, ne_nil_of_held hheld, iff_of_false ?_ ?_⟩
  · rintro ⟨m, hm, hequal⟩
    obtain ⟨ms, rfl, hms⟩ := (load_held hheld ht hfields hnames m).mp hm
    obtain ⟨m', rest, hm', hrest, rfl⟩ := List.forall₂_cons_left_iff.mp hms
    obtain rfl := List.forall₂_nil_left_iff.mp hrest
    exact not_equal_wrapped t field value inner x m' hvalue hwrapped hinner hx hm'
      ((equal_node _ _ _ _).mp hequal).2
  · intro hbare
    cases hbare with
    | single _ field' _ _ hfields' hvalue' hbare =>
      obtain rfl : field = field' := by simpa using hfields.symm.trans hfields'
      rw [isWrapped_of_wellFormed field value hvalue' hbare] at hwrapped
      cases hwrapped
    | several _ fields _ _ hfields' hcount _ _ =>
      obtain rfl := Option.some.inj (hfields.symm.trans hfields')
      exact absurd rfl hcount

/-- Two fields of one name take the same entry, and load as the same value. -/
lemma eq_of_name_eq (type : String) (entries : Entries) (fields values : List Value)
    (raw : Value → Value) (hnodup : (entries.map fun e => e.1.name).Nodup)
    (hentry : ∀ field ∈ fields, IsEntry entries field (raw field))
    (hvalues : List.Forall₂ (fun field value =>
      (loadField type field (loaded S strict (raw field))).result = .ok value) fields values) :
    ∀ p ∈ fields.zip values, ∀ q ∈ fields.zip values, p.1.name = q.1.name → p.2 = q.2 := by
  intro p hp q hq heq
  have hentryp := hentry p.1 (List.of_mem_zip hp).1
  have hentryq := hentry q.1 (List.of_mem_zip hq).1
  have hloadp := (List.forall₂_iff_zip.mp hvalues).2 hp
  have hloadq := (List.forall₂_iff_zip.mp hvalues).2 hq
  have htext : p.1.text? = q.1.text? := by
    rw [(name_of_isEntry entries p.1 _ hentryp).1, (name_of_isEntry entries q.1 _ hentryq).1, heq]
  have hraw : raw p.1 = raw q.1 := by
    apply isEntry_unique entries hnodup p.1 _ _ hentryp
    unfold IsEntry
    rw [htext]
    exact hentryq
  rw [hraw, loadField_congr type p.1 q.1 _ htext] at hloadp
  exact Except.ok.inj (hloadp.symm.trans hloadq)

/-- A record that loads is written again as said, if the values of its fields are. -/
lemma rebuilds_record (hS : HasTextFields S) (entries : Entries) (tag : Value)
    (fields values : List Value) (raw : Value → Value)
    (hnodup : (entries.map fun e => e.1.name).Nodup) (hfields : S.fields? tag = some fields)
    (hentry : ∀ field ∈ fields, IsEntry entries field (raw field))
    (hvalues : List.Forall₂ (fun field value =>
      (loadField tag.name field (loaded S strict (raw field))).result = .ok value) fields values)
    (hform : ∀ p ∈ fields.zip values, LoadedForm S isNumber (.field p.1) p.2)
    (h : ∀ p ∈ fields.zip values, Rebuilds S strict' (.field p.1) p.2) :
    Rebuilds S strict' .tree (.node (.str tag.name) (payload values)) := by
  have ht := name_str_name tag
  have hname : S.fields? (.str tag.name) = some fields := (fields?_name S tag).trans hfields
  have htype := mem_types_of_fields? S tag fields hfields
  have hlength := hvalues.length_eq.symm
  have hnames : AreEntryNames fields := fun field hfield =>
    name_of_isEntry entries field (raw field) (hentry field hfield)
  have hsame := eq_of_name_eq tag.name entries fields values raw hnodup hentry hvalues
  rcases payload_cases fields values hlength with ⟨field, value, rfl, rfl⟩ | ⟨hcount, -⟩
  · have hvalue := hform (field, value) List.mem_cons_self
    by_cases hwrapped : isWrapped field value = true
    · exact rebuilds_wrapped hS tag.name ht field value hname hnames hvalue hwrapped
    · rw [Bool.not_eq_true] at hwrapped
      exact rebuilds_node tag.name ht [field] [value] hname hnames rfl hsame
        (fieldParts_single tag.name field value hwrapped) h
        (isBare_single tag.name field value htype hname hvalue hwrapped)
  · exact rebuilds_node tag.name ht fields values hname hnames hlength hsame
      (fieldParts_several tag.name fields values hcount hlength) h
      (isBare_several tag.name fields values htype hname hcount hlength)

lemma isNode_of_load_entries (entries : Entries) (hne : entries ≠ []) (m : Value)
    (h : (load S strict (.dict entries)).result = .ok m) : m.isNode = true := by
  obtain ⟨t, payload, rfl⟩ := isNode_of_load_record S strict entries hne m h
  rfl

/-- What a value at its place loads as comes back as said. -/
def RebuildsLoaded (S : Schema) (strict strict' : Bool) : Place → Value → Prop
  | .tree, v => ∀ w, (load S strict v).result = .ok w → Rebuilds S strict' .tree w
  | .field field, v => ∀ type w, (loadField type field (loaded S strict v)).result = .ok w →
      Rebuilds S strict' (.field field) w
  | .argument, v => ∀ name value w, v.items? = some [name, value] →
      (load S strict value).result = .ok w → Rebuilds S strict' .argument (.tuple [name, w])
  | .operand, v => ∀ w, (load S strict v).result = .ok w → Rebuilds S strict' .operand w

/-- Nothing is left to load in what has been loaded. -/
lemma isSettled_of_loadedForm (v : Value) (h : LoadedForm S isNumber .operand v) :
    isSettled v = true := by
  -- The operands of a list are operands again, so no other place is met on the way down.
  generalize hplace : Place.operand = place at h
  induction h with
  | nested v htree => cases htree <;> rfl
  | list values _ ih =>
    rw [isSettled, areSettled_iff]
    exact fun value hvalue => ih value hvalue rfl
  | undefined => rfl
  | scalar v hv hdict hlist htext =>
    exact (isCopied_of_isScalar v (isScalar_of_isDecoded v hv hdict hlist) htext).2
  | _ => cases hplace

/-- An operand that is no tree is written as it is, and comes back. -/
lemma rebuilds_operand (w : Value) (hform : LoadedForm S (· ≠ .nan) .operand w)
    (hexports : w.exportsTree = false) : Rebuilds S strict .operand w := by
  refine ⟨w, by rw [if_neg (by simp [hexports])], iff_of_true ?_ (.plain w hexports)⟩
  refine ⟨w, ?_, equal_of_loadedForm (fun x hx => hx) .operand w hform⟩
  rw [load_settled S strict w (isSettled_of_loadedForm w hform)]
  rfl

lemma rebuilds_nested (w : Value) (hnode : w.isNode = true) (h : Rebuilds S strict .tree w) :
    Rebuilds S strict .operand w := by
  have hexports := exportsTree_of_isNode w hnode
  obtain ⟨entries, hrecord, -, hiff⟩ := h
  exact ⟨.dict entries, by rw [if_pos hexports, hrecord], by rw [hiff, isBare_nested w hexports]⟩

lemma rebuilds_rule (field w : Value) (hfield : field.text? = some "rule")
    (h : Rebuilds S strict .tree w) : Rebuilds S strict (.field field) w := by
  intro type
  obtain ⟨entries, hrecord, hne, hiff⟩ := h
  refine ⟨.dict entries, by rw [fieldValue_rule _ _ _ hfield, made_built, hrecord], ?_⟩
  rw [isBare_rule field w hfield, ← hiff]
  refine exists_congr fun m => and_congr_left fun hequal => ?_
  rw [loadField_rule_ok S strict type field _ m hfield, and_iff_left_iff_imp]
  exact fun hm => isNode_of_load_entries entries hne m hm

lemma rebuilds_rules (field : Value) (values : List Value) (hfield : field.text? = some "rules")
    (h : ∀ v ∈ values, Rebuilds S strict .tree v) :
    Rebuilds S strict (.field field) (.list values) := by
  intro type
  choose! entries hrecord hne hiff using h
  refine ⟨.list (values.map fun v => .dict (entries v)), ?_, ?_⟩
  · exact fieldValue_trees_ok S type field values _ hfield (forall₂_map_of_forall hrecord)
  · have hloads : (∃ m, (loadField type field (loaded S strict
        (.list (values.map fun v => .dict (entries v))))).result = .ok m ∧
          m.equal (.list values) = true) ↔
            ∃ ms, List.Forall₂ (fun v m => (load S strict (.dict (entries v))).result = .ok m)
              values ms ∧ List.Forall₂ (fun m v => m.equal v = true) ms values := by
      simp only [loadField_rules_ok S strict type field _ _ hfield, load_list_ok,
        List.forall₂_map_left_iff]
      constructor
      · rintro ⟨_, ⟨⟨ms, hms, rfl⟩, -⟩, hequal⟩
        exact ⟨ms, hms, (equal_list ms values).mp hequal⟩
      · rintro ⟨ms, hms, hequal⟩
        refine ⟨.list ms, ⟨⟨ms, hms, rfl⟩, ?_⟩, (equal_list ms values).mpr hequal⟩
        refine List.all_eq_true.mpr (forall_right_of_forall₂ ?_ hms)
        exact fun v hv m hm => isNode_of_load_entries (entries v) (hne v hv) m hm
    rw [hloads, exists_between_self, isBare_rules field values hfield]
    exact forall₂_congr hiff

lemma rebuilds_args (field : Value) (values : List Value) (hfield : field.text? = some "args")
    (h : ∀ v ∈ values, Rebuilds S strict .argument v) :
    Rebuilds S strict (.field field) (.list values) := by
  intro type
  choose! x hx hiff using h
  refine ⟨.list (values.map x), ?_, ?_⟩
  · exact fieldValue_arguments_ok S type field values _ hfield (forall₂_map_of_forall hx)
  · simp only [fun m => loadField_args_ok S strict type field (.list (values.map x)) m _ hfield rfl,
      List.forall₂_map_left_iff]
    rw [isBare_args field values hfield, ← forall₂_congr hiff, ← exists_between_self]
    constructor
    · rintro ⟨_, ⟨ms, hms, rfl⟩, hequal⟩
      exact ⟨ms, hms, (equal_list ms values).mp hequal⟩
    · rintro ⟨ms, hms, hequal⟩
      exact ⟨.list ms, ⟨ms, hms, rfl⟩, (equal_list ms values).mpr hequal⟩

lemma rebuilds_argument (name w : Value) (hname : name.equal name = true)
    (h : Rebuilds S strict .operand w) : Rebuilds S strict .argument (.tuple [name, w]) := by
  obtain ⟨x, hx, hiff⟩ := h
  refine ⟨.tuple [name, x], argument_tuple S name w x hx, ?_⟩
  rw [isBare_argument, ← hiff]
  constructor
  · rintro ⟨_, ⟨name', v, v', hpair, hload, rfl⟩, hequal⟩
    obtain ⟨rfl, rfl⟩ : name = name' ∧ x = v := by simpa [Value.items?] using hpair
    rw [equal_tuple, List.forall₂_cons, List.forall₂_cons] at hequal
    exact ⟨v', hload, hequal.2.1⟩
  · rintro ⟨v', hload, hequal⟩
    exact ⟨_, ⟨name, x, v', rfl, hload, rfl⟩,
      (equal_tuple _ _).mpr (.cons hname (.cons hequal .nil))⟩

lemma rebuilds_other (field w : Value) (hrule : field.text? ≠ some "rule")
    (hrules : field.text? ≠ some "rules") (hargs : field.text? ≠ some "args")
    (h : Rebuilds S strict .operand w) : Rebuilds S strict (.field field) w := by
  intro type
  obtain ⟨x, hx, hiff⟩ := h
  refine ⟨x, ?_, ?_⟩
  · rw [fieldValue_other S _ _ _ hrule hrules fun h => absurd h hargs]
    exact hx
  · rw [isBare_other field w hrule hrules hargs, ← hiff, loadField_other _ _ _ hargs hrule hrules,
      made_loaded]

/-- What is neither a mapping nor a sequence loads as a value that exports no tree. -/
lemma exportsTree_of_load_scalar (v w : Value) (hv : IsDecoded isNumber v)
    (hdict : ∀ entries, v ≠ .dict entries) (hlist : ∀ items, v ≠ .list items)
    (htuple : ∀ items, v ≠ .tuple items) (h : (load S strict v).result = .ok w) :
    w.exportsTree = false := by
  rw [load_scalar S strict v hdict hlist htuple, result_pure] at h
  subst h
  split
  · rfl
  · exact exportsTree_of_isDecoded v hv

lemma loadedForm_of_loadField (type : String) (field v w : Value)
    (hloadable : Loadable S strict (.field field) v) (hv : IsDecoded isNumber v)
    (h : (loadField type field (loaded S strict v)).result = .ok w) :
    LoadedForm S isNumber (.field field) w :=
  loadedForm_of_loadsAs _ v w (loadsAsSaid _ v hloadable hv type w h) hv

/-- Whatever loads from a text is written, and comes back if it is bare, by induction on the grammar
of what loads. -/
lemma rebuildsLoaded (hS : HasTextFields S) (place : Place) (v : Value)
    (h : Loadable S strict place v) (hv : IsDecoded (· ≠ .nan) v) :
    RebuildsLoaded S strict strict' place v := by
  induction h with
  | scalar v hdict hlist htuple =>
    intro w hw
    have hform := loadedForm_of_load v w hv hw
    exact rebuilds_operand w hform (exportsTree_of_load_scalar v w hv hdict hlist htuple hw)
  | list items _ ih =>
    intro w hw
    apply rebuilds_operand w (loadedForm_of_load _ w hv hw)
    obtain ⟨values, -, rfl⟩ := (load_list_ok S strict items w).mp hw
    rfl
  | tuple => cases hv
  | empty =>
    intro w hw
    obtain rfl := Except.ok.inj hw
    exact rebuilds_operand .undefined .undefined rfl
  | nested v htree ih =>
    intro w hw
    obtain ⟨w', hw', hnode⟩ := loads_of_loadable S strict .tree v htree
    obtain rfl := Except.ok.inj (hw.symm.trans hw')
    exact rebuilds_nested w hnode (ih hv w hw)
  | record entries tag fields raw hnodup htag hfields _ hentry hloadable ih =>
    intro w hw
    obtain ⟨values, rfl, hvalues⟩ :=
      load_record_entries entries tag fields raw w hnodup htag hfields hentry hw
    have hraw (field : Value) (hfield : field ∈ fields) :=
      isDecoded_entry entries field (raw field) hv (hentry field hfield)
    have hloads : ∀ p ∈ fields.zip values,
        (loadField tag.name p.1 (loaded S strict (raw p.1))).result = .ok p.2 :=
      fun p hp => (List.forall₂_iff_zip.mp hvalues).2 hp
    apply rebuilds_record hS entries tag fields values raw hnodup hfields hentry hvalues
    · intro p hp
      have hfield := (List.of_mem_zip hp).1
      exact loadedForm_of_loadField tag.name p.1 (raw p.1) p.2 (hloadable p.1 hfield)
        (hraw p.1 hfield) (hloads p hp)
    · intro p hp
      have hfield := (List.of_mem_zip hp).1
      exact ih p.1 hfield (hraw p.1 hfield) tag.name p.2 (hloads p hp)
  | node => cases hv
  | rule field v hfield _ ih =>
    intro type w hw
    obtain ⟨hload, -⟩ := (loadField_rule_ok S strict type field v w hfield).mp hw
    exact rebuilds_rule field w hfield (ih hv w hload)
  | rules field v items hfield hitems _ ih =>
    rcases hitems with rfl | rfl
    · intro type w hw
      obtain ⟨hload, -⟩ := (loadField_rules_ok S strict type field _ w hfield).mp hw
      obtain ⟨values, hvalues, rfl⟩ := (load_list_ok S strict items w).mp hload
      have hdecoded := isDecoded_items (.list items) items hv rfl
      refine rebuilds_rules field values hfield (forall_right_of_forall₂ ?_ hvalues)
      exact fun item hitem w hw => ih item hitem (hdecoded item hitem) w hw
    · cases hv
  | pair => cases hv
  | args field v items hfield hitems _ ih =>
    intro type w hw
    have hdecoded := isDecoded_items v items hv hitems
    obtain ⟨values, hvalues, rfl⟩ :=
      (loadField_args_ok S strict type field v w items hfield hitems).mp hw
    refine rebuilds_args field values hfield (forall_right_of_forall₂ ?_ hvalues)
    rintro item hitem _ ⟨name, v, w, hpair, hload, rfl⟩
    exact ih item hitem (hdecoded item hitem) name v w hpair hload
  | other field v hrule hrules hargs _ ih =>
    intro type w hw
    rw [loadField_other _ _ _ hargs hrule hrules] at hw
    exact rebuilds_other field w hrule hrules hargs (ih hv w hw)
  | argument v name value hpair _ ih =>
    intro name' value' w hpair' hload
    obtain ⟨rfl, rfl⟩ : name = name' ∧ value = value' := by
      simpa using hpair.symm.trans hpair'
    have hdecoded := isDecoded_items v _ hv hpair
    have hname := equal_of_isDecoded (fun x hx => hx) name (hdecoded name (by simp))
    exact rebuilds_argument name w hname (ih (hdecoded value (by simp)) w hload)

lemma toNode_eq_load (entries : Entries) (hne : entries ≠ []) :
    toNode S strict (.dict entries) = load S strict (.dict entries) := by
  have hentries : (loaded S strict (.dict entries)).entries =
      entries.map fun e => (e.1, loaded S strict e.2) := Part.ofEntries_eq_map _ entries
  rw [load_dict S strict entries hne, ← hentries]
  rfl

/-- Under a schema whose fields are texts, what a record loads as is written again, and comes back
as an equal node exactly when it is bare: where a single field holds a sequence of one, its only item
is written in its place. -/
theorem toNode_ofNode_iff_isBare (hS : HasTextFields S) (r n : Value)
    (hr : IsDecoded (· ≠ .nan) r) (hn : (toNode S strict r).result = .ok n) :
    ∃ record, ofNode S n = .ok record ∧
      ((∃ m, (toNode S strict' record).result = .ok m ∧ m.equal n = true) ↔ IsBare S .tree n) := by
  obtain ⟨entries, rfl, hne, hload⟩ := load_of_toNode S strict r n hn
  have hnode := isNode_of_load_entries entries hne n hload
  have hloadable := tree_of_operand S strict (.dict entries) n
    ((load_isOk_iff S strict _).mp ⟨n, hload⟩) hload hnode
  have hrebuilds : RebuildsLoaded S strict strict' .tree (.dict entries) :=
    rebuildsLoaded hS .tree (.dict entries) hloadable hr
  obtain ⟨record, hrecord, hnonempty, hiff⟩ := hrebuilds n hload
  exact ⟨.dict record, hrecord, by rw [toNode_eq_load record hnonempty, hiff]⟩

end Rebuilding

/-! ## A sequence of one -/

/-- A schema with one type of one plain field. -/
def boxSchema : Schema := ⟨[("box", [.str "value"])]⟩

/-- A box with a list of one number. -/
def listedBox : Value := .dict [(.str "type", .str "box"), (.str "value", .list [.int 1])]

lemma toNode_listedBox :
    ∃ n record m, (toNode boxSchema false listedBox).result = .ok n ∧
      ofNode boxSchema n = .ok record ∧ (toNode boxSchema false record).result = .ok m ∧
      m.equal n = false := by
  have hrun : (((toNode boxSchema false listedBox).result.toOption.bind fun n =>
      (ofNode boxSchema n).toOption.bind fun record =>
        (toNode boxSchema false record).result.toOption.map fun m => m.equal n)) = some false := by
    decide +kernel
  obtain ⟨n, hn, hrun⟩ := Option.bind_eq_some_iff.mp hrun
  obtain ⟨record, hrecord, hrun⟩ := Option.bind_eq_some_iff.mp hrun
  obtain ⟨m, hm, hequal⟩ := Option.map_eq_some_iff.mp hrun
  exact ⟨n, record, m, ok_of_toOption hn, ok_of_toOption hrecord, ok_of_toOption hm, hequal⟩

/-- A list of one comes back as its only item, which is no equal value. -/
theorem not_toNode_ofNode_listedBox :
    ∃ n record, (toNode boxSchema false listedBox).result = .ok n ∧
      ofNode boxSchema n = .ok record ∧
      ¬∃ m, (toNode boxSchema false record).result = .ok m ∧ m.equal n = true := by
  obtain ⟨n, record, m, hn, hrecord, hm, hequal⟩ := toNode_listedBox
  refine ⟨n, record, hn, hrecord, ?_⟩
  rintro ⟨m', hm', hequal'⟩
  obtain rfl := Except.ok.inj (hm.symm.trans hm')
  rw [hequal] at hequal'
  cases hequal'

/-- Whether the box comes back is decided by the list in it. -/
theorem toNode_ofNode_listedBox_iff :
    ∃ n record, (toNode boxSchema false listedBox).result = .ok n ∧
      ofNode boxSchema n = .ok record ∧
      ((∃ m, (toNode boxSchema true record).result = .ok m ∧ m.equal n = true) ↔
        IsBare boxSchema .tree n) := by
  obtain ⟨n, -, -, hn, -⟩ := toNode_listedBox
  have hfields : HasTextFields boxSchema := by simp [HasTextFields, boxSchema, Value.text?]
  have hdecoded : IsDecoded (· ≠ .nan) listedBox := by
    refine .dict _ ?_ (by simp) ?_
    · simp
    · simp only [List.mem_cons, List.not_mem_nil, or_false, forall_eq_or_imp, forall_eq]
      exact ⟨.str "box", .list _ fun item hitem => by
        obtain rfl := List.mem_singleton.mp hitem
        exact .int 1⟩
  obtain ⟨record, hrecord, hiff⟩ := toNode_ofNode_iff_isBare hfields listedBox n hdecoded hn
  exact ⟨n, record, hn, hrecord, hiff⟩

end Rulebook.Proofs
