import Mathlib
import Rulebook.Proofs.Pipeline.Carried

/-!
# Texts and back

A well-formed tree of plain operands comes back from its JSON text, whatever the options of the
pipeline are.
-/

namespace Rulebook.Proofs
open Record Json

/-! ## Plain operands -/

mutual

/-- Whether a value is plain data of the kinds that a text tells apart: the token for no value, null,
truth values, numbers, texts other than the one for no value, and lists of such. -/
def isPlainData : Value → Bool
  | .undefined | .null | .bool _ | .int _ | .float _ => true
  | .str s => s != undefinedText
  | .list items => arePlainData items
  | _ => false

/-- Whether all values are plain data. -/
def arePlainData : List Value → Bool
  | [] => true
  | item :: rest => isPlainData item && arePlainData rest

end

lemma arePlainData_iff (items : List Value) :
    arePlainData items = true ↔ ∀ item ∈ items, isPlainData item = true := by
  induction items with
  | nil => simp [arePlainData]
  | cons item rest ih => rw [arePlainData, Bool.and_eq_true, ih, List.forall_mem_cons]

mutual

/-- Plain data without long integers is written. -/
lemma isWritable_of_isPlainData (layout : Layout) (v : Value) (h : isPlainData v = true)
    (hshort : HasShortIntegers layout.digits v) : IsWritable layout v := by
  match v with
  | .null | .bool _ | .float _ | .str _ | .undefined => exact fun depth => ⟨_, rfl⟩
  | .int n => exact isWritable_int layout n (hshort n .self)
  | .list items =>
    rw [hasShortIntegers_list_iff] at hshort
    exact isWritable_list layout items (areWritable_of_arePlainData layout items h hshort)
  | .bytes _ | .tuple _ | .dict _ | .set _ | .timestamp _ | .node .. | .rule _ | .brokenRule _ |
    .member _ | .constant _ | .inert => simp [isPlainData] at h

lemma areWritable_of_arePlainData (layout : Layout) (items : List Value)
    (h : arePlainData items = true) (hshort : ∀ item ∈ items, HasShortIntegers layout.digits item) :
    ∀ item ∈ items, IsWritable layout item := by
  match items with
  | [] => simp
  | item :: rest =>
    rw [arePlainData, Bool.and_eq_true] at h
    rw [List.forall_mem_cons] at hshort ⊢
    exact ⟨isWritable_of_isPlainData layout item h.1 hshort.1,
      areWritable_of_arePlainData layout rest h.2 hshort.2⟩

end

mutual

/-- Plain data comes back from its text. -/
lemma load_of_isPlainData (S : Schema) (strict : Bool) (layout : Layout) (v : Value)
    (h : isPlainData v = true) : load S strict (reading layout v) = pure v := by
  match v with
  | .null | .bool _ | .int _ | .float _ => rfl
  | .undefined =>
    rw [reading]
    cases layout.emptyObject <;> rfl
  | .str s =>
    have hne : (Value.str s).text? ≠ some undefinedText := by
      simpa [isPlainData, Value.text?] using h
    change load S strict (.str s) = _
    rw [load_scalar S strict _ (by simp) (by simp) (by simp), if_neg hne]
  | .list items =>
    rw [reading, readings_eq_map, load_list, load_of_arePlainData S strict layout items h]
    rfl
  | .bytes _ | .tuple _ | .dict _ | .set _ | .timestamp _ | .node .. | .rule _ | .brokenRule _ |
    .member _ | .constant _ | .inert => simp [isPlainData] at h

lemma load_of_arePlainData (S : Schema) (strict : Bool) (layout : Layout) (items : List Value)
    (h : arePlainData items = true) :
    Loading.all ((items.map (reading layout)).map (load S strict)) = pure items := by
  match items with
  | [] => rfl
  | item :: rest =>
    rw [arePlainData, Bool.and_eq_true] at h
    rw [List.map_cons, List.map_cons, Loading.all, load_of_isPlainData S strict layout item h.1,
      load_of_arePlainData S strict layout rest h.2]
    rfl

end

lemma exportsTree_of_isPlainData (v : Value) (h : isPlainData v = true) :
    v.exportsTree = false := by
  unfold isPlainData at h
  split at h <;> first | rfl | cases h

/-! ## Pipelines -/

/-- An indentation by a count of blanks that is no negative number and fits an index, or none. -/
def IsIndentation (indent : Value) : Prop :=
  indent = .null ∨ (∃ b, indent = .bool b) ∨ ∃ n : Int, indent = .int n ∧ 0 ≤ n ∧ n < 2 ^ 63

lemma isCount_of_isIndentation (indent : Value) (h : IsIndentation indent) : IsCount indent := by
  rcases h with h | h | ⟨n, h, hzero, hsize⟩
  · exact .inl h
  · exact .inr (.inl h)
  · exact .inr (.inr ⟨n, h, by omega, hsize⟩)

/-- A tree of the schema of rule expressions with texts as argument names and plain data as
operands. -/
def IsDataTree (n : Value) : Prop :=
  WellFormed .rules (fun name => ∃ s, name = .str s) (fun v => isPlainData v = true) .tree n

section Trees

variable (strict : Bool) (layout : Layout) (n : Value)

lemma comesBack_of_isDataTree (h : IsDataTree n) :
    ComesBack .rules strict (reading layout) (fun _ => True) .tree n := by
  apply comesBack_of_wellFormed (carriesRecords_any (carriesRecords_reading layout)) types_rules
    areFieldNames_rules _ _ .tree n h
  · rintro name ⟨s, rfl⟩
    exact ⟨trivial, rfl⟩
  · intro v hv
    exact ⟨exportsTree_of_isPlainData v hv, trivial, load_of_isPlainData .rules strict layout v hv⟩

lemma comesBack_of_hasShortIntegers (h : IsDataTree n) (hshort : HasShortIntegers layout.digits n) :
    ComesBack .rules strict (reading layout) (IsWritable layout) .tree n := by
  apply comesBack_of_wellFormed (carriesRecords_reading layout) types_rules areFieldNames_rules _ _
    .tree n (wellFormed_of_hasShortIntegers .tree n h hshort)
  · rintro name ⟨⟨s, rfl⟩, -⟩
    exact ⟨fun depth => ⟨_, rfl⟩, rfl⟩
  · rintro v ⟨hv, hshort⟩
    exact ⟨exportsTree_of_isPlainData v hv, isWritable_of_isPlainData layout v hv hshort,
      load_of_isPlainData .rules strict layout v hv⟩

end Trees

section Pipelines

variable (o : Options) (ho : IsIndentation o.indent)

include ho

/-- Whatever loads after its records have been written comes back from its text. -/
lemma load_of_records (v records tree : Value) (text : String)
    (hrecords : ({ options := o } : Pipeline).serialize v = .ok records)
    (hload : ∀ layout, Record.load .rules o.strictMode.isTrue (reading layout records) = pure tree)
    (htext : ({ options := o } : Pipeline).dump v = .ok text) :
    ({ options := o } : Pipeline).load (.str text) = pure tree.unsplat := by
  obtain ⟨indent, hindent, hlayout⟩ :=
    indentation_of_isCount o.jsonCodec (isCount_of_isIndentation _ ho)
  rw [load_of_dump o indent hindent hlayout v records text hrecords htext, hload]
  rfl

lemma load_dump_tree (n : Value) (hn : IsDataTree n) (text : String)
    (htext : ({ options := o } : Pipeline).dump n = .ok text) :
    ({ options := o } : Pipeline).load (.str text) = pure n := by
  obtain ⟨hnode, record, hrecord, -⟩ := comesBack_of_isDataTree o.strictMode.isTrue
    (o.jsonCodec.layout none) n hn
  have hload := load_of_records o ho n record n text
    (by rw [serialize_node _ n hnode, hrecord]; rfl) (fun layout => ?_) htext
  · rwa [unsplat_of_isNode n hnode] at hload
  · obtain ⟨-, record', hrecord', -, hload⟩ :=
      comesBack_of_isDataTree o.strictMode.isTrue layout n hn
    obtain rfl := Except.ok.inj (hrecord.symm.trans hrecord')
    exact hload

lemma load_dump_trees (ns : List Value) (hns : ∀ n ∈ ns, IsDataTree n) (text : String)
    (htext : ({ options := o } : Pipeline).dump (.list ns) = .ok text) :
    ({ options := o } : Pipeline).load (.str text) = pure (Value.list ns).unsplat := by
  have htrees (layout : Layout) (n : Value) (hn : n ∈ ns) :=
    comesBack_of_isDataTree o.strictMode.isTrue layout n (hns n hn)
  obtain ⟨records, hrecords, -⟩ := comesBack_trees ns (htrees (o.jsonCodec.layout none))
  have hnodes := fun n hn => (htrees (o.jsonCodec.layout none) n hn).1
  refine load_of_records o ho (.list ns) (.list records) (.list ns) text
    (by rw [serialize_list _ ns hnodes, hrecords]; rfl) (fun layout => ?_) htext
  obtain ⟨records', hrecords', -, hloads⟩ := comesBack_trees ns (htrees layout)
  obtain rfl := Except.ok.inj (hrecords.symm.trans hrecords')
  rw [reading, readings_eq_map, load_list, hloads]
  rfl

lemma dump_isOk_tree (n : Value) (hn : IsDataTree n)
    (hshort : HasShortIntegers o.jsonCodec.digits n) :
    ∃ text, ({ options := o } : Pipeline).dump n = .ok text := by
  obtain ⟨indent, hindent, hlayout⟩ :=
    indentation_of_isCount o.jsonCodec (isCount_of_isIndentation _ ho)
  obtain ⟨hnode, record, hrecord, hwritable, -⟩ := comesBack_of_hasShortIntegers
    o.strictMode.isTrue (o.jsonCodec.layout indent) n hn hshort
  obtain ⟨text, htext, -⟩ := load_of_serialize o indent hindent hlayout n record
    (by rw [serialize_node _ n hnode, hrecord]; rfl) hwritable
  exact ⟨text, htext⟩

lemma dump_isOk_trees (ns : List Value) (hns : ∀ n ∈ ns, IsDataTree n)
    (hshort : HasShortIntegers o.jsonCodec.digits (.list ns)) :
    ∃ text, ({ options := o } : Pipeline).dump (.list ns) = .ok text := by
  obtain ⟨indent, hindent, hlayout⟩ :=
    indentation_of_isCount o.jsonCodec (isCount_of_isIndentation _ ho)
  rw [hasShortIntegers_list_iff] at hshort
  have htrees (n : Value) (hn : n ∈ ns) := comesBack_of_hasShortIntegers
    o.strictMode.isTrue (o.jsonCodec.layout indent) n (hns n hn) (hshort n hn)
  obtain ⟨records, hrecords, hwritable, -⟩ := comesBack_trees ns htrees
  obtain ⟨text, htext, -⟩ := load_of_serialize o indent hindent hlayout (.list ns) (.list records)
    (by rw [serialize_list _ ns fun n hn => (htrees n hn).1, hrecords]; rfl)
    (isWritable_list _ records hwritable)
  exact ⟨text, htext⟩

/-- A tree that is written comes back, so none of its integers is too long. -/
lemma hasShortIntegers_of_dump (n : Value) (hn : IsDataTree n) (text : String)
    (htext : ({ options := o } : Pipeline).dump n = .ok text) :
    HasShortIntegers o.jsonCodec.digits n :=
  hasShortIntegers_of_pipeline o (.str text) n
    (by rw [load_dump_tree o ho n hn text htext]; rfl)

/-- Trees are written if and only if none of their integers is too long, and come back from their
text; lists of trees as well, where a list of one is its item. No warning is issued. -/
theorem load_dump :
    (∀ n, IsDataTree n →
      ((∃ text, ({ options := o } : Pipeline).dump n = .ok text) ↔
        HasShortIntegers o.jsonCodec.digits n) ∧
      ∀ text, ({ options := o } : Pipeline).dump n = .ok text →
        ({ options := o } : Pipeline).load (.str text) = pure n) ∧
    ∀ ns : List Value, (∀ n ∈ ns, IsDataTree n) →
      ((∃ text, ({ options := o } : Pipeline).dump (.list ns) = .ok text) ↔
        HasShortIntegers o.jsonCodec.digits (.list ns)) ∧
      ∀ text, ({ options := o } : Pipeline).dump (.list ns) = .ok text →
        ({ options := o } : Pipeline).load (.str text) = pure (Value.list ns).unsplat := by
  constructor
  · intro n hn
    refine ⟨⟨?_, dump_isOk_tree o ho n hn⟩, load_dump_tree o ho n hn⟩
    rintro ⟨text, htext⟩
    exact hasShortIntegers_of_dump o ho n hn text htext
  · intro ns hns
    refine ⟨⟨?_, dump_isOk_trees o ho ns hns⟩, load_dump_trees o ho ns hns⟩
    rintro ⟨text, htext⟩
    rw [← hasShortIntegers_unsplat_iff]
    exact hasShortIntegers_of_pipeline o (.str text) _
      (by rw [load_dump_trees o ho ns hns text htext]; rfl)

end Pipelines

/-! ## Predicates -/

lemma isDataTree_predicate (name : String) (hname : name ≠ undefinedText)
    (arguments : List (String × Value)) (h : ∀ a ∈ arguments, isPlainData a.2 = true) :
    IsDataTree (.node (.str "predicate")
      (.tuple [.str name, .list (arguments.map fun a => .tuple [.str a.1, a.2])])) := by
  have hfields := fields?_rules_str "predicate" [.str "name", .str "args"] (by decide) rfl
  refine .several _ _ _ (by decide) hfields (by simp) rfl ?_
  simp only [List.zip_cons_cons, List.zip_nil_left, List.forall_mem_cons]
  refine ⟨?_, ?_, List.forall_mem_nil _⟩
  · exact .other _ _ (by simp [Value.text?]) (by simp [Value.text?]) (by simp [Value.text?])
      (.plain _ (by simpa [isPlainData] using hname))
  · refine .args _ _ rfl ?_
    rw [List.forall_mem_map]
    exact fun a ha => .argument _ _ ⟨a.1, rfl⟩ (.plain _ (h a ha))

/-- Sorted names, escapes, an indentation, and empty objects for no value. -/
def sortingOptions : Options where
  indent := .int 2
  ensureAscii := .bool true
  sortKeys := .bool true
  undefinedEncoding := .str "empty_object"

/-- A negated predicate with the token for no value in its argument. -/
def predicateNegation : Value :=
  .node (.str "negation") (.node (.str "predicate")
    (.tuple [.str "in?", .list [.tuple [.str "of", .list [.undefined, .int 7, .str "é"]]]]))

theorem load_dump_negation :
    ∃ text, ({ options := sortingOptions } : Pipeline).dump predicateNegation = .ok text ∧
      ({ options := sortingOptions } : Pipeline).load (.str text) = pure predicateNegation := by
  have hfields := fields?_rules_str "negation" [.str "rule"] (by decide) rfl
  have htree : IsDataTree predicateNegation :=
    .single _ _ _ (by decide) hfields (.rule _ _ rfl (isDataTree_predicate "in?" (by decide)
      [("of", .list [.undefined, .int 7, .str "é"])]
      (by simp [isPlainData, arePlainData, undefinedText]))) (.inl rfl)
  have hshort : HasShortIntegers sortingOptions.jsonCodec.digits predicateNegation := by
    have hint : IsShort sortingOptions.jsonCodec.digits 7 := isShort_of_lt 1 (by decide) (by decide)
    simpa [predicateNegation] using hint
  obtain ⟨hwritten, hback⟩ :=
    (load_dump sortingOptions (.inr (.inr ⟨2, rfl, by decide, by decide⟩))).1 predicateNegation htree
  obtain ⟨text, htext⟩ := hwritten.mpr hshort
  exact ⟨text, htext, hback text htext⟩

/-- A predicate with an integer as its argument. -/
def numbered (n : Int) : Value :=
  .node (.str "predicate") (.tuple [.str "is?", .list [.tuple [.str "n", .int n]]])

lemma isDataTree_numbered (n : Int) : IsDataTree (numbered n) :=
  isDataTree_predicate "is?" (by decide) [("n", .int n)] (by simp [isPlainData])

lemma isShort_of_dump_numbered (n : Int) (text : String)
    (h : ({} : Pipeline).dump (numbered n) = .ok text) :
    IsShort ({} : Options).jsonCodec.digits n := by
  have hshort := hasShortIntegers_of_dump {} (.inl rfl) _ (isDataTree_numbered n) text h
  simpa [numbered] using hshort

/-- A predicate with an integer of five thousand digits is not written, nor is anything under an
indentation that fits no index. -/
theorem not_dump_longInteger :
    IsDataTree (numbered (10 ^ 5000)) ∧
      (∀ text, ({} : Pipeline).dump (numbered (10 ^ 5000)) ≠ .ok text) ∧
      ({ options := { indent := .int (2 ^ 63) } } : Pipeline).dump (.list []) =
        .error (.jsonWriting .hugeIndent) := by
  refine ⟨isDataTree_numbered _, fun text htext => ?_, rfl⟩
  exact not_isShort_pow 5000 (by decide) (isShort_of_dump_numbered _ text htext)

end Rulebook.Proofs
