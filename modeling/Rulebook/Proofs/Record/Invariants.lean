import Mathlib
import Rulebook.Proofs.Record.LoadedForm
import Rulebook.Proofs.Value.Occurrence

/-!
# What compilers can rely on

Every node in a loaded value has a type of the schema and the values of the fields of that type, and
no mapping or text for no value is left over.
-/

namespace Rulebook.Proofs
open Record

/-- The kind of value that a node holds for a field. -/
def HoldsField (field value : Value) : Prop :=
  (field.text? = some "rule" → value.isNode = true) ∧
  (field.text? = some "rules" →
    ∃ nodes, value = .list nodes ∧ ∀ node ∈ nodes, node.isNode = true) ∧
  (field.text? = some "args" →
    ∃ pairs : List (Value × Value), value = .list (pairs.map fun p => .tuple [p.1, p.2]))

/-- A tag in canonical spelling of a type of the schema, and a payload with a value for each field of
that type in order: bare for a single field, else in a tuple. -/
def IsSchemaNode (S : Schema) (tag payload : Value) : Prop :=
  ∃ t fields values, tag = .str t ∧ t ∈ S.types ∧ (Value.str t).name = t ∧
    S.fields? tag = some fields ∧
    (if fields.length = 1 then values = [payload] else payload = .tuple values) ∧
    List.Forall₂ HoldsField fields values

/-- A value that stands in another one outside the names of arguments. `areArguments` tells whether a
list is one of arguments, which are pairs of a name and a value. -/
inductive StandsIn (S : Schema) (u : Value) : Bool → Value → Prop
  | self (areArguments : Bool) : StandsIn S u areArguments u
  | item (items : List Value) (item : Value) : item ∈ items → StandsIn S u false item →
      StandsIn S u false (.list items)
  | argument (items : List Value) (name v : Value) : .tuple [name, v] ∈ items →
      StandsIn S u false v → StandsIn S u true (.list items)
  | tag (tag payload : Value) : StandsIn S u false tag → StandsIn S u false (.node tag payload)
  | payload (tag : Value) : StandsIn S u false (.node tag u)
  | single (tag field v : Value) : S.fields? tag = some [field] →
      StandsIn S u (field.text? == some "args") v → StandsIn S u false (.node tag v)
  | several (tag : Value) (fields values : List Value) (p : Value × Value) :
      S.fields? tag = some fields → fields.length ≠ 1 → p ∈ fields.zip values →
      StandsIn S u (p.1.text? == some "args") p.2 → StandsIn S u false (.node tag (.tuple values))

section Invariants

variable {S : Schema} {isNumber : Binary64 → Prop}

/-! ## Nodes -/

lemma holdsField_of_loadedForm (field value : Value) (h : LoadedForm S isNumber (.field field) value) :
    HoldsField field value := by
  cases h with
  | rule _ _ hfield htree =>
    exact ⟨fun _ => isNode_of_loadedForm value htree, by simp [hfield], by simp [hfield]⟩
  | rules _ values hfield htrees =>
    have hnodes : ∀ node ∈ values, node.isNode = true :=
      fun node hnode => isNode_of_loadedForm node (htrees node hnode)
    exact ⟨by simp [hfield], fun _ => ⟨values, rfl, hnodes⟩, by simp [hfield]⟩
  | args _ values hfield harguments =>
    have hpairs : ∀ value ∈ values, ∃ p : Value × Value, value = .tuple [p.1, p.2] := by
      intro value hvalue
      cases harguments value hvalue with
      | argument name x => exact ⟨(name, x), rfl⟩
    obtain ⟨pairs, rfl⟩ := exists_eq_map values hpairs
    exact ⟨by simp [hfield], by simp [hfield], fun _ => ⟨pairs, rfl⟩⟩
  | other _ _ hrule hrules hargs _ =>
    exact ⟨fun h => absurd h hrule, fun h => absurd h hrules, fun h => absurd h hargs⟩

lemma not_occurs_node_str (tag payload : Value) (s : String) : ¬Occurs (.node tag payload) (.str s) := by
  have hs : IsDecoded (fun _ => True) (.str s) := .str s
  exact not_occurs_node tag payload (.str s) hs

/-- A node occurs in a node with a text as its tag as that node itself or in the payload. -/
lemma occurs_of_occurs_node (tag payload value : Value) (t : String)
    (h : Occurs (.node tag payload) (.node (.str t) value)) :
    (tag = .str t ∧ payload = value) ∨ Occurs (.node tag payload) value := by
  by_cases heq : Value.node tag payload = .node (.str t) value
  · exact .inl (Value.node.inj heq)
  · obtain ⟨item, hitem, hoccurs⟩ := occurs_items _ _ _ rfl h heq
    simp only [List.mem_cons, List.not_mem_nil, or_false] at hitem
    rcases hitem with rfl | rfl
    · exact absurd hoccurs (not_occurs_node_str tag payload t)
    · exact .inr hoccurs

/-- Every node in a value that has been loaded belongs to the schema. -/
lemma isSchemaNode_of_loadedForm (htypes : ∀ t ∈ S.types, (Value.str t).name = t) (place : Place)
    (w : Value) (h : LoadedForm S isNumber place w) (tag payload : Value)
    (hw : Occurs (.node tag payload) w) : IsSchemaNode S tag payload := by
  induction h with
  | single t field value ht hfields hvalue ih =>
    rcases occurs_of_occurs_node tag payload value t hw with ⟨rfl, rfl⟩ | hoccurs
    · exact ⟨t, [field], [payload], rfl, ht, htypes t ht, hfields, rfl,
        .cons (holdsField_of_loadedForm field payload hvalue) .nil⟩
    · exact ih hoccurs
  | several t fields values ht hfields hcount hlength hvalues ih =>
    rcases occurs_of_occurs_node tag payload (.tuple values) t hw with ⟨rfl, rfl⟩ | hoccurs
    · have hholds : List.Forall₂ HoldsField fields values := by
        rw [List.forall₂_iff_zip]
        exact ⟨hlength.symm, fun hp => holdsField_of_loadedForm _ _ (hvalues _ hp)⟩
      exact ⟨t, fields, values, rfl, ht, htypes t ht, hfields, by rw [if_neg hcount], hholds⟩
    · obtain ⟨value, hvalue, hoccurs⟩ := occurs_items _ _ values rfl hoccurs (by simp)
      exact forall_right_of_zip
        (P := fun value => Occurs (.node tag payload) value → IsSchemaNode S tag payload)
        fields values hlength ih value hvalue hoccurs
  | rule _ _ _ _ ih => exact ih hw
  | rules _ values _ _ ih =>
    obtain ⟨value, hvalue, hoccurs⟩ := occurs_items _ _ values rfl hw (by simp)
    exact ih value hvalue hoccurs
  | args _ values _ _ ih =>
    obtain ⟨value, hvalue, hoccurs⟩ := occurs_items _ _ values rfl hw (by simp)
    exact ih value hvalue hoccurs
  | other _ _ _ _ _ _ ih => exact ih hw
  | argument name value hname _ ih =>
    obtain ⟨item, hitem, hoccurs⟩ := occurs_items _ _ _ rfl hw (by simp)
    simp only [List.mem_cons, List.not_mem_nil, or_false] at hitem
    rcases hitem with rfl | rfl
    · exact absurd hoccurs (not_occurs_node tag payload _ hname)
    · exact ih hoccurs
  | nested _ _ ih => exact ih hw
  | list values _ ih =>
    obtain ⟨value, hvalue, hoccurs⟩ := occurs_items _ _ values rfl hw (by simp)
    exact ih value hvalue hoccurs
  | undefined => cases hw with
    | item _ _ _ hitems => cases hitems
  | scalar value hvalue => exact absurd hw (not_occurs_node tag payload value hvalue)

/-! ## Nothing left to load -/

/-- Neither a mapping nor the text for no value. -/
def IsResolved (u : Value) : Prop := u.isDict = false ∧ u.text? ≠ some undefinedText

/-- What it is for all that stands in a loaded value to be resolved, at its place. -/
def IsResolvedAt (S : Schema) : Place → Value → Prop
  | .tree, v => ∀ u, StandsIn S u false v → IsResolved u
  | .field field, v => ∀ u, StandsIn S u (field.text? == some "args") v → IsResolved u
  | .argument, v => ∀ name x, v = .tuple [name, x] → ∀ u, StandsIn S u false x → IsResolved u
  | .operand, v => ∀ u, StandsIn S u false v → IsResolved u

lemma isResolved_of_name (t : String) (ht : (Value.str t).name = t) : IsResolved (.str t) := by
  refine ⟨rfl, ?_⟩
  intro h
  obtain rfl := Option.some.inj h
  revert ht
  decide +kernel

lemma isResolved_items (values : List Value)
    (h : ∀ value ∈ values, ∀ u, StandsIn S u false value → IsResolved u) (u : Value)
    (hu : StandsIn S u false (.list values)) : IsResolved u := by
  cases hu with
  | self => exact ⟨rfl, by simp [Value.text?]⟩
  | item _ item hitem hstands => exact h item hitem u hstands

lemma isResolvedAt_single (t : String) (field value : Value) (ht : (Value.str t).name = t)
    (hfields : S.fields? (.str t) = some [field]) (h : IsResolvedAt S (.field field) value) :
    IsResolvedAt S .tree (.node (.str t) value) := by
  intro u hu
  cases hu with
  | self => exact ⟨rfl, by simp [Value.text?]⟩
  | tag _ _ hstands =>
    cases hstands
    exact isResolved_of_name t ht
  | payload => exact h _ (.self _)
  | single _ field' _ hfields' hstands =>
    obtain rfl : field = field' := by simpa using hfields.symm.trans hfields'
    exact h u hstands
  | several _ fields values _ hfields' hcount =>
    obtain rfl := Option.some.inj (hfields.symm.trans hfields')
    exact absurd rfl hcount

lemma isResolvedAt_several (t : String) (fields values : List Value) (ht : (Value.str t).name = t)
    (hfields : S.fields? (.str t) = some fields) (hcount : fields.length ≠ 1)
    (h : ∀ p ∈ fields.zip values, IsResolvedAt S (.field p.1) p.2) :
    IsResolvedAt S .tree (.node (.str t) (.tuple values)) := by
  intro u hu
  cases hu with
  | self => exact ⟨rfl, by simp [Value.text?]⟩
  | tag _ _ hstands =>
    cases hstands
    exact isResolved_of_name t ht
  | payload => exact ⟨rfl, by simp [Value.text?]⟩
  | single _ field' _ hfields' =>
    obtain rfl := Option.some.inj (hfields.symm.trans hfields')
    exact absurd rfl hcount
  | several _ fields' _ p hfields' _ hp hstands =>
    obtain rfl := Option.some.inj (hfields.symm.trans hfields')
    exact h p hp u hstands

/-- All that stands in a loaded value is resolved, by induction on its form. -/
lemma isResolvedAt_of_loadedForm (htypes : ∀ t ∈ S.types, (Value.str t).name = t) (place : Place)
    (w : Value) (h : LoadedForm S isNumber place w) : IsResolvedAt S place w := by
  induction h with
  | single t field value ht hfields _ ih =>
    exact isResolvedAt_single t field value (htypes t ht) hfields ih
  | several t fields values ht hfields hcount _ _ ih =>
    exact isResolvedAt_several t fields values (htypes t ht) hfields hcount ih
  | rule field value hfield _ ih =>
    intro u hu
    rw [hfield] at hu
    exact ih u hu
  | rules field values hfield _ ih =>
    intro u hu
    rw [hfield] at hu
    exact isResolved_items values ih u hu
  | args field values hfield _ ih =>
    intro u hu
    rw [hfield] at hu
    cases hu with
    | self => exact ⟨rfl, by simp [Value.text?]⟩
    | argument _ name x hmem hstands => exact ih _ hmem name x rfl u hstands
  | other field value _ _ hargs _ ih =>
    intro u hu
    rw [beq_eq_false_iff_ne.mpr hargs] at hu
    exact ih u hu
  | argument name value _ _ ih =>
    intro name' x heq u hu
    simp only [Value.tuple.injEq, List.cons.injEq, and_true] at heq
    obtain ⟨rfl, rfl⟩ := heq
    exact ih u hu
  | nested _ _ ih => exact ih
  | list values _ ih => exact isResolved_items values ih
  | undefined =>
    intro u hu
    cases hu
    exact ⟨rfl, by simp [Value.text?]⟩
  | scalar value hvalue hdict hlist htext =>
    intro u hu
    have hself : u = value := by
      cases hvalue <;> first | exact absurd rfl (hlist _) | exact absurd rfl (hdict _) | (cases hu; rfl)
    subst hself
    refine ⟨?_, htext⟩
    cases hvalue <;> first | rfl | exact absurd rfl (hdict _)

end Invariants

/-- What a text holds loads with these invariants: the nodes belong to the schema, nothing outside the
names of arguments is left to load, and everything is loaded place by place, where lists keep their
length and order. -/
theorem load_invariants (table : Entries) (S : Schema) (hS : Schema.ofTable? table = some S)
    (strict : Bool) (v w : Value) (hv : IsDecoded (fun _ => True) v)
    (h : (load S strict v).result = .ok w) :
    (∀ tag payload, Occurs (.node tag payload) w → IsSchemaNode S tag payload) ∧
      (∀ u, StandsIn S u false w → u.isDict = false ∧ u.text? ≠ some undefinedText) ∧
      LoadsAs S .operand v w := by
  have htypes := name_of_mem_types table S hS
  have hform := loadedForm_of_load v w hv h
  refine ⟨?_, ?_, loadsAs_of_load v w hv h⟩
  · exact fun tag payload => isSchemaNode_of_loadedForm htypes .operand w hform tag payload
  · exact isResolvedAt_of_loadedForm htypes .operand w hform

/-- A schema of pairs, with its type declared in another spelling. -/
def pairs : Schema := ⟨[("pair", [.str "left", .str "right"])]⟩

/-- A pair of pairs with one of them in a list, beside both ways to write no value. -/
def listedPair : Value :=
  let none : Entries := [(.str "type", .str "PAIR"), (.str "right", .dict []), (.str "left", .null)]
  .dict [(.str "type", .str "pair"), (.str "left", .list [.dict none, .str "Undefined"]),
    (.str "right", .dict none)]

lemma isDecoded_listedPair : IsDecoded (fun _ => True) listedPair := by
  have hnone : IsDecoded (fun _ => True)
      (.dict [(.str "type", .str "PAIR"), (.str "right", .dict []), (.str "left", .null)]) :=
    .dict _ (by simp) (by simp) (by simp [isDecoded_noEntries, IsDecoded.str, IsDecoded.null])
  have hlist : IsDecoded (fun _ => True)
      (.list [.dict [(.str "type", .str "PAIR"), (.str "right", .dict []), (.str "left", .null)],
        .str "Undefined"]) :=
    .list _ (by simp [hnone, IsDecoded.str])
  exact .dict _ (by simp) (by simp) (by simp [hnone, hlist, IsDecoded.str])

/-- The pairs in a pair are nodes of the schema in the places where they were written. -/
theorem load_invariants_listedPair :
    ∃ w, (load pairs true listedPair).result = .ok w ∧
      (∀ tag payload, Occurs (.node tag payload) w → IsSchemaNode pairs tag payload) ∧
      (∀ u, StandsIn pairs u false w → u.isDict = false ∧ u.text? ≠ some undefinedText) ∧
      LoadsAs pairs .operand listedPair w := by
  have hload : ∃ w, (load pairs true listedPair).result = .ok w := ok_of_isOk (by decide +kernel)
  obtain ⟨w, hw⟩ := hload
  have htable : Schema.ofTable? [(.str " Pair", .tuple [.str "left", .str "right"])] = some pairs :=
    rfl
  exact ⟨w, hw, load_invariants _ pairs htable true listedPair w isDecoded_listedPair hw⟩

end Rulebook.Proofs
