import Mathlib
import Rulebook.Proofs.Record.Faults
import Rulebook.Proofs.Record.LoadsAs

/-!
# Which values of a text load

What a text holds loads exactly when it has a simple form: scalars, lists and the empty mapping do,
and a mapping with entries must be a record of a type of the schema. Anything else fails with an
error of the schema.
-/

namespace Rulebook.Proofs
open Record

/-- Whether a value is a mapping with entries. -/
def isFilledDict : Value → Bool
  | .dict (_ :: _) => true
  | _ => false

/-- The shape that the name of a field asks of its value in a text. -/
def HasFieldShape (field value : Value) : Prop :=
  (field.text? = some "rule" → isFilledDict value = true) ∧
  (field.text? = some "rules" →
    ∃ items, value = .list items ∧ ∀ item ∈ items, isFilledDict item = true) ∧
  (field.text? = some "args" →
    ∃ pairs : List (Value × Value), value = .list (pairs.map fun p => .list [p.1, p.2]))

/-- A value of a text that loads. Nothing is asked of the entries that a type does not declare, unless
in strict mode, and of the names of arguments. -/
inductive Normalizable (S : Schema) (strict : Bool) : Value → Prop
  | scalar (v : Value) : isScalar v = true → Normalizable S strict v
  | list (items : List Value) : (∀ item ∈ items, Normalizable S strict item) →
      Normalizable S strict (.list items)
  | empty : Normalizable S strict (.dict [])
  | record (entries : Entries) (tag : Value) (fields : List Value) (raw : Value → Value) :
      (entries.map fun e => e.1.name).Nodup →
      ("type", tag) ∈ entries.map (fun e => (e.1.name, e.2)) → S.fields? tag = some fields →
      (∀ field ∈ fields, IsEntry entries field (raw field)) →
      (strict = true → ∀ e ∈ entries, e.1.name ≠ "type" → isDeclared fields e.1.name = true) →
      (∀ field ∈ fields, HasFieldShape field (raw field)) →
      (∀ field ∈ fields, field.text? ≠ some "args" → Normalizable S strict (raw field)) →
      (∀ field ∈ fields, field.text? = some "args" → ∀ items, raw field = .list items →
        ∀ name v, .list [name, v] ∈ items → Normalizable S strict v) →
      Normalizable S strict (.dict entries)

section Acceptance

variable {S : Schema} {strict : Bool} {isNumber : Binary64 → Prop}

/-! ## From the grammar of values at places -/

/-- What the grammar of places says of a value that a text holds. -/
def NormalizableAt (S : Schema) (strict : Bool) : Place → Value → Prop
  | .tree, v => isFilledDict v = true ∧ Normalizable S strict v
  | .field field, v => HasFieldShape field v ∧
      (field.text? ≠ some "args" → Normalizable S strict v) ∧
      (field.text? = some "args" → ∀ items, v = .list items → ∀ name x, .list [name, x] ∈ items →
        Normalizable S strict x)
  | .argument, v => ∃ name x, v = .list [name, x] ∧ Normalizable S strict x
  | .operand, v => Normalizable S strict v

lemma normalizableAt_rules (field : Value) (items : List Value) (hfield : field.text? = some "rules")
    (h : ∀ item ∈ items, NormalizableAt S strict .tree item) :
    NormalizableAt S strict (.field field) (.list items) := by
  have hshape : HasFieldShape field (.list items) := by
    refine ⟨by simp [hfield], fun _ => ⟨items, rfl, ?_⟩, by simp [hfield]⟩
    exact fun item hitem => (h item hitem).1
  refine ⟨hshape, fun _ => ?_, by simp [hfield]⟩
  exact .list items fun item hitem => (h item hitem).2

lemma normalizableAt_args (field : Value) (items : List Value) (hfield : field.text? = some "args")
    (h : ∀ item ∈ items, NormalizableAt S strict .argument item) :
    NormalizableAt S strict (.field field) (.list items) := by
  have hpairs : ∀ item ∈ items, ∃ p : Value × Value, item = .list [p.1, p.2] := by
    intro item hitem
    obtain ⟨name, x, heq, -⟩ := h item hitem
    exact ⟨(name, x), heq⟩
  obtain ⟨pairs, hmap⟩ := exists_eq_map items hpairs
  refine ⟨⟨by simp [hfield], by simp [hfield], fun _ => ⟨pairs, by rw [hmap]⟩⟩, by simp [hfield], ?_⟩
  intro _ items' heq name x hitem
  obtain rfl := Value.list.inj heq
  obtain ⟨name', x', heq, hx⟩ := h _ hitem
  simp only [Value.list.injEq, List.cons.injEq, and_true] at heq
  obtain ⟨rfl, rfl⟩ := heq
  exact hx

/-- A value of a text that the grammar of places accepts is normalizable. -/
lemma normalizableAt_of_loadable (place : Place) (v : Value) (h : Loadable S strict place v)
    (hv : IsDecoded isNumber v) : NormalizableAt S strict place v := by
  induction h with
  | scalar v hdict hlist _ => exact .scalar v (isScalar_of_isDecoded v hv hdict hlist)
  | list items _ ih =>
    have hitems := isDecoded_items (.list items) items hv rfl
    exact .list items fun item hitem => ih item hitem (hitems item hitem)
  | tuple => cases hv
  | empty => exact .empty
  | nested v _ ih => exact (ih hv).2
  | record entries tag fields raw hnodup htag hfields hstrict hentry _ ih =>
    have hfield : ∀ field ∈ fields, NormalizableAt S strict (.field field) (raw field) :=
      fun field hfield =>
        ih field hfield (isDecoded_entry entries field (raw field) hv (hentry field hfield))
    have hfilled : isFilledDict (.dict entries) = true := by
      cases entries with
      | nil => cases htag
      | cons e rest => rfl
    refine ⟨hfilled, .record entries tag fields raw hnodup htag hfields hentry ?_ ?_ ?_ ?_⟩
    · exact fun hs e he htype => (hstrict hs e he).resolve_left htype
    · exact fun field h => (hfield field h).1
    · exact fun field h => (hfield field h).2.1
    · exact fun field h => (hfield field h).2.2
  | node => cases hv
  | rule field v hfield _ ih =>
    obtain ⟨hfilled, hv⟩ := ih hv
    have hshape : HasFieldShape field v := ⟨fun _ => hfilled, by simp [hfield], by simp [hfield]⟩
    exact ⟨hshape, fun _ => hv, by simp [hfield]⟩
  | rules field v items hfield hitems _ ih =>
    rcases hitems with rfl | rfl
    · have hdecoded := isDecoded_items (.list items) items hv rfl
      exact normalizableAt_rules field items hfield fun item hitem => ih item hitem (hdecoded item hitem)
    · cases hv
  | pair => cases hv
  | args field v items hfield hitems _ ih =>
    have hdecoded := isDecoded_items v items hv hitems
    obtain rfl := eq_list_of_isDecoded v items hv hitems
    exact normalizableAt_args field items hfield fun item hitem => ih item hitem (hdecoded item hitem)
  | other field v hrule hrules hargs _ ih =>
    exact ⟨⟨fun h => absurd h hrule, fun h => absurd h hrules, fun h => absurd h hargs⟩,
      fun _ => ih hv, fun h => absurd h hargs⟩
  | argument v name value hpair _ ih =>
    have hdecoded := isDecoded_items v _ hv hpair
    exact ⟨name, value, eq_list_of_isDecoded v _ hv hpair, ih (hdecoded value (by simp))⟩

/-! ## To the grammar of values at places -/

lemma loadable_tree (v : Value) (h : Loadable S strict .operand v) (hv : isFilledDict v = true) :
    Loadable S strict .tree v := by
  cases h with
  | scalar _ hdict =>
    unfold isFilledDict at hv
    split at hv
    · exact absurd rfl (hdict _)
    · cases hv
  | nested _ htree => exact htree
  | _ => cases hv

lemma loadable_trees (items : List Value) (h : Loadable S strict .operand (.list items))
    (hitems : ∀ item ∈ items, isFilledDict item = true) :
    ∀ item ∈ items, Loadable S strict .tree item := by
  cases h with
  | scalar _ _ hlist => exact absurd rfl (hlist items)
  | list _ hall => exact fun item hitem => loadable_tree item (hall item hitem) (hitems item hitem)
  | nested _ htree => cases htree

lemma loadable_of_shape (field v : Value) (hshape : HasFieldShape field v)
    (hother : field.text? ≠ some "args" → Loadable S strict .operand v)
    (hargs : field.text? = some "args" → ∀ items, v = .list items → ∀ name x, .list [name, x] ∈ items →
      Loadable S strict .operand x) : Loadable S strict (.field field) v := by
  by_cases hfield : field.text? = some "args"
  · obtain ⟨pairs, rfl⟩ := hshape.2.2 hfield
    refine .args field _ _ hfield rfl ?_
    intro item hitem
    obtain ⟨p, -, rfl⟩ := List.mem_map.mp hitem
    exact .argument _ p.1 p.2 rfl (hargs hfield _ rfl p.1 p.2 hitem)
  · have hv := hother hfield
    by_cases hrule : field.text? = some "rule"
    · exact .rule field v hrule (loadable_tree v hv (hshape.1 hrule))
    · by_cases hrules : field.text? = some "rules"
      · obtain ⟨items, rfl, hitems⟩ := hshape.2.1 hrules
        exact .rules field _ items hrules (.inl rfl) (loadable_trees items hv hitems)
      · exact .other field v hrule hrules hfield hv

lemma loadable_of_normalizable (v : Value) (h : Normalizable S strict v) :
    Loadable S strict .operand v := by
  induction h with
  | scalar v hscalar =>
    refine .scalar v ?_ ?_ ?_ <;>
    · rintro _ rfl
      cases hscalar
  | list items _ ih => exact .list items ih
  | empty => exact .empty
  | record entries tag fields raw hnodup htag hfields hentry hstrict hshape _ _ ihother ihargs =>
    refine .nested _ (.record entries tag fields raw hnodup htag hfields ?_ hentry ?_)
    · intro hs e he
      by_cases htype : e.1.name = "type"
      · exact .inl htype
      · exact .inr (hstrict hs e he htype)
    · intro field hfield
      exact loadable_of_shape field (raw field) (hshape field hfield) (ihother field hfield)
        (ihargs field hfield)

end Acceptance

/-- What a text holds loads exactly when it is normalizable, and else fails with an error of the
schema. -/
theorem load_isOk_iff_normalizable (S : Schema)
    (htext : ∀ entry ∈ S.table, ∀ field ∈ entry.2, field.text?.isSome = true) (strict : Bool)
    (v : Value) (hv : IsDecoded (fun _ => True) v) :
    ((∃ w, (load S strict v).result = .ok w) ↔ Normalizable S strict v) ∧
      (¬Normalizable S strict v →
        ∃ fault, (load S strict v).result = .error fault ∧ IsSchemaError fault) := by
  have hiff : (∃ w, (load S strict v).result = .ok w) ↔ Normalizable S strict v := by
    rw [load_isOk_iff]
    exact ⟨fun h => normalizableAt_of_loadable .operand v h hv, loadable_of_normalizable v⟩
  refine ⟨hiff, ?_⟩
  intro hnot
  cases hresult : (load S strict v).result with
  | ok w => exact absurd (hiff.mp ⟨w, hresult⟩) hnot
  | error fault => exact ⟨fault, rfl, load_failsWith S strict htext v fault hresult⟩

/-- A predicate with a mapping as the name of its argument, and with an entry that its type does not
declare and whose value is no record. -/
def oddPredicate : Value :=
  .dict [(.str " Type", .str "PREDICATE"), (.str "name", .str "f"),
    (.str "args", .list [.list [.dict [(.str "x", .null)], .dict []]]),
    (.str "note", .list [.dict [(.str "type", .str "none")]])]

lemma isDecoded_oddPredicate : IsDecoded (fun _ => True) oddPredicate := by
  have hargs : IsDecoded (fun _ => True) (.list [.list [.dict [(.str "x", .null)], .dict []]]) := by
    have hname : IsDecoded (fun _ => True) (.dict [(.str "x", .null)]) :=
      .dict _ (by simp) (by simp) (by simpa using .null)
    refine .list _ ?_
    simp only [List.forall_mem_singleton]
    refine .list _ ?_
    simp [hname, isDecoded_noEntries]
  have hnote : IsDecoded (fun _ => True) (.list [.dict [(.str "type", .str "none")]]) := by
    refine .list _ ?_
    simp only [List.forall_mem_singleton]
    exact .dict _ (by simp) (by simp) (by simpa using .str "none")
  refine .dict _ (by simp) (by simp) ?_
  intro e he
  simp only [List.mem_cons, List.not_mem_nil, or_false] at he
  rcases he with rfl | rfl | rfl | rfl
  · exact .str _
  · exact .str _
  · exact hargs
  · exact hnote

/-- Names of arguments and undeclared entries do not keep a record from loading. -/
theorem normalizable_oddPredicate :
    (∃ w, (load .rules false oddPredicate).result = .ok w) ∧
      Normalizable .rules false oddPredicate := by
  have htext : ∀ entry ∈ Schema.rules.table, ∀ field ∈ entry.2, field.text?.isSome = true := by
    decide
  have hload : ∃ w, (load .rules false oddPredicate).result = .ok w :=
    ok_of_isOk (by decide +kernel)
  have hiff := load_isOk_iff_normalizable .rules htext false oddPredicate isDecoded_oddPredicate
  exact ⟨hload, hiff.1.mp hload⟩

end Rulebook.Proofs
