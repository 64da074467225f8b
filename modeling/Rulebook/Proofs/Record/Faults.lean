import Mathlib
import Rulebook.Report
import Rulebook.Proofs.Record.Grammar

/-!
# How loading fails

Whatever a value is, loading it succeeds or fails with an error of the schema, as long as the fields
of the schema are texts.
-/

namespace Rulebook.Proofs
open Record

/-- A fault that is reported as an error of the schema. -/
def IsSchemaError (fault : RecordFault) : Prop :=
  ∃ kind, fault.kind? = some kind ∧ ErrorKind.schema ∈ kind.ancestry

/-! ## Outcomes -/

section Outcomes

variable {ε α β : Type} {P : ε → Prop}

/-- An outcome that is a fault only of the given sort. -/
def FailsWith (P : ε → Prop) (x : Loading ε α) : Prop := ∀ fault, x.result = .error fault → P fault

lemma failsWith_pure (a : α) : FailsWith P (pure a : Loading ε α) := by
  rintro fault ⟨⟩

lemma failsWith_fail (fault : ε) (h : P fault) :
    FailsWith P (Loading.fail fault : Loading ε α) := by
  rintro _ ⟨⟩
  exact h

lemma failsWith_bind (x : Loading ε α) (f : α → Loading ε β) (hx : FailsWith P x)
    (hf : ∀ a, FailsWith P (f a)) : FailsWith P (x >>= f) := by
  intro fault h
  change (Loading.bind x f).result = _ at h
  unfold Loading.bind at h
  cases hresult : x.result with
  | ok a =>
    rw [hresult] at h
    exact hf a fault h
  | error fault' =>
    rw [hresult] at h
    obtain rfl := Except.error.inj h
    exact hx fault' hresult

lemma failsWith_all (xs : List (Loading ε α)) (h : ∀ x ∈ xs, FailsWith P x) :
    FailsWith P (Loading.all xs) := by
  induction xs with
  | nil => exact failsWith_pure []
  | cons x rest ih =>
    rw [List.forall_mem_cons] at h
    rw [Loading.all]
    apply failsWith_bind _ _ h.1
    intro a
    exact failsWith_bind _ _ (ih h.2) fun as => failsWith_pure _

end Outcomes

/-! ## Records -/

section Records

variable (S : Schema) (strict : Bool)

lemma isSchemaError_of_kind (fault : RecordFault) (kind : ErrorKind) (h : fault.kind? = some kind)
    (hkind : ErrorKind.schema ∈ kind.ancestry) : IsSchemaError fault :=
  ⟨kind, h, hkind⟩

lemma isSchemaError_malformed (fault : RecordFault) (h : fault.kind? = some .malformedRecord) :
    IsSchemaError fault :=
  isSchemaError_of_kind fault _ h (by simp [ErrorKind.ancestry])

lemma isSchemaError_missing (fault : RecordFault) (h : fault.kind? = some .missingField) :
    IsSchemaError fault :=
  isSchemaError_of_kind fault _ h (by simp [ErrorKind.ancestry])

lemma namedEntries_error (entries : List (Value × Loaded)) (named : List (String × Loaded))
    (fault : RecordFault) (h : namedEntries entries named = .error fault) :
    ∃ name, fault = .sharedName name := by
  induction entries generalizing named with
  | nil => cases h
  | cons e rest ih =>
    rw [namedEntries] at h
    split at h
    · exact ⟨_, (Except.error.inj h).symm⟩
    · exact ih _ h

lemma mem_of_namedEntries (entries : List (Value × Loaded)) (named result : List (String × Loaded))
    (h : namedEntries entries named = .ok result) (p : String × Loaded) (hp : p ∈ result) :
    p ∈ named ∨ ∃ e ∈ entries, p.2 = e.2 := by
  induction entries generalizing named with
  | nil =>
    obtain rfl := Except.ok.inj h
    exact .inl hp
  | cons e rest ih =>
    rw [namedEntries] at h
    split at h
    · cases h
    · rcases ih _ h with hmem | ⟨e', he', heq⟩
      · rcases List.mem_append.mp hmem with hmem | hmem
        · exact .inl hmem
        · obtain rfl := List.mem_singleton.mp hmem
          exact .inr ⟨e, List.mem_cons_self, rfl⟩
      · exact .inr ⟨e', List.mem_cons_of_mem _ he', heq⟩

lemma checkUndeclared_failsWith (type : String) (names : List String) :
    FailsWith IsSchemaError (checkUndeclared strict type names) := by
  unfold checkUndeclared
  cases names with
  | nil => exact failsWith_pure ()
  | cons first others =>
    dsimp only
    split
    · exact failsWith_fail _ (isSchemaError_malformed _ rfl)
    · rintro fault ⟨⟩

lemma loadArguments_failsWith (type : String) (index : Nat) (items : List Value)
    (h : ∀ item ∈ items, ∀ name value, item.items? = some [name, value] →
      FailsWith IsSchemaError (load S strict value)) :
    FailsWith IsSchemaError (loadArguments type index (items.map (loaded S strict))) := by
  induction items generalizing index with
  | nil => exact failsWith_pure []
  | cons item rest ih =>
    rw [List.forall_mem_cons] at h
    rw [List.map_cons, loadArguments, value_loaded]
    split
    · next items name value hitems hparts =>
      rw [items_loaded S strict item items hitems] at hparts
      obtain ⟨a, b, rfl, rfl, rfl⟩ := map_eq_pair hparts
      rw [made_loaded]
      apply failsWith_bind _ _ (h.1 a b hitems)
      intro w
      exact failsWith_bind _ _ (ih (index + 1) h.2) fun values => failsWith_pure _
    · exact failsWith_fail _ (isSchemaError_malformed _ rfl)

lemma loadField_failsWith (type : String) (field v : Value)
    (ih : ∀ u, sizeOf u ≤ sizeOf v → FailsWith IsSchemaError (load S strict u)) :
    FailsWith IsSchemaError (loadField type field (loaded S strict v)) := by
  by_cases hargs : field.text? = some "args"
  · cases hitems : v.items? with
    | none =>
      rw [loadField_args_none _ _ _ hargs (by rw [value_loaded, hitems])]
      exact failsWith_fail _ (isSchemaError_malformed _ rfl)
    | some items =>
      rw [loadField_args _ _ _ items hargs (by rw [value_loaded, hitems]),
        items_loaded S strict v items hitems]
      refine failsWith_bind _ _ ?_ fun pairs => failsWith_pure _
      apply loadArguments_failsWith
      intro item hitem name value hpair
      have hitem := sizeOf_item_lt v items hitems item hitem
      have hvalue := sizeOf_item_lt item _ hpair value (by simp)
      exact ih value (by omega)
  · by_cases hrule : field.text? = some "rule"
    · rw [loadField_rule _ _ _ hrule, made_loaded]
      apply failsWith_bind _ _ (ih v le_rfl)
      intro w
      split
      · exact failsWith_pure w
      · exact failsWith_fail _ (isSchemaError_malformed _ rfl)
    · by_cases hrules : field.text? = some "rules"
      · rw [loadField_rules _ _ _ hrules, made_loaded]
        apply failsWith_bind _ _ (ih v le_rfl)
        intro w
        split
        · exact failsWith_pure w
        · exact failsWith_fail _ (isSchemaError_malformed _ rfl)
      · rw [loadField_other _ _ _ hargs hrule hrules]
        exact ih v le_rfl

lemma loadFields_failsWith (type : String) (named : List (String × Loaded)) (fields : List Value)
    (htext : ∀ field ∈ fields, field.text?.isSome = true)
    (h : ∀ p ∈ named, ∀ field, FailsWith IsSchemaError (loadField type field p.2)) :
    FailsWith IsSchemaError (loadFields type named fields) := by
  induction fields with
  | nil => exact failsWith_pure []
  | cons field rest ih =>
    rw [List.forall_mem_cons] at htext
    obtain ⟨name, hname⟩ := Option.isSome_iff_exists.mp htext.1
    rw [loadFields, if_neg (by simp [isKey_of_text? field name hname])]
    cases hentry : given? named field with
    | none => exact failsWith_fail _ (isSchemaError_missing _ rfl)
    | some raw =>
      have hraw : ∃ p ∈ named, p.2 = raw := by
        unfold given? at hentry
        rw [hname, Option.bind_some] at hentry
        obtain ⟨before, after, rfl, -⟩ := List.lookup_eq_some_iff.mp hentry
        exact ⟨(name, raw), by simp, rfl⟩
      obtain ⟨p, hp, rfl⟩ := hraw
      apply failsWith_bind _ _ (h p hp field)
      intro value
      exact failsWith_bind _ _ (ih htext.2) fun values => failsWith_pure _

/-- A record fails with an error of the schema if its entries do. -/
lemma loadRecord_failsWith (htext : ∀ entry ∈ S.table, ∀ field ∈ entry.2, field.text?.isSome = true)
    (entries : Entries)
    (h : ∀ e ∈ entries, ∀ type field,
      FailsWith IsSchemaError (loadField type field (loaded S strict e.2))) :
    FailsWith IsSchemaError
      (loadRecord S strict (entries.map fun e => (e.1, loaded S strict e.2))) := by
  unfold loadRecord
  split
  · next fault hfault =>
    obtain ⟨name, rfl⟩ := namedEntries_error _ _ fault hfault
    exact failsWith_fail _ (isSchemaError_malformed _ rfl)
  · next named hnamed =>
    split
    · exact failsWith_fail _ (isSchemaError_missing _ rfl)
    · next tag _ =>
      split
      · exact failsWith_fail _ (isSchemaError_of_kind _ .unknownType rfl (by simp [ErrorKind.ancestry]))
      · next fields hfields =>
        apply failsWith_bind _ _ (checkUndeclared_failsWith strict _ _)
        intro _
        refine failsWith_bind _ _ ?_ fun values => failsWith_pure _
        apply loadFields_failsWith _ _ _ (htext _ (mem_table_of_fields? S _ fields hfields))
        intro p hp field
        rcases mem_of_namedEntries _ _ named hnamed p (List.mem_filter.mp hp).1 with hnil | ⟨e, he, heq⟩
        · cases hnil
        · obtain ⟨e', he', rfl⟩ := List.mem_map.mp he
          rw [heq]
          exact h e' he' _ field

/-- Whatever does not load fails with an error of the schema. -/
theorem load_failsWith (htext : ∀ entry ∈ S.table, ∀ field ∈ entry.2, field.text?.isSome = true)
    (v : Value) : FailsWith IsSchemaError (load S strict v) := by
  generalize hsize : sizeOf v = n
  induction n using Nat.strong_induction_on generalizing v with
  | _ n ih =>
  have hitems (items : List Value) (hitems : v.items? = some items) :
      ∀ x ∈ items.map (load S strict), FailsWith IsSchemaError x := by
    intro x hx
    obtain ⟨item, hitem, rfl⟩ := List.mem_map.mp hx
    have hlt := sizeOf_item_lt v items hitems item hitem
    exact ih (sizeOf item) (hsize ▸ hlt) item rfl
  match v with
  | .list items =>
    rw [load_list]
    exact failsWith_bind _ _ (failsWith_all _ (hitems items rfl)) fun values => failsWith_pure _
  | .tuple items =>
    rw [load_tuple]
    exact failsWith_bind _ _ (failsWith_all _ (hitems items rfl)) fun values => failsWith_pure _
  | .dict [] =>
    rw [load_nil]
    exact failsWith_pure _
  | .dict (e :: rest) =>
    rw [load_dict S strict (e :: rest) (by simp)]
    apply loadRecord_failsWith S strict htext
    intro e' he' type field
    apply loadField_failsWith
    intro u hu
    have hlt := sizeOf_value_lt (e :: rest) e' he'
    exact ih (sizeOf u) (by omega) u rfl
  | .null | .bool _ | .int _ | .float _ | .str _ | .bytes _ | .set _ | .timestamp _ | .undefined |
    .node .. | .rule _ | .brokenRule _ | .member _ | .constant _ | .inert =>
    rw [load_scalar S strict _ (by simp) (by simp) (by simp)]
    exact failsWith_pure _

end Records

end Rulebook.Proofs
