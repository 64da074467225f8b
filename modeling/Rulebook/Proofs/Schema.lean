import Mathlib
import Rulebook.Schema
import Rulebook.Proofs.Text.Canonical

/-!
# Types and fields of a schema

A schema made of a table keeps its types under canonical names, so each type is found under its own
name and under the name of every tag that spells it.
-/

namespace Rulebook.Proofs

lemma name_eq (v : Value) : ∃ cs, v.name = String.ofList (canonical cs) := by
  cases v <;> exact ⟨_, rfl⟩

/-- The name of a value is a canonical name. -/
lemma name_str_name (v : Value) : (Value.str v.name).name = v.name := by
  obtain ⟨cs, h⟩ := name_eq v
  rw [h]
  change String.ofList (canonical (String.ofList (canonical cs)).toList) = _
  rw [String.toList_ofList, canonical_canonical]

/-- A tag and its name as a text belong to one type. -/
lemma fields?_name (S : Schema) (tag : Value) : S.fields? (.str tag.name) = S.fields? tag := by
  unfold Schema.fields?
  rw [name_str_name]

lemma mem_table_of_fields? (S : Schema) (tag : Value) (fields : List Value)
    (h : S.fields? tag = some fields) : (tag.name, fields) ∈ S.table := by
  unfold Schema.fields? at h
  obtain ⟨before, after, htable, -⟩ := List.lookup_eq_some_iff.mp h
  rw [htable]
  simp

lemma mem_types_of_fields? (S : Schema) (tag : Value) (fields : List Value)
    (h : S.fields? tag = some fields) : tag.name ∈ S.types :=
  List.mem_map.mpr ⟨_, mem_table_of_fields? S tag fields h, rfl⟩

lemma mem_declare (name : String) (fields : List Value) (table : List (String × List Value))
    (t : String) (h : t ∈ (Schema.declare name fields table).map (·.1)) :
    t = name ∨ t ∈ table.map (·.1) := by
  induction table with
  | nil => exact .inl (List.mem_singleton.mp h)
  | cons entry rest ih =>
    obtain ⟨name', fields'⟩ := entry
    rw [Schema.declare] at h
    split at h
    · exact .inr h
    · rcases List.mem_cons.mp h with rfl | h
      · exact .inr List.mem_cons_self
      · exact (ih h).imp_right (List.mem_cons_of_mem _)

/-- What holds of no table at all and stays when a type is declared under its name holds of the table of
a schema. -/
lemma table_induction {P : List (String × List Value) → Prop} (hnil : P [])
    (hdeclare : ∀ before (key : Value) fields, P before →
      P (Schema.declare key.name fields before))
    (table : Entries) (S : Schema) (hS : Schema.ofTable? table = some S) : P S.table := by
  have hfold (entries : Entries) (before result : List (String × List Value)) (hbefore : P before)
      (h : entries.foldlM (fun table entry =>
        entry.2.elements?.map fun fields => Schema.declare entry.1.name fields table) before =
          some result) : P result := by
    induction entries generalizing before with
    | nil =>
      obtain rfl := Option.some.inj h
      exact hbefore
    | cons entry rest ih =>
      rw [List.foldlM_cons] at h
      obtain ⟨table, htable, h⟩ := Option.bind_eq_some_iff.mp h
      obtain ⟨fields, -, rfl⟩ := Option.map_eq_some_iff.mp htable
      exact ih _ (hdeclare before entry.1 fields hbefore) h
  unfold Schema.ofTable? at hS
  obtain ⟨result, hresult, rfl⟩ := Option.map_eq_some_iff.mp hS
  exact hfold table [] result hnil hresult

/-- The types of a schema are their own names. -/
theorem name_of_mem_types (table : Entries) (S : Schema) (hS : Schema.ofTable? table = some S)
    (t : String) (ht : t ∈ S.types) : (Value.str t).name = t := by
  have htypes : ∀ t ∈ S.table.map (·.1), (Value.str t).name = t := by
    refine table_induction (P := fun declared => ∀ t ∈ declared.map (·.1), (Value.str t).name = t)
      (by simp) ?_ table S hS
    intro before key fields hbefore t ht
    rcases mem_declare _ _ _ _ ht with rfl | ht
    · exact name_str_name key
    · exact hbefore t ht
  exact htypes t ht

lemma nodup_declare (name : String) (fields : List Value) (table : List (String × List Value))
    (h : (table.map (·.1)).Nodup) : ((Schema.declare name fields table).map (·.1)).Nodup := by
  induction table with
  | nil => exact List.nodup_singleton _
  | cons entry rest ih =>
    obtain ⟨name', fields'⟩ := entry
    rw [List.map_cons, List.nodup_cons] at h
    rw [Schema.declare]
    split
    · exact List.nodup_cons.mpr h
    · next hne =>
      rw [List.map_cons, List.nodup_cons]
      refine ⟨fun hmem => ?_, ih h.2⟩
      rcases mem_declare _ _ _ _ hmem with heq | hmem
      · exact hne heq
      · exact h.1 hmem

/-- A schema declares each of its types once. -/
lemma nodup_types (table : Entries) (S : Schema) (hS : Schema.ofTable? table = some S) :
    S.types.Nodup := by
  apply table_induction (P := fun declared => (declared.map (·.1)).Nodup) List.nodup_nil ?_ table S hS
  exact fun before key fields hbefore => nodup_declare key.name fields before hbefore

lemma lookup_declare (name : String) (fields : List Value) (table : List (String × List Value))
    (t : String) :
    (Schema.declare name fields table).lookup t =
      if t = name then some fields else table.lookup t := by
  induction table with
  | nil =>
    rw [Schema.declare, List.lookup_cons]
    split
    · next h => rw [if_pos (beq_iff_eq.mp h)]
    · next h => rw [if_neg (beq_eq_false_iff_ne.mp h)]
  | cons entry rest ih =>
    obtain ⟨name', fields'⟩ := entry
    rw [Schema.declare]
    split
    · next heq =>
      subst heq
      rw [List.lookup_cons, List.lookup_cons]
      split
      · next h => rw [if_pos (beq_iff_eq.mp h)]
      · next h => rw [if_neg (beq_eq_false_iff_ne.mp h)]
    · next hne =>
      rw [List.lookup_cons, ih, List.lookup_cons]
      split
      · next h => rw [if_neg (beq_iff_eq.mp h ▸ hne)]
      · rfl

/-- A type of a table has the fields of an entry under its name. -/
lemma fields?_of_mem (table : Entries) (S : Schema) (hS : Schema.ofTable? table = some S)
    (e : Value × Value) (he : e ∈ table) :
    ∃ e' ∈ table, e'.1.name = e.1.name ∧
      ∃ fields, e'.2.elements? = some fields ∧ S.fields? e.1 = some fields := by
  have hfold (t : String) (entries : Entries) (before result : List (String × List Value))
      (h : entries.foldlM (fun table entry =>
        entry.2.elements?.map fun fields => Schema.declare entry.1.name fields table) before =
          some result) :
      (∃ e ∈ entries, e.1.name = t ∧
        ∃ fields, e.2.elements? = some fields ∧ result.lookup t = some fields) ∨
      (∀ e ∈ entries, e.1.name ≠ t) ∧ result.lookup t = before.lookup t := by
    induction entries generalizing before with
    | nil =>
      obtain rfl := Option.some.inj h
      exact .inr ⟨by simp, rfl⟩
    | cons entry rest ih =>
      rw [List.foldlM_cons] at h
      obtain ⟨table, htable, h⟩ := Option.bind_eq_some_iff.mp h
      obtain ⟨fields, hfields, rfl⟩ := Option.map_eq_some_iff.mp htable
      rcases ih _ h with ⟨e, he, hname, hresult⟩ | ⟨hrest, hresult⟩
      · exact .inl ⟨e, List.mem_cons_of_mem _ he, hname, hresult⟩
      · rw [lookup_declare] at hresult
        by_cases hname : t = entry.1.name
        · rw [if_pos hname] at hresult
          exact .inl ⟨entry, List.mem_cons_self, hname.symm, fields, hfields, hresult⟩
        · rw [if_neg hname] at hresult
          exact .inr ⟨List.forall_mem_cons.mpr ⟨Ne.symm hname, hrest⟩, hresult⟩
  unfold Schema.ofTable? at hS
  obtain ⟨result, hresult, rfl⟩ := Option.map_eq_some_iff.mp hS
  rcases hfold e.1.name table [] result hresult with h | ⟨h, -⟩
  · exact h
  · exact absurd rfl (h e he)

/-- Where no two types share a name, a type has the fields of its own entry. -/
lemma fields?_of_nodup (table : Entries) (S : Schema) (hS : Schema.ofTable? table = some S)
    (hnodup : (table.map fun e => e.1.name).Nodup) (e : Value × Value) (he : e ∈ table) :
    S.fields? e.1 = e.2.elements? := by
  obtain ⟨e', he', hname, fields, hfields, hdeclared⟩ := fields?_of_mem table S hS e he
  obtain rfl := List.inj_on_of_nodup_map hnodup he' he hname
  rw [hdeclared, hfields]

end Rulebook.Proofs
