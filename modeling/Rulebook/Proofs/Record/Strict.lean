import Mathlib
import Rulebook.Report
import Rulebook.Proofs.Record.Runs

/-!
# Strict runs

A strict run goes along with the lenient run on the same value up to the first warning of that, and
ends there with a fault that tells what the warning tells.
-/

namespace Rulebook.Proofs
open Record

/-- A lenient run and the strict run on the same value. -/
inductive StrictRun {α : Type} : RecordLoading α → RecordLoading α → Prop
  | quiet (result : Except RecordFault α) : StrictRun (.quiet result) (.quiet result)
  | warned (w : Warning) (more : List Warning) (result : Except RecordFault α) (first : String)
      (others : List String) : w.names = first :: others →
      StrictRun ⟨w :: more, result⟩ (.fail (.undeclared w.type first others))

lemma strictRun_bind {α β : Type} (x y : RecordLoading α) (f g : α → RecordLoading β)
    (hxy : StrictRun x y) (hfg : ∀ a, StrictRun (f a) (g a)) : StrictRun (x >>= f) (y >>= g) := by
  cases hxy with
  | quiet result =>
    cases result with
    | error fault => exact .quiet _
    | ok a => exact hfg a
  | warned w more result first others hnames =>
    cases result with
    | error fault => exact .warned w _ _ first others hnames
    | ok a => exact .warned w _ _ first others hnames

lemma runRelation_strictRun : RunRelation Eq (fun α => StrictRun (α := α)) where
  sameFault fault := rfl
  ofPure α a := .quiet _
  ofFail α fault fault' h := by
    rw [h]
    exact .quiet _
  ofBind α β := strictRun_bind

lemma strictRun_checkUndeclared (type : String) (names : List String) :
    StrictRun (checkUndeclared false type names) (checkUndeclared true type names) := by
  cases names with
  | nil => exact .quiet _
  | cons first others => exact .warned ⟨first :: others, type⟩ [] _ first others rfl

section Values

variable (S : Schema)

lemma strictRun_loadArgument (type : String) (index : Nat) (v : Value)
    (ih : ∀ u, sizeOf u ≤ sizeOf v → StrictRun (load S false u) (load S true u)) :
    StrictRun (loadArgument type index (loaded S false v))
      (loadArgument type index (loaded S true v)) := by
  by_cases hpair : ∃ name value, v.items? = some [name, value]
  · obtain ⟨name, value, hpair⟩ := hpair
    have hlt := sizeOf_item_lt v _ hpair value (by simp)
    exact related_argument runRelation_strictRun S false true type index v v name value value hpair hpair
      (ih value hlt.le)
  · have hother : ∀ name value, v.items? ≠ some [name, value] :=
      fun name value h => hpair ⟨name, value, h⟩
    rw [loadArgument_other S false type index v hother,
      loadArgument_other S true type index v hother]
    exact .quiet _

lemma strictRun_loadField (type : String) (field v : Value)
    (ih : ∀ u, sizeOf u ≤ sizeOf v → StrictRun (load S false u) (load S true u)) :
    StrictRun (loadField type field (loaded S false v)) (loadField type field (loaded S true v)) := by
  by_cases hargs : field.text? = some "args"
  · cases hitems : v.items? with
    | none =>
      rw [loadField_args_none _ _ _ hargs (by rw [value_loaded, hitems]),
        loadField_args_none _ _ _ hargs (by rw [value_loaded, hitems]), value_loaded, value_loaded]
      exact .quiet _
    | some items =>
      apply related_args runRelation_strictRun S false true type field v v items items hargs hitems hitems
      rw [List.forall₂_same]
      intro item hitem index
      have hlt := sizeOf_item_lt v items hitems item hitem
      exact strictRun_loadArgument S type index item fun u hu => ih u (hu.trans hlt.le)
  · apply related_loadField_other runRelation_strictRun type field _ _ hargs
    · exact ih v le_rfl
    · rw [value_loaded, value_loaded]
    · rw [value_loaded, value_loaded]

lemma strictRun_loadRecord (entries : Entries)
    (ih : ∀ e ∈ entries, ∀ u, sizeOf u ≤ sizeOf e.2 → StrictRun (load S false u) (load S true u)) :
    StrictRun (loadRecord S false (entries.map fun e => (e.1, loaded S false e.2)))
      (loadRecord S true (entries.map fun e => (e.1, loaded S true e.2))) := by
  rcases loadRecord_cases S entries with ⟨fault, hfault⟩ | ⟨hnodup, tag, fields, htag, hfields⟩
  · rw [hfault false, hfault true]
    exact .quiet _
  · have hne : entries ≠ [] := by
      rintro rfl
      cases htag
    have hnames (strict : Bool) :
        ((loadedEntries S strict entries).filter (·.1 != "type")).map Prod.fst =
          (entries.map fun e => e.1.name).filter (· != "type") := by
      unfold loadedEntries
      rw [List.filter_map, List.filter_map, List.map_map]
      rfl
    rw [← load_dict S false entries hne, ← load_dict S true entries hne,
      load_record_eq S false entries tag fields hnodup htag hfields,
      load_record_eq S true entries tag fields hnodup htag hfields]
    dsimp only
    rw [hnames false, hnames true]
    apply strictRun_bind _ _ _ _ (strictRun_checkUndeclared _ _)
    intro _
    apply strictRun_bind
    · apply related_loadFields runRelation_strictRun
      intro field _
      by_cases hentry : ∃ value, IsEntry entries field value
      · obtain ⟨value, hvalue⟩ := hentry
        rw [given?_some S false entries hnodup field value hvalue,
          given?_some S true entries hnodup field value hvalue]
        obtain ⟨_, -, -, hmem⟩ := hvalue
        obtain ⟨e, he, heq⟩ := List.mem_map.mp hmem
        obtain ⟨-, rfl⟩ := Prod.mk.inj heq
        exact .some (strictRun_loadField S tag.name field e.2 (ih e he))
      · rw [not_exists] at hentry
        rw [given?_none S false entries hnodup field hentry,
          given?_none S true entries hnodup field hentry]
        exact .none
    · intro values
      exact .quiet _

/-- The strict run on a value goes along with the lenient one. -/
lemma strictRun_load (v : Value) : StrictRun (load S false v) (load S true v) := by
  -- By induction on the size: the entry of a field is found by its name, wherever it stands.
  generalize hsize : sizeOf v = n
  induction n using Nat.strong_induction_on generalizing v with
  | _ n ih =>
  have hitem (items : List Value) (hitems : v.items? = some items) :
      List.Forall₂ (fun item item' => StrictRun (load S false item) (load S true item')) items items := by
    rw [List.forall₂_same]
    intro item hitem
    have hlt := sizeOf_item_lt v items hitems item hitem
    exact ih (sizeOf item) (hsize ▸ hlt) item rfl
  match v with
  | .list items => exact related_list runRelation_strictRun S false true items items (hitem items rfl)
  | .tuple items => exact related_tuple runRelation_strictRun S false true items items (hitem items rfl)
  | .dict [] => exact .quiet _
  | .dict (e :: rest) =>
    rw [load_dict S false (e :: rest) (by simp), load_dict S true (e :: rest) (by simp)]
    apply strictRun_loadRecord S (e :: rest)
    intro e' he' u hu
    have hlt := sizeOf_value_lt (e :: rest) e' he'
    exact ih (sizeOf u) (by omega) u rfl
  | .null | .bool _ | .int _ | .float _ | .str _ | .bytes _ | .set _ | .timestamp _ | .undefined |
    .node .. | .rule _ | .brokenRule _ | .member _ | .constant _ | .inert => exact .quiet _

lemma strictRun_toNode (v : Value) : StrictRun (toNode S false v) (toNode S true v) := by
  unfold toNode
  by_cases hdict : v.isDict = true
  · obtain ⟨entries, rfl⟩ : ∃ entries, v = .dict entries := by
      cases v <;> first | exact ⟨_, rfl⟩ | cases hdict
    have hentries (strict : Bool) : (loaded S strict (.dict entries)).entries =
        entries.map fun e => (e.1, loaded S strict e.2) := Part.ofEntries_eq_map _ entries
    rw [if_pos hdict, if_pos hdict, hentries, hentries]
    exact strictRun_loadRecord S entries fun _ _ u _ => strictRun_load S u
  · rw [if_neg hdict, if_neg hdict]
    exact .quiet _

end Values

/-- A lenient run and a strict one that takes the first warning for a fault. -/
structure FirstWarningIsFatal {α : Type} (lenient strict : RecordLoading α) : Prop where
  silent : strict.warnings = []
  same : lenient.warnings = [] → strict = lenient
  fatal : ∀ w more, lenient.warnings = w :: more → ∃ fault first others,
    strict.result = .error fault ∧ fault.kind? = some .malformedRecord ∧
      w.names = first :: others ∧ fault.type? = some w.type ∧ fault.field? = some (.str first)

lemma firstWarningIsFatal_of_strictRun {α : Type} {lenient strict : RecordLoading α}
    (h : StrictRun lenient strict) : FirstWarningIsFatal lenient strict := by
  cases h with
  | quiet result =>
    refine ⟨rfl, fun _ => rfl, ?_⟩
    rintro w more ⟨⟩
  | warned w more result first others hnames =>
    refine ⟨rfl, ?_, ?_⟩
    · rintro ⟨⟩
    · rintro w' more' heq
      obtain ⟨rfl, rfl⟩ := List.cons.inj heq
      exact ⟨_, first, others, rfl, rfl, hnames, rfl, rfl⟩

/-- Strict loading is lenient loading up to the first warning, which ends it with a fault. -/
theorem load_strict_of_lenient (S : Schema) (v : Value) :
    FirstWarningIsFatal (load S false v) (load S true v) ∧
      FirstWarningIsFatal (toNode S false v) (toNode S true v) := by
  constructor
  · exact firstWarningIsFatal_of_strictRun (strictRun_load S v)
  · exact firstWarningIsFatal_of_strictRun (strictRun_toNode S v)

end Rulebook.Proofs
