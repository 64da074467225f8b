import Mathlib
import Rulebook.Record.Load
import Rulebook.Proofs.Outcome

/-!
# How a value is loaded

What loading does to each kind of value, in terms of what it does to the values inside.
-/

namespace Rulebook.Proofs
open Record

/-! ## Outcomes -/

section Outcomes

variable {ε α β γ : Type}

lemma loading_id_map (x : Loading ε α) : id <$> x = x := by
  obtain ⟨warnings, result⟩ := x
  cases result with
  | error e => rfl
  | ok a =>
    change (⟨warnings ++ [], .ok a⟩ : Loading ε α) = _
    rw [List.append_nil]

lemma loading_bind_assoc (x : Loading ε α) (f : α → Loading ε β) (g : β → Loading ε γ) :
    x >>= f >>= g = x >>= fun a => f a >>= g := by
  obtain ⟨warnings, result⟩ := x
  cases result with
  | error e => rfl
  | ok a =>
    change (⟨warnings ++ (f a).warnings, (f a).result⟩ : Loading ε β) >>= g =
      ⟨warnings ++ (f a >>= g).warnings, (f a >>= g).result⟩
    obtain ⟨more, result⟩ := f a
    cases result with
    | error e => rfl
    | ok b =>
      change (⟨(warnings ++ more) ++ (g b).warnings, (g b).result⟩ : Loading ε γ) =
        ⟨warnings ++ (more ++ (g b).warnings), (g b).result⟩
      rw [List.append_assoc]

instance : LawfulMonad (Loading ε) :=
  LawfulMonad.mk' _ loading_id_map (fun _ _ => rfl) loading_bind_assoc

lemma ok_of_loading_bind (x : Loading ε α) (f : α → Loading ε β) (b : β) :
    (x >>= f).result = .ok b ↔ ∃ a, x.result = .ok a ∧ (f a).result = .ok b := by
  change (Loading.bind x f).result = _ ↔ _
  unfold Loading.bind
  cases x.result with
  | error e => simp
  | ok a => simp

@[simp] lemma result_pure (a b : α) : (pure a : Loading ε α).result = .ok b ↔ a = b := by
  change (Except.ok a : Except ε α) = .ok b ↔ a = b
  rw [Except.ok.injEq]

@[simp] lemma result_fail (fault : ε) (a : α) :
    ¬(Loading.fail fault : Loading ε α).result = .ok a := by
  rintro ⟨⟩

lemma all_result (xs : List (Loading ε α)) (as : List α) :
    (Loading.all xs).result = .ok as ↔ List.Forall₂ (fun x a => x.result = .ok a) xs as := by
  induction xs generalizing as with
  | nil =>
    rw [Loading.all, List.forall₂_nil_left_iff, result_pure]
    exact eq_comm
  | cons x rest ih =>
    rw [Loading.all, ok_of_loading_bind, List.forall₂_cons_left_iff]
    simp only [ok_of_loading_bind, result_pure]
    constructor
    · rintro ⟨a, ha, as', has, rfl⟩
      exact ⟨a, as', ha, (ih as').mp has, rfl⟩
    · rintro ⟨a, as', ha, has, rfl⟩
      exact ⟨a, ha, as', (ih as').mpr has, rfl⟩

lemma all_isOk (xs : List (Loading ε α)) :
    (∃ as, (Loading.all xs).result = .ok as) ↔ ∀ x ∈ xs, ∃ a, x.result = .ok a := by
  simp only [all_result]
  exact exists_forall₂ xs

end Outcomes

/-! ## Kinds of values -/

variable (S : Schema) (strict : Bool)

@[simp] lemma value_loaded (v : Value) : (loaded S strict v).value = v := Part.value_of _ v

lemma made_loaded (v : Value) : (loaded S strict v).made = load S strict v := rfl

lemma items_loaded (v : Value) (items : List Value) (h : v.items? = some items) :
    (loaded S strict v).items = items.map (loaded S strict) := Part.items_of _ v items h

lemma load_list (items : List Value) :
    load S strict (.list items) =
      (do
        let values ← Loading.all (items.map (load S strict))
        pure (.list values)) := by
  unfold load
  rw [loaded, Part.made_of, ← loaded, items_loaded S strict _ items rfl, loadPart, List.map_map]
  rfl

lemma load_tuple (items : List Value) :
    load S strict (.tuple items) =
      (do
        let values ← Loading.all (items.map (load S strict))
        pure (.tuple values)) := by
  unfold load
  rw [loaded, Part.made_of, ← loaded, items_loaded S strict _ items rfl, loadPart, List.map_map]
  rfl

lemma load_list_ok (items : List Value) (w : Value) :
    (load S strict (.list items)).result = .ok w ↔
      ∃ values, List.Forall₂ (fun item value => (load S strict item).result = .ok value)
        items values ∧ w = .list values := by
  rw [load_list, ok_of_loading_bind]
  simp only [all_result, List.forall₂_map_left_iff, result_pure, @eq_comm Value w]

lemma load_list_isOk (items : List Value) :
    (∃ w, (load S strict (.list items)).result = .ok w) ↔
      ∀ item ∈ items, ∃ w, (load S strict item).result = .ok w := by
  rw [← exists_forall₂]
  simp only [load_list_ok]
  constructor
  · rintro ⟨_, values, hvalues, -⟩
    exact ⟨values, hvalues⟩
  · rintro ⟨values, hvalues⟩
    exact ⟨_, values, hvalues, rfl⟩

lemma load_tuple_ok (items : List Value) (w : Value) :
    (load S strict (.tuple items)).result = .ok w ↔
      ∃ values, List.Forall₂ (fun item value => (load S strict item).result = .ok value)
        items values ∧ w = .tuple values := by
  rw [load_tuple, ok_of_loading_bind]
  simp only [all_result, List.forall₂_map_left_iff, result_pure, @eq_comm Value w]

lemma load_nil : load S strict (.dict []) = pure .undefined := rfl

lemma load_dict (entries : Entries) (h : entries ≠ []) :
    load S strict (.dict entries) =
      loadRecord S strict (entries.map fun e => (e.1, loaded S strict e.2)) := by
  have hentries : (loaded S strict (.dict entries)).entries =
      entries.map fun e => (e.1, loaded S strict e.2) := Part.ofEntries_eq_map _ entries
  unfold load
  rw [loaded, Part.made_of, ← loaded, hentries, loadPart, if_neg (by simpa using h)]

/-- A value that is neither a mapping nor a list or tuple stays as it is, but for one text. -/
lemma load_scalar (v : Value) (hdict : ∀ entries, v ≠ .dict entries)
    (hlist : ∀ items, v ≠ .list items) (htuple : ∀ items, v ≠ .tuple items) :
    load S strict v = pure (if v.text? = some undefinedText then .undefined else v) := by
  cases v with
  | dict entries => exact absurd rfl (hdict entries)
  | list items => exact absurd rfl (hlist items)
  | tuple items => exact absurd rfl (htuple items)
  | _ => rfl

/-! ## Payloads and values of fields -/

lemma payload_several (values : List Value) (h : values.length ≠ 1) :
    payload values = .tuple values := by
  unfold payload
  split
  · exact absurd rfl h
  · rfl

/-- One value is a payload itself, and any other number of values is a tuple. -/
lemma payload_cases (fields values : List Value) (hlength : values.length = fields.length) :
    (∃ field value, fields = [field] ∧ values = [value]) ∨
      (fields.length ≠ 1 ∧ payload values = .tuple values) := by
  by_cases hcount : fields.length = 1
  · obtain ⟨field, rfl⟩ := List.length_eq_one_iff.mp hcount
    obtain ⟨value, rfl⟩ := List.length_eq_one_iff.mp hlength
    exact .inl ⟨field, value, rfl, rfl⟩
  · exact .inr ⟨hcount, payload_several values (by rw [hlength]; exact hcount)⟩

lemma loadField_args (type : String) (field : Value) (raw : Loaded) (items : List Value)
    (h : field.text? = some "args") (hitems : raw.value.items? = some items) :
    loadField type field raw =
      (do
        let pairs ← loadArguments type 0 raw.items
        pure (.list pairs)) := by
  unfold loadField
  rw [if_pos h, hitems]

lemma loadField_args_none (type : String) (field : Value) (raw : Loaded)
    (h : field.text? = some "args") (hitems : raw.value.items? = none) :
    loadField type field raw = Loading.fail (.argumentsNotSequence type raw.value.kind) := by
  unfold loadField
  rw [if_pos h, hitems]

lemma loadField_rule (type : String) (field : Value) (raw : Loaded)
    (h : field.text? = some "rule") :
    loadField type field raw =
      (do
        let value ← raw.made
        if value.isNode then pure value else Loading.fail (.ruleNotRecord type raw.value)) := by
  unfold loadField
  rw [if_neg (by simp [h])]
  congr 1
  funext value
  cases value.isNode <;> simp [h]

lemma loadField_rules (type : String) (field : Value) (raw : Loaded)
    (h : field.text? = some "rules") :
    loadField type field raw =
      (do
        let value ← raw.made
        if isNodeSequence value then pure value
        else Loading.fail (.rulesNotRecords type raw.value)) := by
  unfold loadField
  rw [if_neg (by simp [h])]
  congr 1
  funext value
  cases isNodeSequence value <;> simp [h]

lemma loadField_rule_ok (type : String) (field v w : Value) (h : field.text? = some "rule") :
    (loadField type field (loaded S strict v)).result = .ok w ↔
      (load S strict v).result = .ok w ∧ w.isNode = true := by
  rw [loadField_rule _ _ _ h, made_loaded, ok_of_loading_bind]
  constructor
  · rintro ⟨value, hvalue, hw⟩
    by_cases hnode : value.isNode = true
    · rw [if_pos hnode, result_pure] at hw
      exact hw ▸ ⟨hvalue, hnode⟩
    · rw [if_neg hnode] at hw
      exact absurd hw (result_fail _ _)
  · rintro ⟨hw, hnode⟩
    exact ⟨w, hw, by rw [if_pos hnode]; rfl⟩

lemma loadField_rules_ok (type : String) (field v w : Value) (h : field.text? = some "rules") :
    (loadField type field (loaded S strict v)).result = .ok w ↔
      (load S strict v).result = .ok w ∧ isNodeSequence w = true := by
  rw [loadField_rules _ _ _ h, made_loaded, ok_of_loading_bind]
  constructor
  · rintro ⟨value, hvalue, hw⟩
    by_cases hnodes : isNodeSequence value = true
    · rw [if_pos hnodes, result_pure] at hw
      exact hw ▸ ⟨hvalue, hnodes⟩
    · rw [if_neg hnodes] at hw
      exact absurd hw (result_fail _ _)
  · rintro ⟨hw, hnodes⟩
    exact ⟨w, hw, by rw [if_pos hnodes]; rfl⟩

lemma loadField_other (type : String) (field : Value) (raw : Loaded)
    (hargs : field.text? ≠ some "args") (hrule : field.text? ≠ some "rule")
    (hrules : field.text? ≠ some "rules") : loadField type field raw = raw.made := by
  unfold loadField
  rw [if_neg hargs]
  simp only [hrule, hrules, false_and, if_false]
  exact bind_pure _

end Rulebook.Proofs
