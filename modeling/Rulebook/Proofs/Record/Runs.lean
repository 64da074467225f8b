import Mathlib
import Rulebook.Proofs.Record.Grammar

/-!
# Two runs of loading

Relations between two runs that go along with every step of loading: what such a relation says of the
values inside two records, it says of the records. Beside it, the ways in which a record fails before
any of its fields is looked at.
-/

namespace Rulebook.Proofs
open Record

/-- A relation between two runs that every step keeps, where `E` relates the faults they end with. -/
structure RunRelation (E : RecordFault → RecordFault → Prop)
    (R : (α : Type) → RecordLoading α → RecordLoading α → Prop) : Prop where
  sameFault : ∀ fault, E fault fault
  ofPure : ∀ (α : Type) (a : α), R α (pure a) (pure a)
  ofFail : ∀ (α : Type) (fault fault' : RecordFault), E fault fault' →
    R α (Loading.fail fault) (Loading.fail fault')
  ofBind : ∀ (α β : Type) (x y : RecordLoading α) (f g : α → RecordLoading β), R α x y →
    (∀ a, R β (f a) (g a)) → R β (x >>= f) (y >>= g)

/-- Loads one argument. -/
def loadArgument (type : String) (index : Nat) (entry : Loaded) : RecordLoading Value :=
  match entry.value.items?, entry.items with
  | some _, [name, argument] => do
    let value ← argument.made
    pure (.tuple [name.value, value])
  | _, _ => Loading.fail (.argumentNotPair type index entry.value)

lemma loadArguments_cons (type : String) (index : Nat) (entry : Loaded) (rest : List Loaded) :
    loadArguments type index (entry :: rest) =
      (do
        let pair ← loadArgument type index entry
        let pairs ← loadArguments type (index + 1) rest
        pure (pair :: pairs)) := by
  rw [loadArguments]
  unfold loadArgument
  generalize entry.value.items? = items, entry.items = parts
  cases items with
  | none => rfl
  | some items =>
    rcases parts with _ | ⟨name, _ | ⟨argument, _ | ⟨more, parts⟩⟩⟩
    · rfl
    · rfl
    · simp only [bind_assoc, pure_bind]
    · rfl

section Loading

variable (S : Schema) (strict : Bool)

lemma loadArgument_pair (type : String) (index : Nat) (v name value : Value)
    (h : v.items? = some [name, value]) :
    loadArgument type index (loaded S strict v) =
      (do
        let w ← load S strict value
        pure (.tuple [name, w])) := by
  unfold loadArgument
  rw [value_loaded, h, items_loaded S strict v _ h]
  simp only [List.map_cons, List.map_nil, value_loaded, made_loaded]

lemma loadArgument_other (type : String) (index : Nat) (v : Value)
    (h : ∀ name value, v.items? ≠ some [name, value]) :
    loadArgument type index (loaded S strict v) = Loading.fail (.argumentNotPair type index v) := by
  unfold loadArgument
  rw [value_loaded]
  split
  · next items name argument hitems hparts =>
    rw [items_loaded S strict v items hitems] at hparts
    obtain ⟨a, b, rfl, -, -⟩ := map_eq_pair hparts
    exact absurd hitems (h a b)
  · rfl

/-- Nothing but the name of a field matters. -/
lemma loadField_congr (type : String) (field field' : Value) (raw : Loaded)
    (h : field.text? = field'.text?) : loadField type field raw = loadField type field' raw := by
  unfold loadField
  rw [h]

end Loading

/-! ## Steps -/

section Steps

variable {E : RecordFault → RecordFault → Prop}
  {R : (α : Type) → RecordLoading α → RecordLoading α → Prop} (hR : RunRelation E R)
include hR

lemma related_all {α : Type} (xs ys : List (RecordLoading α)) (h : List.Forall₂ (R α) xs ys) :
    R (List α) (Loading.all xs) (Loading.all ys) := by
  induction h with
  | nil => exact hR.ofPure _ []
  | cons hxy _ ih =>
    rw [Loading.all, Loading.all]
    apply hR.ofBind _ _ _ _ _ _ hxy
    intro a
    apply hR.ofBind _ _ _ _ _ _ ih
    intro as
    exact hR.ofPure _ _

lemma related_loadArguments (type : String) (index : Nat) (entries entries' : List Loaded)
    (h : List.Forall₂ (fun entry entry' => ∀ index,
      R Value (loadArgument type index entry) (loadArgument type index entry')) entries entries') :
    R (List Value) (loadArguments type index entries) (loadArguments type index entries') := by
  induction h generalizing index with
  | nil => exact hR.ofPure _ []
  | cons hentry _ ih =>
    rw [loadArguments_cons, loadArguments_cons]
    apply hR.ofBind _ _ _ _ _ _ (hentry index)
    intro pair
    apply hR.ofBind _ _ _ _ _ _ (ih (index + 1))
    intro pairs
    exact hR.ofPure _ _

lemma related_loadField_args (type : String) (field : Value) (raw raw' : Loaded)
    (items items' : List Value) (hfield : field.text? = some "args")
    (hitems : raw.value.items? = some items) (hitems' : raw'.value.items? = some items')
    (h : R (List Value) (loadArguments type 0 raw.items) (loadArguments type 0 raw'.items)) :
    R Value (loadField type field raw) (loadField type field raw') := by
  rw [loadField_args type field raw items hfield hitems,
    loadField_args type field raw' items' hfield hitems']
  apply hR.ofBind _ _ _ _ _ _ h
  intro pairs
  exact hR.ofPure _ _

/-- A field other than `args` is looked at after its value has been loaded. -/
lemma related_loadField_other (type : String) (field : Value) (raw raw' : Loaded)
    (hfield : field.text? ≠ some "args") (h : R Value raw.made raw'.made)
    (hrule : E (.ruleNotRecord type raw.value) (.ruleNotRecord type raw'.value))
    (hrules : E (.rulesNotRecords type raw.value) (.rulesNotRecords type raw'.value)) :
    R Value (loadField type field raw) (loadField type field raw') := by
  unfold loadField
  rw [if_neg hfield, if_neg hfield]
  apply hR.ofBind _ _ _ _ _ _ h
  intro value
  split
  · exact hR.ofFail _ _ _ hrule
  · split
    · exact hR.ofFail _ _ _ hrules
    · exact hR.ofPure _ _

lemma related_loadFields (type : String) (named named' : List (String × Loaded))
    (fields : List Value)
    (h : ∀ field ∈ fields, Option.Rel
      (fun raw raw' => R Value (loadField type field raw) (loadField type field raw'))
      (given? named field) (given? named' field)) :
    R (List Value) (loadFields type named fields) (loadFields type named' fields) := by
  induction fields with
  | nil => exact hR.ofPure _ []
  | cons field rest ih =>
    rw [List.forall_mem_cons] at h
    rw [loadFields, loadFields]
    split
    · exact hR.ofFail _ _ _ (hR.sameFault _)
    · have hentry := h.1
      generalize given? named field = entry, given? named' field = entry' at hentry
      cases hentry with
      | none => exact hR.ofFail _ _ _ (hR.sameFault _)
      | some hraw =>
        apply hR.ofBind _ _ _ _ _ _ hraw
        intro value
        apply hR.ofBind _ _ _ _ _ _ (ih h.2)
        intro values
        exact hR.ofPure _ _

/-! ## Sequences and arguments -/

section Sequences

variable (S : Schema) (strict strict' : Bool)

lemma related_list (items items' : List Value)
    (h : List.Forall₂ (fun v v' => R Value (load S strict v) (load S strict' v')) items items') :
    R Value (load S strict (.list items)) (load S strict' (.list items')) := by
  rw [load_list, load_list]
  apply hR.ofBind
  · apply related_all hR
    rw [List.forall₂_map_left_iff, List.forall₂_map_right_iff]
    exact h
  · intro values
    exact hR.ofPure _ _

lemma related_tuple (items items' : List Value)
    (h : List.Forall₂ (fun v v' => R Value (load S strict v) (load S strict' v')) items items') :
    R Value (load S strict (.tuple items)) (load S strict' (.tuple items')) := by
  rw [load_tuple, load_tuple]
  apply hR.ofBind
  · apply related_all hR
    rw [List.forall₂_map_left_iff, List.forall₂_map_right_iff]
    exact h
  · intro values
    exact hR.ofPure _ _

lemma related_args (type : String) (field v v' : Value) (items items' : List Value)
    (hfield : field.text? = some "args") (hitems : v.items? = some items)
    (hitems' : v'.items? = some items')
    (h : List.Forall₂ (fun item item' => ∀ index, R Value
      (loadArgument type index (loaded S strict item))
      (loadArgument type index (loaded S strict' item'))) items items') :
    R Value (loadField type field (loaded S strict v)) (loadField type field (loaded S strict' v')) := by
  apply related_loadField_args hR type field _ _ items items' hfield
    (by rw [value_loaded, hitems]) (by rw [value_loaded, hitems'])
  rw [items_loaded S strict v items hitems, items_loaded S strict' v' items' hitems']
  apply related_loadArguments hR
  rw [List.forall₂_map_left_iff, List.forall₂_map_right_iff]
  exact h

/-- In an argument the value of a pair is loaded. -/
lemma related_argument (type : String) (index : Nat) (pair pair' name v v' : Value)
    (hpair : pair.items? = some [name, v]) (hpair' : pair'.items? = some [name, v'])
    (h : R Value (load S strict v) (load S strict' v')) :
    R Value (loadArgument type index (loaded S strict pair))
      (loadArgument type index (loaded S strict' pair')) := by
  rw [loadArgument_pair S strict type index pair name v hpair,
    loadArgument_pair S strict' type index pair' name v' hpair']
  apply hR.ofBind _ _ _ _ _ _ h
  intro w
  exact hR.ofPure _ _

end Sequences

end Steps

/-! ## Records that fail at once -/

section Records

variable (S : Schema) (strict : Bool)

lemma lookup_map {α β : Type} (f : α → β) (named : List (String × α)) (name : String) :
    (named.map fun p => (p.1, f p.2)).lookup name = (named.lookup name).map f := by
  induction named with
  | nil => rfl
  | cons p rest ih =>
    rw [List.map_cons, List.lookup_cons, List.lookup_cons]
    cases name == p.1 with
    | true => rfl
    | false => exact ih

/-- Which name is shared does not depend on what has been made of the values. -/
lemma namedEntries_map (entries : Entries) (named : List (String × Value)) :
    ∃ outcome : Except RecordFault (List (String × Value)), ∀ f : Value → Loaded,
      namedEntries (entries.map fun e => (e.1, f e.2)) (named.map fun p => (p.1, f p.2)) =
        outcome.map (List.map fun p => (p.1, f p.2)) := by
  induction entries generalizing named with
  | nil => exact ⟨.ok named, fun f => rfl⟩
  | cons e rest ih =>
    by_cases hshared : (named.lookup e.1.name).isSome = true
    · refine ⟨.error (.sharedName e.1.name), ?_⟩
      intro f
      rw [List.map_cons, namedEntries, lookup_map, Option.isSome_map, if_pos hshared]
      rfl
    · obtain ⟨outcome, houtcome⟩ := ih (named ++ [(e.1.name, e.2)])
      refine ⟨outcome, ?_⟩
      intro f
      rw [List.map_cons, namedEntries, lookup_map, Option.isSome_map, if_neg hshared, ← houtcome f,
        List.map_append]
      rfl

/-- A name that two entries share is a fault, whatever the entries hold. -/
lemma loadRecord_shared (entries : Entries) (h : ¬(entries.map fun e => e.1.name).Nodup) :
    ∃ fault, ∀ strict, loadRecord S strict (entries.map fun e => (e.1, loaded S strict e.2)) =
      Loading.fail fault := by
  obtain ⟨outcome, houtcome⟩ := namedEntries_map entries []
  cases outcome with
  | error fault =>
    refine ⟨fault, fun strict => ?_⟩
    unfold loadRecord
    rw [show namedEntries _ [] = _ from houtcome (loaded S strict)]
    rfl
  | ok named =>
    have hok := namedEntries_isOk _ [] _ (houtcome (loaded S false)) List.nodup_nil
    rw [List.map_nil, List.nil_append, names_loadedEntries] at hok
    exact absurd hok h

lemma loadRecord_missingType (entries : Entries) (hnodup : (entries.map fun e => e.1.name).Nodup)
    (h : "type" ∉ entries.map fun e => e.1.name) :
    loadRecord S strict (entries.map fun e => (e.1, loaded S strict e.2)) =
      Loading.fail .missingType := by
  have hlookup : (loadedEntries S strict entries).lookup "type" = none := by
    rw [List.lookup_eq_none_iff]
    intro p hp
    obtain ⟨e, he, rfl⟩ := List.mem_map.mp hp
    have hne : "type" ≠ e.1.name := fun heq => h (heq ▸ List.mem_map_of_mem he)
    simpa using hne
  unfold loadRecord
  rw [namedEntries_loaded S strict entries hnodup]
  dsimp only
  rw [hlookup]

lemma loadRecord_unknownType (entries : Entries) (tag : Value)
    (hnodup : (entries.map fun e => e.1.name).Nodup)
    (htag : ("type", tag) ∈ entries.map fun e => (e.1.name, e.2)) (h : S.fields? tag = none) :
    loadRecord S strict (entries.map fun e => (e.1, loaded S strict e.2)) =
      Loading.fail (.unknownType tag) := by
  unfold loadRecord
  rw [namedEntries_loaded S strict entries hnodup]
  dsimp only
  rw [lookup_loadedEntries S strict entries hnodup "type" tag htag]
  dsimp only
  rw [value_loaded, h]

/-- A record fails at once, in either mode, unless its names are distinct and its type is one of the
schema. -/
lemma loadRecord_cases (entries : Entries) :
    (∃ fault, ∀ strict, loadRecord S strict (entries.map fun e => (e.1, loaded S strict e.2)) =
      Loading.fail fault) ∨
    (entries.map fun e => e.1.name).Nodup ∧ ∃ tag fields,
      ("type", tag) ∈ entries.map (fun e => (e.1.name, e.2)) ∧ S.fields? tag = some fields := by
  by_cases hnodup : (entries.map fun e => e.1.name).Nodup
  · by_cases htype : "type" ∈ entries.map fun e => e.1.name
    · obtain ⟨e, he, hname⟩ := List.mem_map.mp htype
      have htag : ("type", e.2) ∈ entries.map fun e => (e.1.name, e.2) :=
        List.mem_map.mpr ⟨e, he, by rw [hname]⟩
      cases hfields : S.fields? e.2 with
      | none =>
        exact .inl ⟨_, fun strict => loadRecord_unknownType S strict entries e.2 hnodup htag hfields⟩
      | some fields => exact .inr ⟨hnodup, e.2, fields, htag, hfields⟩
    · exact .inl ⟨_, fun strict => loadRecord_missingType S strict entries hnodup htype⟩
  · exact .inl (loadRecord_shared S entries hnodup)

lemma given?_none (entries : Entries) (hnodup : (entries.map fun e => e.1.name).Nodup)
    (field : Value) (h : ∀ value, ¬IsEntry entries field value) :
    given? ((loadedEntries S strict entries).filter (·.1 != "type")) field = none := by
  rw [Option.eq_none_iff_forall_ne_some]
  intro raw hraw
  obtain ⟨value, hvalue, -⟩ := (given?_eq_some S strict entries hnodup field raw).mp hraw
  exact h value hvalue

lemma given?_some (entries : Entries) (hnodup : (entries.map fun e => e.1.name).Nodup)
    (field value : Value) (h : IsEntry entries field value) :
    given? ((loadedEntries S strict entries).filter (·.1 != "type")) field =
      some (loaded S strict value) :=
  (given?_eq_some S strict entries hnodup field _).mpr ⟨value, h, rfl⟩

end Records

end Rulebook.Proofs
