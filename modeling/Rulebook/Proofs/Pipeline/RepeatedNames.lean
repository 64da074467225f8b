import Mathlib
import Rulebook.Proofs.Json.Documents
import Rulebook.Proofs.Pipeline.Carried
import Rulebook.Proofs.Record.Acceptance

/-!
# Members of one name in a text

Two members of an object may have one name. Where the names differ in their spelling, an object that
is converted as a record is refused. Members with the very same name have become one entry before
anything is converted: the last of them counts, and the text loads like one without the others.
-/

namespace Rulebook.Proofs
open Record Json Document

/-- What an object has for a field of its type. Of members with the same name the last one counts. -/
def HasField (S : Schema) (members : List (String × Document)) (field : Value) (d : Document) :
    Prop :=
  (∃ m ∈ lastOfName members, (Value.str m.1).name = "type" ∧
    ∃ fields, S.fields? m.2.value = some fields ∧ field ∈ fields) ∧
  ∃ m ∈ lastOfName members, field.text? = some (Value.str m.1).name ∧
    (Value.str m.1).name ≠ "type" ∧ m.2 = d

/-- What is converted when a document is loaded: the document itself, the items of lists and the fields
of records, of which arguments are converted without their names. -/
inductive Converts (S : Schema) : Document → Document → Prop
  | self (d : Document) : Converts S d d
  | item (items : List Document) (item part : Document) : item ∈ items → Converts S item part →
      Converts S (.list items) part
  | field (members : List (String × Document)) (field : Value) (d part : Document) :
      HasField S members field d → field.text? ≠ some "args" → Converts S d part →
      Converts S (.object members) part
  | argument (members : List (String × Document)) (field : Value) (items : List Document)
      (name d part : Document) : HasField S members field (.list items) →
      field.text? = some "args" → .list [name, d] ∈ items → Converts S d part →
      Converts S (.object members) part

/-- Two members have names that differ in their spelling only. -/
def SharesName (members : List (String × Document)) : Prop :=
  ∃ m ∈ members, ∃ m' ∈ members, m.1 ≠ m'.1 ∧ (Value.str m.1).name = (Value.str m'.1).name

section Converted

variable {S : Schema} {strict : Bool}

lemma names_entries (members : List (String × Document)) :
    (members.map entry).map (fun e => (e.1.name, e.2)) =
      members.map fun m => ((Value.str m.1).name, m.2.value) := by
  rw [List.map_map]
  rfl

/-- A record of distinct names and a known type, where the value of every field is of use, unless the
object is empty. -/
lemma normalizable_field (members : List (String × Document)) (field : Value) (d : Document)
    (h : Normalizable S strict (object members).value) (hfield : HasField S members field d) :
    (field.text? ≠ some "args" → Normalizable S strict d.value) ∧
      (field.text? = some "args" → ∀ items, d.value = .list items → ∀ name v,
        .list [name, v] ∈ items → Normalizable S strict v) := by
  obtain ⟨⟨m, hm, htype, fields, hfields, hmem⟩, m', hm', htext, hne, rfl⟩ := hfield
  rw [value_object] at h
  have hempty : (lastOfName members).map entry ≠ [] := by
    intro hnil
    rw [List.map_eq_nil_iff] at hnil
    rw [hnil] at hm
    cases hm
  generalize hentries : (lastOfName members).map entry = entries at h hempty
  cases h with
  | scalar _ hscalar => cases hscalar
  | empty => exact absurd rfl hempty
  | record _ tag fields' raw hnodup htag hfields' hentry _ _ hother hargs =>
    have hentry' (m : String × Document) (hm : m ∈ lastOfName members) :
        ((Value.str m.1).name, m.2.value) ∈ entries.map fun e => (e.1.name, e.2) := by
      rw [← hentries, names_entries]
      exact List.mem_map.mpr ⟨m, hm, rfl⟩
    have hfst : ((entries.map fun e => (e.1.name, e.2)).map Prod.fst).Nodup := by
      rw [List.map_map]
      exact hnodup
    obtain rfl : tag = m.2.value := by
      have hlookup := lookup_of_mem _ _ _ hfst (htype ▸ hentry' m hm)
      exact Option.some.inj ((lookup_of_mem _ _ _ hfst htag).symm.trans hlookup)
    obtain rfl := Option.some.inj (hfields.symm.trans hfields')
    have hraw : raw field = m'.2.value := isEntry_unique entries hnodup field _ _
      (hentry field hmem) ⟨_, htext, hne, hentry' m' hm'⟩
    rw [← hraw]
    exact ⟨hother field hmem, hargs field hmem⟩

/-- Whatever is converted of a document is normalizable if the document is. -/
lemma normalizable_of_converts (d part : Document) (hpart : Converts S d part)
    (h : Normalizable S strict d.value) : Normalizable S strict part.value := by
  induction hpart with
  | self => exact h
  | item items item part hitem _ ih =>
    rw [value, itemValues_eq_map] at h
    cases h with
    | scalar _ hscalar => cases hscalar
    | list _ hitems => exact ih (hitems _ (List.mem_map_of_mem hitem))
  | field members field d part hfield hargs _ ih =>
    exact ih ((normalizable_field members field d h hfield).1 hargs)
  | argument members field items name d part hfield hargs hitem _ ih =>
    refine ih ((normalizable_field members field _ h hfield).2 hargs _ rfl name.value d.value ?_)
    rw [itemValues_eq_map]
    exact List.mem_map.mpr ⟨_, hitem, by rw [value, itemValues_eq_map]; rfl⟩

/-- An object with two names that differ in their spelling only is no record. -/
lemma not_normalizable_of_sharesName (members : List (String × Document)) (h : SharesName members) :
    ¬Normalizable S strict (object members).value := by
  obtain ⟨m, hm, m', hm', hne, hname⟩ := h
  have hlast (m : String × Document) (hm : m ∈ members) :
      ∃ e ∈ (lastOfName members).map entry, e.1 = .str m.1 := by
    obtain ⟨k, hk, hkey⟩ :=
      List.mem_map.mp ((mem_names_lastOfName members m.1).mpr (List.mem_map_of_mem hm))
    exact ⟨entry k, List.mem_map_of_mem hk, congrArg Value.str hkey⟩
  obtain ⟨e, he, hkey⟩ := hlast m hm
  obtain ⟨e', he', hkey'⟩ := hlast m' hm'
  rw [value_object]
  generalize (lastOfName members).map entry = entries at he he'
  intro hnorm
  cases hnorm with
  | scalar _ hscalar => cases hscalar
  | empty => cases he
  | record _ _ _ _ hnodup =>
    obtain rfl := List.inj_on_of_nodup_map hnodup he he' (by rw [hkey, hkey', hname])
    exact hne (Value.str.inj (hkey.symm.trans hkey'))

end Converted

/-! ## Texts -/

section Texts

variable (o : Options) (t : String) (d : Document)

lemma decode_spelled (ht : Spells t.toList d) (hwithin : d.IsWithin o.jsonCodec.digits) :
    o.jsonCodec.decode (.str t) = .ok d.value :=
  (decode_iff_spells o.jsonCodec t d.value).mpr ⟨d, ht, hwithin, rfl⟩

lemma load_spelled (ht : Spells t.toList d) (hwithin : d.IsWithin o.jsonCodec.digits) :
    ({ options := o } : Pipeline).load (.str t) =
      (do
        let tree ← (Record.load .rules o.strictMode.isTrue d.value).mapFault .record
        pure tree.unsplat) :=
  load_of_decode o (.str t) d.value (decode_spelled o t d ht hwithin)

/-- A text loads exactly when its document is read as a normalizable value, and else fails with an
error of the schema. -/
lemma load_spelled_isOk_iff (ht : Spells t.toList d) (hwithin : d.IsWithin o.jsonCodec.digits) :
    ((∃ w, (({ options := o } : Pipeline).load (.str t)).result = .ok w) ↔
        Normalizable .rules o.strictMode.isTrue d.value) ∧
      (¬Normalizable .rules o.strictMode.isTrue d.value →
        ∃ fault, (({ options := o } : Pipeline).load (.str t)).result = .error (.record fault) ∧
          IsSchemaError fault) := by
  have htext : ∀ entry ∈ Schema.rules.table, ∀ field ∈ entry.2, field.text?.isSome = true := by
    decide
  have hdecoded : IsDecoded (fun _ => True) d.value :=
    isDecoded_of_decode _ t d.value (by simp) (decode_spelled o t d ht hwithin)
  obtain ⟨hiff, hfails⟩ :=
    load_isOk_iff_normalizable .rules htext o.strictMode.isTrue d.value hdecoded
  rw [load_spelled o t d ht hwithin, ← hiff]
  constructor
  · simp only [ok_of_loading_bind, result_mapFault, result_pure]
    constructor
    · rintro ⟨w, tree, htree, -⟩
      exact ⟨tree, htree⟩
    · rintro ⟨tree, htree⟩
      exact ⟨_, tree, htree, rfl⟩
  · intro hnot
    rw [hiff] at hnot
    obtain ⟨fault, hfault, hschema⟩ := hfails hnot
    refine ⟨fault, ?_, hschema⟩
    change (Loading.bind _ _).result = _
    unfold Loading.bind Loading.mapFault
    rw [hfault]
    rfl

end Texts

/-- No escape in a text stands for half of a surrogate pair. -/
def HasNoHalves (text : List Char) : Prop := ∀ t ∈ scan text, t.2 ≠ .halved

/-- A text without halves of surrogate pairs is read only if it spells a document, and a document is
read unless an integer in it is too long. If an object that is converted has two names that differ in
their spelling only, loading fails with an error of the schema. Members with the very same name leave no
trace: the text loads as the document that is left when only the last of them are kept, and fails only
if that one does. -/
theorem load_of_spells (o : Options) (t : String) :
    (HasNoHalves t.toList → (∃ v, o.jsonCodec.decode (.str t) = .ok v) → ∃ d, Spells t.toList d) ∧
      ∀ d, Spells t.toList d →
        ((∃ v, o.jsonCodec.decode (.str t) = .ok v) ↔ d.IsWithin o.jsonCodec.digits) ∧
        (d.IsWithin o.jsonCodec.digits →
          (∀ members, Converts .rules d (.object members) → SharesName members →
            ∃ fault, (({ options := o } : Pipeline).load (.str t)).result = .error (.record fault) ∧
              IsSchemaError fault) ∧
          HasDistinctNames d.kept ∧
          ({ options := o } : Pipeline).load (.str t) =
            (do
              let tree ← ({ options := o } : Pipeline).normalize d.kept.value
              pure tree.unsplat) ∧
          ((∃ w, (({ options := o } : Pipeline).load (.str t)).result = .ok w) ↔
            Normalizable .rules o.strictMode.isTrue d.kept.value)) := by
  constructor
  · rintro - ⟨v, hv⟩
    obtain ⟨d, hd, -⟩ := (decode_iff_spells o.jsonCodec t v).mp hv
    exact ⟨d, hd⟩
  intro d ht
  refine ⟨⟨?_, fun hwithin => ⟨d.value, decode_spelled o t d ht hwithin⟩⟩, fun hwithin =>
    ⟨?_, hasDistinctNames_kept d, ?_, ?_⟩⟩
  · -- A text spells one list of tokens, so the document that was read has the integers of this one.
    rintro ⟨v, hv⟩
    obtain ⟨d', ht', hwithin, -⟩ := (decode_iff_spells o.jsonCodec t v).mp hv
    exact fun n hn => hwithin n (ht'.2 ▸ ht.2 ▸ hn)
  · intro members hpart hshares
    apply (load_spelled_isOk_iff o t d ht hwithin).2
    intro hnorm
    exact not_normalizable_of_sharesName members hshares (normalizable_of_converts d _ hpart hnorm)
  · rw [value_kept]
    exact load_spelled o t d ht hwithin
  · rw [value_kept]
    exact (load_spelled_isOk_iff o t d ht hwithin).1

/-! ## A predicate with two names -/

/-- A predicate with two members `name`. -/
def twoNames : String :=
  "\x7b\"type\": \"predicate\", \"name\": \"a\", \"name\": \"b\", \"args\": []\x7d"

def twoNamesMembers : List (String × Document) :=
  [("type", .string "predicate"), ("name", .string "a"), ("name", .string "b"), ("args", .list [])]

lemma spells_twoNames : Spells twoNames.toList (.object twoNamesMembers) := by
  refine ⟨by decide +kernel, ?_⟩
  rfl

lemma isWithin_twoNames (limit : Option Nat) : (object twoNamesMembers).IsWithin limit := by
  intro n hn
  simp [twoNamesMembers, tokens, memberToken, separated] at hn

/-- The second name is taken, and nothing is said of the first. -/
theorem load_twoNames :
    Spells twoNames.toList (.object twoNamesMembers) ∧
      Converts .rules (.object twoNamesMembers) (.object twoNamesMembers) ∧
      ({} : Pipeline).load (.str twoNames) =
        pure (.node (.str "predicate") (.tuple [.str "b", .list []])) := by
  refine ⟨spells_twoNames, .self _, ?_⟩
  rw [load_spelled {} twoNames _ spells_twoNames (isWithin_twoNames _), value_object]
  rfl

/-- A negation of a predicate with two spellings of a name. -/
def twoSpellings : String :=
  "\x7b\"type\": \"negation\", \"rule\": \x7b\"type\": \"predicate\", \"name\": \"a\", " ++
    "\" NAME\": \"b\", \"args\": []\x7d\x7d"

def twoSpellingsMembers : List (String × Document) :=
  [("type", .string "predicate"), ("name", .string "a"), (" NAME", .string "b"), ("args", .list [])]

def twoSpellingsOuter : List (String × Document) :=
  [("type", .string "negation"), ("rule", .object twoSpellingsMembers)]

/-- The object with both spellings stands in a field, so it is converted and refused. -/
theorem load_of_spells_twoSpellings :
    Spells twoSpellings.toList (.object twoSpellingsOuter) ∧
      Converts .rules (.object twoSpellingsOuter) (.object twoSpellingsMembers) ∧
      SharesName twoSpellingsMembers ∧
      ∃ fault, (({} : Pipeline).load (.str twoSpellings)).result = .error (.record fault) ∧
        IsSchemaError fault := by
  have hspells : Spells twoSpellings.toList (.object twoSpellingsOuter) := by
    refine ⟨by decide +kernel, ?_⟩
    rfl
  have hfield : HasField .rules twoSpellingsOuter (.str "rule") (.object twoSpellingsMembers) :=
    ⟨⟨("type", .string "negation"), List.mem_cons_self, rfl, [.str "rule"], rfl,
      List.mem_cons_self⟩,
      ⟨("rule", .object twoSpellingsMembers), List.mem_cons_of_mem _ List.mem_cons_self, rfl,
        by decide +kernel, rfl⟩⟩
  have hconverts : Converts .rules (.object twoSpellingsOuter) (.object twoSpellingsMembers) :=
    .field _ _ _ _ hfield (by simp [Value.text?]) (.self _)
  have hshares : SharesName twoSpellingsMembers :=
    ⟨("name", .string "a"), by simp [twoSpellingsMembers], (" NAME", .string "b"),
      by simp [twoSpellingsMembers], by decide, by decide +kernel⟩
  have hwithin : (object twoSpellingsOuter).IsWithin ({} : Options).jsonCodec.digits := by
    intro n hn
    simp [twoSpellingsOuter, twoSpellingsMembers, tokens, memberToken, separated] at hn
  obtain ⟨-, hload⟩ := (load_of_spells {} twoSpellings).2 _ hspells
  exact ⟨hspells, hconverts, hshares, (hload hwithin).1 _ hconverts hshares⟩

end Rulebook.Proofs
