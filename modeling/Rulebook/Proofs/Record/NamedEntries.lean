import Mathlib
import Rulebook.Proofs.Record.Grammar

/-!
# Records with known values

Fields that are added to a record one after another end up under their names, also when one is named
twice. Where it is known which value belongs to which name, such a record loads field by field.
-/

namespace Rulebook.Proofs
open Record

/-! ## Names of fields -/

lemma name_of_text? (v : Value) (s : String) (h : v.text? = some s) :
    v.name = (Value.str s).name := by
  unfold Value.text? at h
  split at h
  · obtain rfl := Option.some.inj h
    rfl
  · obtain rfl := Option.some.inj h
    rfl
  · cases h

/-- A field that a record has an entry for is spelled as its name, which is not the one of the type
entry. -/
lemma name_of_isEntry (entries : Entries) (field value : Value) (h : IsEntry entries field value) :
    field.text? = some field.name ∧ field.name ≠ "type" := by
  obtain ⟨name, hname, htype, hmem⟩ := h
  obtain ⟨e, -, heq⟩ := List.mem_map.mp hmem
  obtain ⟨rfl, -⟩ := Prod.mk.inj heq
  have hcanonical : field.name = e.1.name := by
    rw [name_of_text? field _ hname, name_str_name]
  rw [hcanonical]
  exact ⟨hname, htype⟩

section Records

variable {S : Schema} {strict : Bool}

/-- Entries that hold, under distinct names, what is known to belong to each name. -/
structure IsNamed (value : String → Value) (entries : Entries) : Prop where
  text : ∀ e ∈ entries, e.1.text? = some e.1.name
  value : ∀ e ∈ entries, e.2 = value e.1.name
  nodup : (entries.map fun e => e.1.name).Nodup

lemma insert_of_present (record : Entries) (key value : Value)
    (h : ∃ e ∈ record, e.1.equal key = true)
    (hvalue : ∀ e ∈ record, e.1.equal key = true → e.2 = value) :
    record.insert key value = record := by
  induction record with
  | nil => simp at h
  | cons e rest ih =>
    obtain ⟨key', value'⟩ := e
    rw [Entries.insert]
    split
    · next heq => rw [← hvalue _ List.mem_cons_self heq]
    · next hne =>
      rw [List.forall_mem_cons] at hvalue
      obtain ⟨e, he, heq⟩ := h
      rcases List.mem_cons.mp he with rfl | he
      · exact absurd heq hne
      · rw [ih ⟨e, he, heq⟩ hvalue.2]

/-- Writing the value of a name into named entries adds the name, if it is not there. -/
lemma isNamed_insert (value : String → Value) (record : Entries) (field : Value)
    (hfield : field.text? = some field.name) (h : IsNamed value record) :
    IsNamed value (record.insert field (value field.name)) ∧
      ∀ name, name ∈ (record.insert field (value field.name)).map (fun e => e.1.name) ↔
        name ∈ record.map (fun e => e.1.name) ∨ name = field.name := by
  have hequal (e : Value × Value) (he : e ∈ record) :
      e.1.equal field = true ↔ e.1.name = field.name := by
    rw [equal_of_text? e.1 field _ (h.text e he), hfield, beq_iff_eq, Option.some.injEq, eq_comm]
  by_cases hpresent : field.name ∈ record.map fun e => e.1.name
  · obtain ⟨e, he, hname⟩ := List.mem_map.mp hpresent
    rw [insert_of_present record field _ ⟨e, he, (hequal e he).mpr hname⟩]
    · refine ⟨h, fun name => (or_iff_left_of_imp ?_).symm⟩
      rintro rfl
      exact hpresent
    · intro e he heq
      rw [h.value e he, (hequal e he).mp heq]
  · rw [insert_of_fresh]
    · refine ⟨⟨?_, ?_, ?_⟩, by simp⟩
      · rw [List.forall_mem_append, List.forall_mem_singleton]
        exact ⟨h.text, hfield⟩
      · rw [List.forall_mem_append, List.forall_mem_singleton]
        exact ⟨h.value, rfl⟩
      · rw [List.map_append, List.nodup_append]
        refine ⟨h.nodup, List.nodup_singleton _, ?_⟩
        rintro a ha b hb rfl
        rw [List.mem_singleton.mp hb] at ha
        exact hpresent ha
    · intro e he
      rw [Bool.eq_false_iff]
      intro heq
      exact hpresent (List.mem_map.mpr ⟨e, he, (hequal e he).mp heq⟩)

/-- Fields that are spelled as their names are added by their names, also one that is named twice. -/
lemma addFields_named (type : String) (value : String → Value) (fields : List Value)
    (parts : List Built) (record : Entries)
    (hfields : ∀ field ∈ fields, field.text? = some field.name)
    (hlength : parts.length = fields.length)
    (hvalue : ∀ p ∈ fields.zip parts, fieldValue type p.1 p.2 = .ok (value p.1.name))
    (h : IsNamed value record) :
    ∃ record', addFields type (fields.zip parts) record = .ok record' ∧ IsNamed value record' ∧
      ∀ name, name ∈ record'.map (fun e => e.1.name) ↔
        name ∈ record.map (fun e => e.1.name) ∨ name ∈ fields.map Value.name := by
  induction fields generalizing parts record with
  | nil => exact ⟨record, rfl, h, by simp⟩
  | cons field fields ih =>
    cases parts with
    | nil => simp at hlength
    | cons part parts =>
      rw [List.zip_cons_cons, List.forall_mem_cons] at hvalue
      rw [List.forall_mem_cons] at hfields
      obtain ⟨hinsert, hnames⟩ := isNamed_insert value record field hfields.1 h
      obtain ⟨record', hrecord', hnamed, hnames'⟩ :=
        ih parts _ hfields.2 (by simpa using hlength) hvalue.2 hinsert
      refine ⟨record', ?_, hnamed, ?_⟩
      · rw [List.zip_cons_cons, addFields, hvalue.1, ok_bind,
          if_pos (isKey_of_text? field _ hfields.1)]
        exact hrecord'
      · intro name
        rw [hnames', hnames, List.map_cons, List.mem_cons, or_assoc]

/-- The values of a record by their names: the type, and the values of its fields. -/
def recordValue (t : String) (value : String → Value) : String → Value :=
  Function.update value "type" (.str t)

lemma recordValue_field (t : String) (value : String → Value) (name : String) (h : name ≠ "type") :
    recordValue t value name = value name :=
  Function.update_of_ne h ..

lemma recordValue_type (t : String) (value : String → Value) :
    recordValue t value "type" = .str t :=
  Function.update_self ..

/-- Fields that a record can have: texts in canonical spelling, none of them the name of the type
entry. -/
def AreEntryNames (fields : List Value) : Prop :=
  ∀ field ∈ fields, field.text? = some field.name ∧ field.name ≠ "type"

/-- A record of a type and of its fields, with the values that belong to the names of the fields. -/
structure HoldsFields (t : String) (fields : List Value) (value : String → Value)
    (record : Entries) : Prop where
  named : IsNamed (recordValue t value) record
  mem : ∀ name, name ∈ record.map (fun e => e.1.name) ↔ name = "type" ∨ name ∈ fields.map Value.name

/-- The record of a node whose parts are known. -/
lemma ofNode_named (t : String) (ht : (Value.str t).name = t) (fields : List Value)
    (node : Value) (parts : List Built) (value : String → Value)
    (hfields : S.fields? (.str t) = some fields) (hnames : AreEntryNames fields)
    (hparts : fieldParts t fields (built S node) = .ok parts)
    (hvalue : ∀ p ∈ fields.zip parts, fieldValue t p.1 p.2 = .ok (value p.1.name)) :
    ∃ record, ofNode S (.node (.str t) node) = .ok (.dict record) ∧
      HoldsFields t fields value record := by
  have hstart : IsNamed (recordValue t value) [(.str "type", .str t)] := by
    constructor <;> simp [name_type, recordValue_type, Value.text?]
  have hvalues : ∀ p ∈ fields.zip parts,
      fieldValue t p.1 p.2 = .ok (recordValue t value p.1.name) := by
    intro p hp
    rw [recordValue_field t value _ (hnames p.1 (List.of_mem_zip hp).1).2]
    exact hvalue p hp
  obtain ⟨record, hrecord, hnamed, hmem⟩ := addFields_named t _ fields parts _
    (fun field hfield => (hnames field hfield).1) (length_fieldParts S t fields node parts hparts)
    hvalues hstart
  refine ⟨record, ?_, hnamed, by simpa [name_type] using hmem⟩
  change ofPair S (.str t) (built S node) = _
  unfold ofPair
  rw [hfields]
  dsimp only
  rw [ht, hparts, ok_bind, hrecord]
  rfl

section Held

variable {t : String} {fields : List Value} {value : String → Value} {record : Entries}

lemma mem_held (h : HoldsFields t fields value record) (name : String) (x : Value) :
    (name, x) ∈ record.map (fun e => (e.1.name, e.2)) ↔
      (name = "type" ∨ name ∈ fields.map Value.name) ∧ x = recordValue t value name := by
  rw [← h.mem]
  simp only [List.mem_map, Prod.mk.injEq]
  constructor
  · rintro ⟨e, he, rfl, rfl⟩
    exact ⟨⟨e, he, rfl⟩, h.named.value e he⟩
  · rintro ⟨⟨e, he, rfl⟩, rfl⟩
    exact ⟨e, he, rfl, h.named.value e he⟩

lemma ne_nil_of_held (h : HoldsFields t fields value record) : record ≠ [] := by
  rintro rfl
  exact absurd ((h.mem "type").mpr (.inl rfl)) List.not_mem_nil

lemma isEntry_held (h : HoldsFields t fields value record) (hnames : AreEntryNames fields)
    (field : Value) (hfield : field ∈ fields) (x : Value) :
    IsEntry record field x ↔ x = value field.name := by
  obtain ⟨htext, htype⟩ := hnames field hfield
  have hmem := List.mem_map_of_mem (f := Value.name) hfield
  constructor
  · rintro ⟨name, hname, -, hx⟩
    obtain rfl := Option.some.inj (htext.symm.trans hname)
    rw [((mem_held h _ _).mp hx).2, recordValue_field t value _ htype]
  · rintro rfl
    refine ⟨_, htext, htype, (mem_held h _ _).mpr ⟨.inr hmem, ?_⟩⟩
    rw [recordValue_field t value _ htype]

lemma isDeclared_held (h : HoldsFields t fields value record) (hnames : AreEntryNames fields) :
    ∀ e ∈ record, e.1.name = "type" ∨ isDeclared fields e.1.name = true := by
  intro e he
  refine ((h.mem e.1.name).mp (List.mem_map_of_mem he)).imp_right fun hname => ?_
  obtain ⟨field, hfield, hname⟩ := List.mem_map.mp hname
  unfold isDeclared
  rw [List.any_eq_true]
  exact ⟨field, hfield, by rw [(hnames field hfield).1, hname]; exact beq_self_eq_true _⟩

/-- A record of the fields of a type loads as the node of the loaded values of its fields. -/
lemma load_held (h : HoldsFields t fields value record) (ht : (Value.str t).name = t)
    (hfields : S.fields? (.str t) = some fields) (hnames : AreEntryNames fields) (m : Value) :
    (load S strict (.dict record)).result = .ok m ↔
      ∃ ms, m = .node (.str t) (payload ms) ∧
        List.Forall₂ (fun field m =>
          (loadField t field (loaded S strict (value field.name))).result = .ok m) fields ms := by
  have htag : ("type", Value.str t) ∈ record.map fun e => (e.1.name, e.2) :=
    (mem_held h _ _).mpr ⟨.inl rfl, (recordValue_type t value).symm⟩
  have hloads (ms : List Value) :
      List.Forall₂ (fun field m => ∃ raw,
          given? ((loadedEntries S strict record).filter (·.1 != "type")) field = some raw ∧
            (loadField t field raw).result = .ok m) fields ms ↔
        List.Forall₂ (fun field m =>
          (loadField t field (loaded S strict (value field.name))).result = .ok m) fields ms := by
    simp only [given?_eq_some S strict record h.named.nodup]
    constructor
    · refine fun hall => forall₂_imp_mem ?_ hall
      rintro field hfield m ⟨_, ⟨x, hx, rfl⟩, hload⟩
      rwa [(isEntry_held h hnames field hfield x).mp hx] at hload
    · refine fun hall => forall₂_imp_mem ?_ hall
      intro field hfield m hload
      exact ⟨_, ⟨_, (isEntry_held h hnames field hfield _).mpr rfl, rfl⟩, hload⟩
  have hcheck := (checkUndeclared_isOk strict t _).mpr fun _ =>
    (undeclared_eq_nil S strict record fields).mpr (isDeclared_held h hnames)
  rw [load_record_eq S strict record (.str t) fields h.named.nodup htag hfields]
  simp only [ok_of_loading_bind, result_pure, ht, loadFields_ok, hloads]
  constructor
  · rintro ⟨-, -, ms, hms, rfl⟩
    exact ⟨ms, rfl, hms⟩
  · rintro ⟨ms, rfl, hms⟩
    exact ⟨(), hcheck, ms, hms, rfl⟩

end Held

end Records

end Rulebook.Proofs
