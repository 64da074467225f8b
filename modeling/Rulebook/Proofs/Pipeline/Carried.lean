import Mathlib
import Rulebook.Pipeline
import Rulebook.Proofs.Record.LoadedForm
import Rulebook.Proofs.Record.WellFormed

/-!
# Records in a text

Records pass through their JSON text: a text keeps their entries under their names, whatever the order
of the entries in it. A pipeline builds, writes, reads and loads with nothing in between.
-/

namespace Rulebook.Proofs
open Record Json

lemma nameText_record (t : String) (fields values : List Value) (hnames : AreFieldNames fields) :
    ∀ e ∈ (Value.str "type", Value.str t) :: fields.zip values, nameText e.1 = e.1.name := by
  intro e he
  apply nameText_of_text?
  rcases List.mem_cons.mp he with rfl | he
  · rw [name_type]
    rfl
  · exact hnames.isName e.1 (List.of_mem_zip he).1

lemma map_record (φ : Value → Value) (t : String) (fields values : List Value)
    (hnames : AreFieldNames fields) (ht : φ (.str t) = .str t) :
    ((Value.str "type", Value.str t) :: fields.zip values).map (fun e => (nameText e.1, φ e.2)) =
      ("type", .str t) :: List.zip (fields.map Value.name) (values.map φ) := by
  have hmap := List.map_congr_left fun e he =>
    congrArg (·, φ e.2) (nameText_record t fields values hnames e he)
  rw [hmap, List.map_cons, name_type, ht, List.zip_map]
  rfl

lemma nodup_record (t : String) (fields values : List Value) (hnames : AreFieldNames fields)
    (hlength : values.length = fields.length) :
    (((Value.str "type", Value.str t) :: fields.zip values).map fun e => nameText e.1).Nodup := by
  have hmap := congrArg (List.map Prod.fst) (map_record id t fields values hnames rfl)
  rw [List.map_map] at hmap
  have hpairs := nodup_named hnames (by rw [List.length_map, hlength])
    (List.Perm.refl (("type", .str t) :: List.zip (fields.map Value.name) (values.map id)))
  rw [← hmap] at hpairs
  exact hpairs

lemma reading_record (layout : Layout) (t : String) (fields values : List Value)
    (hnames : AreFieldNames fields) (hlength : values.length = fields.length) :
    ∃ entries, reading layout (.dict ((.str "type", .str t) :: fields.zip values)) =
        .dict entries ∧
      (entries.map fun e => (e.1.name, e.2)).Perm
        (("type", .str t) :: List.zip (fields.map Value.name) (values.map (reading layout))) := by
  obtain ⟨named, hreading, hnamed, -⟩ :=
    reading_dict layout _ (nodup_record t fields values hnames hlength)
  rw [map_record (reading layout) t fields values hnames rfl] at hnamed
  refine ⟨named.map fun p => (.str p.1, p.2), hreading, ?_⟩
  have hname : ∀ p ∈ named, ((Value.str p.1).name, p.2) = p := by
    intro p hp
    refine Prod.ext ?_ rfl
    rcases List.mem_cons.mp (hnamed.mem_iff.mp hp) with rfl | hzip
    · exact name_type
    · obtain ⟨field, -, heq⟩ := List.mem_map.mp (List.of_mem_zip hzip).1
      rw [← heq]
      exact name_str_name field
  rw [List.map_map]
  refine (List.Perm.of_eq ?_).trans hnamed
  exact (List.map_congr_left hname).trans (List.map_id _)

/-- Records may pass through their text. -/
lemma carriesRecords_reading (layout : Layout) :
    CarriesRecords (reading layout) (IsWritable layout) where
  text _ := rfl
  list items := by rw [reading, readings_eq_map]
  pair a b := rfl
  record := reading_record layout
  passes_list := isWritable_list layout
  passes_pair a b ha hb := by
    apply isWritable_tuple
    intro item hitem
    rcases List.mem_cons.mp hitem with rfl | hitem
    · exact ha
    · obtain rfl := List.mem_singleton.mp hitem
      exact hb
  passes_record t fields values hnames hlength h := by
    apply isWritable_dict
    · intro e he
      rcases List.mem_cons.mp he with rfl | he
      · exact ⟨"type", rfl⟩
      · exact ⟨_, hnames.isName e.1 (List.of_mem_zip he).1⟩
    · intro e he
      rcases List.mem_cons.mp he with rfl | he
      · exact fun depth => ⟨_, rfl⟩
      · exact h e.2 (List.of_mem_zip he).2

/-- Nothing need pass for records to be carried. -/
lemma carriesRecords_any {φ : Value → Value} {passes : Value → Prop}
    (h : CarriesRecords φ passes) : CarriesRecords φ fun _ => True :=
  { h with
    passes_list := fun _ _ => trivial
    passes_pair := fun _ _ _ _ => trivial
    passes_record := fun _ _ _ _ _ _ => trivial }

/-! ## Integers -/

section Integers

variable {S : Schema} {isName isPlain : Value → Prop} {limit : Option Nat}

/-- In a well-formed tree without long integers, no name and no operand has any. -/
lemma wellFormed_of_hasShortIntegers (place : Place) (v : Value)
    (h : WellFormed S isName isPlain place v) (hshort : HasShortIntegers limit v) :
    WellFormed S (fun name => isName name ∧ HasShortIntegers limit name)
      (fun v => isPlain v ∧ HasShortIntegers limit v) place v := by
  induction h with
  | single t field value ht hfields _ hbare ih =>
    rw [hasShortIntegers_node_iff] at hshort
    exact .single t field value ht hfields (ih hshort.2) hbare
  | several t fields values ht hfields hcount hlength _ ih =>
    rw [hasShortIntegers_node_iff, hasShortIntegers_tuple_iff] at hshort
    refine .several t fields values ht hfields hcount hlength fun p hp => ih p hp ?_
    exact hshort.2 p.2 (List.of_mem_zip hp).2
  | rule field value hfield _ ih => exact .rule field value hfield (ih hshort)
  | rules field values hfield _ ih =>
    rw [hasShortIntegers_list_iff] at hshort
    exact .rules field values hfield fun value hvalue => ih value hvalue (hshort value hvalue)
  | args field values hfield _ ih =>
    rw [hasShortIntegers_list_iff] at hshort
    exact .args field values hfield fun value hvalue => ih value hvalue (hshort value hvalue)
  | other field value hrule hrules hargs _ ih =>
    exact .other field value hrule hrules hargs (ih hshort)
  | argument name value hname _ ih =>
    rw [hasShortIntegers_tuple_iff, List.forall_mem_cons, List.forall_mem_singleton] at hshort
    exact .argument name value ⟨hname, hshort.1⟩ (ih hshort.2)
  | nested value _ ih => exact .nested value (ih hshort)
  | plain value hvalue => exact .plain value ⟨hvalue, hshort⟩

lemma hasShortIntegers_unsplat_iff (v : Value) :
    HasShortIntegers limit v.unsplat ↔ HasShortIntegers limit v := by
  unfold Value.unsplat
  split
  · rw [hasShortIntegers_list_iff, List.forall_mem_singleton]
  · rw [hasShortIntegers_tuple_iff, List.forall_mem_singleton]
  · rfl

end Integers

/-! ## Pipelines -/

lemma unsplat_of_isNode (v : Value) (h : v.isNode = true) : v.unsplat = v := by
  unfold Value.isNode at h
  split at h
  · rfl
  · cases h

/-- A value that can stand for one node is written as one record. -/
lemma serialize_nodeLike (p : Pipeline) (v : Value) (h : v.isNodeLike = true) :
    p.serialize v = (ofNode p.schema v).mapError .record := by
  unfold Pipeline.serialize
  dsimp only
  split
  · rw [if_pos h]
  · rfl

lemma serialize_node (p : Pipeline) (n : Value) (h : n.isNode = true) :
    p.serialize n = (ofNode p.schema n).mapError .record := by
  apply serialize_nodeLike
  unfold Value.isNodeLike
  rw [exportsTree_of_isNode n h]
  rfl

/-- A list of values that export trees stands for none itself. -/
lemma serialize_trees (p : Pipeline) (vs : List Value) (h : ∀ v ∈ vs, v.exportsTree = true) :
    p.serialize (.list vs) = ((vs.mapM (ofNode p.schema)).map .list).mapError .record := by
  have hlike : (Value.list vs).isNodeLike = false := by
    unfold Value.isNodeLike
    split
    · next tag payload heq =>
      obtain rfl := Option.some.inj heq
      have htag := h tag List.mem_cons_self
      cases tag <;> first | rfl | cases htag
    · rfl
  unfold Pipeline.serialize
  dsimp only [Value.items?]
  rw [hlike]
  rfl

lemma serialize_list (p : Pipeline) (ns : List Value) (h : ∀ n ∈ ns, n.isNode = true) :
    p.serialize (.list ns) = ((ns.mapM (ofNode p.schema)).map .list).mapError .record :=
  serialize_trees p ns fun n hn => exportsTree_of_isNode n (h n hn)

lemma result_mapFault {ε ε' α : Type} (f : ε → ε') (x : Loading ε α) (a : α) :
    (x.mapFault f).result = .ok a ↔ x.result = .ok a :=
  ok_of_mapError

variable (o : Options)

/-- What has been decoded is loaded, and a list of one is its item. -/
lemma load_of_decode (text v : Value) (h : o.jsonCodec.decode text = .ok v) :
    ({ options := o } : Pipeline).load text =
      (do
        let tree ← (Record.load .rules o.strictMode.isTrue v).mapFault .record
        pure tree.unsplat) := by
  unfold Pipeline.load
  dsimp only [Json.Codec.textCodec]
  rw [h]
  rfl

/-- What loads has been decoded before. -/
lemma decode_of_load (text w : Value)
    (h : (({ options := o } : Pipeline).load text).result = .ok w) :
    ∃ v tree, o.jsonCodec.decode text = .ok v ∧
      (Record.load .rules o.strictMode.isTrue v).result = .ok tree ∧ tree.unsplat = w := by
  unfold Pipeline.load Pipeline.normalize at h
  simp only [ok_of_loading_bind, result_mapFault, result_pure] at h
  obtain ⟨v, hdecode, tree, htree, _, hcompile, rfl⟩ := h
  obtain rfl := Except.ok.inj hcompile
  exact ⟨v, tree, ok_of_mapError.mp hdecode, htree, rfl⟩

/-- What loads has no integer that is too long to be read. -/
lemma hasShortIntegers_of_pipeline (text w : Value)
    (h : (({ options := o } : Pipeline).load text).result = .ok w) :
    HasShortIntegers o.jsonCodec.digits w := by
  obtain ⟨v, tree, hdecode, htree, rfl⟩ := decode_of_load o text w h
  obtain ⟨cs, hread, -⟩ := read_of_decode o.jsonCodec text v hdecode
  rw [hasShortIntegers_unsplat_iff]
  exact hasShortIntegers_of_load v tree (isDecoded_of_read _ cs v (fun _ _ _ _ => trivial) hread)
    (hasShortIntegers_of_decode o.jsonCodec text v hdecode) htree

lemma dump_of_serialize (v records : Value) (text : String)
    (hrecords : ({ options := o } : Pipeline).serialize v = .ok records)
    (htext : o.jsonCodec.encode records = .ok text) :
    ({ options := o } : Pipeline).dump v = .ok text := by
  unfold Pipeline.dump
  rw [hrecords, ok_bind]
  exact ok_of_mapError.mpr htext

section Layouts

variable (indent : Option (List Char)) (hindent : o.jsonCodec.indentation = .ok indent)
  (hlayout : IsBlankLayout (o.jsonCodec.layout indent))

include hindent hlayout

/-- The text of records decodes to what the layout makes of them. -/
lemma decode_of_dump (v records : Value) (text : String)
    (hrecords : ({ options := o } : Pipeline).serialize v = .ok records)
    (hdump : ({ options := o } : Pipeline).dump v = .ok text) :
    o.jsonCodec.decode (.str text) = .ok (reading (o.jsonCodec.layout indent) records) := by
  have hencode : o.jsonCodec.encode records = .ok text := by
    unfold Pipeline.dump at hdump
    rw [hrecords, ok_bind] at hdump
    exact ok_of_mapError.mp hdump
  exact decode_encode o.jsonCodec indent records text hindent hlayout hencode

/-- The text of records loads as what the layout makes of them does. -/
lemma load_of_dump (v records : Value) (text : String)
    (hrecords : ({ options := o } : Pipeline).serialize v = .ok records)
    (hdump : ({ options := o } : Pipeline).dump v = .ok text) :
    ({ options := o } : Pipeline).load (.str text) =
      (do
        let tree ← (Record.load .rules o.strictMode.isTrue
          (reading (o.jsonCodec.layout indent) records)).mapFault .record
        pure tree.unsplat) :=
  load_of_decode o _ _ (decode_of_dump o indent hindent hlayout v records text hrecords hdump)

lemma load_of_serialize (v records : Value)
    (hrecords : ({ options := o } : Pipeline).serialize v = .ok records)
    (hwritable : IsWritable (o.jsonCodec.layout indent) records) :
    ∃ text, ({ options := o } : Pipeline).dump v = .ok text ∧
      ({ options := o } : Pipeline).load (.str text) =
        (do
          let tree ← (Record.load .rules o.strictMode.isTrue
            (reading (o.jsonCodec.layout indent) records)).mapFault .record
          pure tree.unsplat) := by
  obtain ⟨text, htext⟩ := encode_isOk o.jsonCodec indent records hindent hwritable
  have hdump := dump_of_serialize o v records text hrecords htext
  exact ⟨text, hdump, load_of_dump o indent hindent hlayout v records text hrecords hdump⟩

end Layouts

end Rulebook.Proofs
