import Mathlib
import Rulebook.Proofs.Pipeline.RoundTrip
import Rulebook.Proofs.Yaml.Keys

/-!
# Moving trees between codecs

Trees come back through every codec that keeps what records say. The JSON codec does so, and a YAML
codec wherever it brings a plain value back.
-/

namespace Rulebook.Proofs
open Record Json

lemma equal_of_isScalar (v : Value) (hscalar : isScalar v = true) (hnan : v ≠ .float .nan) :
    v.equal v = true := by
  cases v with
  | null =>
    unfold Value.equal
    rw [Value.alike]
  | bool b => exact equal_self_of_number (.bool b) _ rfl (by simp)
  | int n => exact equal_self_of_number (.int n) _ rfl (by simp)
  | float x => exact equal_self_of_number (.float x) _ rfl (by simpa using hnan)
  | str s => exact equal_str_self s
  | _ => cases hscalar

/-- What a JSON text says of a value is what a faithful codec may read. -/
lemma readsAs_reading (layout : Layout) (v : Value) (h : IsRecordData v) :
    ReadsAs v (reading layout v) := by
  induction h with
  | undefined =>
    rw [reading]
    split
    · exact .emptyObject
    · exact .text _ (equal_str_self _)
  | scalar v hscalar hnan =>
    have hreading : reading layout v = v := by cases v <;> first | rfl | cases hscalar
    rw [hreading]
    exact .scalar v v hscalar (equal_of_isScalar v hscalar hnan)
  | list items _ ih =>
    rw [reading, readings_eq_map]
    refine .list items _ ?_
    rw [List.forall₂_map_right_iff, List.forall₂_same]
    exact ih
  | tuple items _ ih =>
    rw [reading, readings_eq_map]
    refine .listed items _ ?_
    rw [List.forall₂_map_right_iff, List.forall₂_same]
    exact ih
  | dict members hnodup _ ih =>
    obtain ⟨named, hreading, hnamed, -⟩ :=
      reading_dict layout _ (nodup_nameText members hnodup)
    rw [hreading]
    refine .dict _ (members.map fun m => (.str m.1, reading layout m.2)) _ ?_ ?_ ?_
    · rw [List.forall₂_map_left_iff, List.forall₂_map_right_iff, List.forall₂_same]
      exact fun m _ => equal_str_self m.1
    · rw [List.forall₂_map_left_iff, List.forall₂_map_right_iff, List.forall₂_same]
      exact ih
    · have hperm := (hnamed.map fun p => (Value.str p.1, p.2)).symm
      rw [List.map_map, List.map_map] at hperm
      refine (List.Perm.of_eq (List.map_congr_left fun m _ => ?_)).trans hperm
      exact Prod.ext (congrArg Value.str (nameText_of_text? (.str m.1) m.1 rfl).symm) rfl

/-- The JSON codec keeps what records say if it knows no limit on digits, whatever its other settings
are. -/
lemma isFaithful_json (c : Codec) (hindent : IsIndentation c.indent) (hdigits : c.digits = none) :
    IsFaithful c.textCodec := by
  intro v hv
  obtain ⟨indent, hindent, hlayout⟩ :=
    indentation_of_isCount c (isCount_of_isIndentation _ hindent)
  have hshort : HasShortIntegers (c.layout indent).digits v := by
    change HasShortIntegers c.digits v
    rw [hdigits]
    exact hasShortIntegers_none v
  have hwritable :=
    isWritable_of_isJsonData (c.layout indent) v (isJsonData_of_isRecordData v hv) hshort
  obtain ⟨text, htext⟩ := encode_isOk c indent v hindent hwritable
  have hdecode := decode_encode c indent v text hindent hlayout htext
  refine ⟨text, _, ?_, ?_, readsAs_reading (c.layout indent) v hv⟩
  · dsimp only [Codec.textCodec]
    rw [htext]
    rfl
  · dsimp only [Codec.textCodec]
    rw [hdecode]
    rfl

/-- Through a codec that keeps what records say, trees come back as equal ones, and lists of trees as
well, where a list of one is its item, whatever the options of the pipeline are. A YAML codec gives its
library a value without tuples and tokens for no value, and keeps whatever it is given if the library
brings that value back. -/
theorem load_dump_of_isFaithful (o : Options) (C : TextCodec) :
    (IsFaithful C →
      (∀ n, IsRuleTree n → ComesBackThrough o C n n) ∧
        ∀ ns, (∀ n ∈ ns, IsRuleTree n) → ComesBackThrough o C (.list ns) (Value.list ns).unsplat) ∧
      ∀ (lib : Yaml.Library), LoadsKeyed lib → ∀ (c : Yaml.Codec) (v : Value), IsRecordData v →
        (∀ u, Occurs u (c.toPlain v) → u ≠ .undefined ∧ ∀ items, u ≠ .tuple items) ∧
        ((∃ text w, lib.dump c.dumpSettings (c.toPlain v) = .ok text ∧
            lib.load (.str text) = .ok w ∧ w.equal (c.toPlain v) = true) →
          IsFaithfulOn (c.textCodec lib) v) := by
  refine ⟨fun hC => ⟨?_, ?_⟩, fun lib hlib c v hv => ⟨fun u => occurs_toPlain c v u hv, ?_⟩⟩
  · exact fun n hn => comesBackThrough_tree o C n hn fun record _ hdata => hC record hdata
  · exact fun ns hns => comesBackThrough_trees o C ns hns fun records _ hdata => hC _ hdata
  · rintro ⟨text, w, htext, hload, hequal⟩
    exact isFaithfulOn_yaml lib hlib c v hv text w htext hload hequal

/-- Writes the token for no value as an empty object, and integers of any length. -/
def unlimitedCodec : Codec where
  undefinedEncoding := .str "empty_object"
  digits := none

/-- A mapping that holds a tuple and the token for no value. -/
def tupleMapping : Value := .dict [(.str "a: b", .tuple [.int 1, .null]), (.str "", .undefined)]

lemma isRecordData_tupleMapping : IsRecordData tupleMapping := by
  refine .dict [("a: b", .tuple [.int 1, .null]), ("", .undefined)] (by decide) ?_
  rw [List.forall_mem_cons, List.forall_mem_singleton]
  refine ⟨.tuple _ ?_, .undefined⟩
  rw [List.forall_mem_cons, List.forall_mem_singleton]
  exact ⟨.scalar _ rfl (by simp), .scalar _ rfl (by simp)⟩

/-- A predicate with the token for no value in an argument, and the mapping through a library. -/
theorem load_dump_of_isFaithful_predicate :
    ComesBackThrough { strictMode := .bool true } unlimitedCodec.textCodec
        (.node (.str "predicate")
          (.tuple [.str "in?", .list [.tuple [.str "of", .list [.undefined, .str "é"]]]]))
        (.node (.str "predicate")
          (.tuple [.str "in?", .list [.tuple [.str "of", .list [.undefined, .str "é"]]]])) ∧
      ComesBackThrough { strictMode := .bool true } unlimitedCodec.textCodec
        (.list [.node (.str "set") (.list [])]) (.node (.str "set") (.list [])) ∧
      IsFaithfulOn (Yaml.Codec.textCodec { undefinedEncoding := .str "empty_object" } .standard)
        tupleMapping := by
  have hpredicate := fields?_rules_str "predicate" [.str "name", .str "args"] (by decide) rfl
  have hset := fields?_rules_str "set" [.str "rules"] (by decide) rfl
  obtain ⟨htrees, hyaml⟩ :=
    load_dump_of_isFaithful { strictMode := .bool true } unlimitedCodec.textCodec
  obtain ⟨htree, hlist⟩ := htrees (isFaithful_json unlimitedCodec (.inl rfl) rfl)
  refine ⟨htree _ ?_, hlist _ ?_,
    (hyaml .standard loadsKeyed_standard _ _ isRecordData_tupleMapping).2 ?_⟩
  · refine .several _ _ _ (by decide) hpredicate (by simp) rfl ?_
    simp only [List.zip_cons_cons, List.zip_nil_left, List.forall_mem_cons]
    refine ⟨?_, ?_, List.forall_mem_nil _⟩
    · exact .other _ _ (by simp [Value.text?]) (by simp [Value.text?]) (by simp [Value.text?])
        (.plain _ (.scalar _ rfl (by simp) (by simp [undefinedText])))
    · refine .args _ _ rfl (List.forall_mem_singleton.mpr ?_)
      refine .argument _ _ ⟨"of", rfl⟩ (.plain _ (.list _ ?_))
      rw [List.forall_mem_cons, List.forall_mem_singleton]
      exact ⟨.undefined, .scalar _ rfl (by simp) (by simp [undefinedText])⟩
  · rw [List.forall_mem_singleton]
    exact .single _ _ _ (by decide) hset (.rules _ _ rfl (by simp)) (.inr (.inl rfl))
  · refine ⟨_, Exists.imp (fun w h => ⟨rfl, h⟩) (exists_of_any_toOption ?_)⟩
    decide +kernel

end Rulebook.Proofs
