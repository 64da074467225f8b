import Mathlib
import Rulebook.Proofs.Record.WellFormed

/-!
# Records and back

Under every schema whose fields can stand side by side, a well-formed tree and its record determine
each other: the record of the tree loads as the tree.
-/

namespace Rulebook.Proofs
open Record

mutual

/-- Whether loading leaves a value as it is: no list or tuple in it holds a mapping or the text for
no value. What is inside a node does not matter. -/
def isSettled : Value → Bool
  | .dict _ => false
  | .list items => areSettled items
  | .tuple items => areSettled items
  | v => v.text? != some undefinedText

/-- Whether loading leaves all values as they are. -/
def areSettled : List Value → Bool
  | [] => true
  | item :: rest => isSettled item && areSettled rest

end

mutual

lemma load_settled (S : Schema) (strict : Bool) (v : Value) (h : isSettled v = true) :
    load S strict v = pure v := by
  match v with
  | .list items =>
    have hall := all_load_settled S strict items h
    rw [load_list, hall]
    rfl
  | .tuple items =>
    have hall := all_load_settled S strict items h
    rw [load_tuple, hall]
    rfl
  | .dict entries => simp [isSettled] at h
  | .str s =>
    rw [load_scalar S strict _ (by simp) (by simp) (by simp), if_neg]
    simpa [isSettled] using h
  | .member value =>
    rw [load_scalar S strict _ (by simp) (by simp) (by simp), if_neg]
    simpa [isSettled] using h
  | .null | .bool _ | .int _ | .float _ | .bytes _ | .set _ | .timestamp _ | .undefined | .node .. |
    .rule _ | .brokenRule _ | .constant _ | .inert => rfl

lemma all_load_settled (S : Schema) (strict : Bool) (items : List Value)
    (h : areSettled items = true) : Loading.all (items.map (load S strict)) = pure items := by
  match items with
  | [] => rfl
  | item :: rest =>
    rw [areSettled, Bool.and_eq_true] at h
    rw [List.map_cons, Loading.all, load_settled S strict item h.1, all_load_settled S strict rest h.2]
    rfl

end

/-- An operand that a record holds as it is: it exports no tree, and loading leaves it alone. -/
def IsCopied (v : Value) : Prop := v.exportsTree = false ∧ isSettled v = true

lemma isDict_of_ofNode (S : Schema) (v record : Value) (h : ofNode S v = .ok record) :
    ∃ entries, record = .dict entries := by
  obtain ⟨tag, payload, -, h⟩ := ofPair_of_ofNode S v record h
  unfold ofPair at h
  split at h
  · cases h
  · obtain ⟨parts, -, h⟩ := ok_of_bind h
    obtain ⟨entries, -, h⟩ := ok_of_bind h
    exact ⟨entries, (Except.ok.inj h).symm⟩

/-- A record is loaded in the same way whether it may be something else or not. -/
lemma toNode_of_ofNode (S : Schema) (strict : Bool) (v record : Value)
    (h : ofNode S v = .ok record) (hload : load S strict record = pure v) (hv : v.isNode = true) :
    toNode S strict record = pure v := by
  obtain ⟨entries, rfl⟩ := isDict_of_ofNode S v record h
  have hne : entries ≠ [] := by
    rintro rfl
    rw [load_nil] at hload
    obtain rfl := Except.ok.inj (congrArg Loading.result hload)
    cases hv
  rw [load_dict S strict entries hne] at hload
  have hentries : (loaded S strict (.dict entries)).entries =
      entries.map fun e => (e.1, loaded S strict e.2) := Part.ofEntries_eq_map _ entries
  unfold toNode
  rw [hentries, if_pos (show (Value.dict entries).isDict = true from rfl), hload]

lemma comesBack_of_isCopied {S : Schema} (htypes : ∀ t ∈ S.types, (Value.str t).name = t)
    (hfields : ∀ entry ∈ S.table, AreFieldNames entry.2) (strict : Bool) (n : Value)
    (h : WellFormed S (fun _ => True) IsCopied .tree n) :
    ComesBack S strict id (fun _ => True) .tree n :=
  comesBack_of_wellFormed carriesRecords_id htypes hfields (fun _ _ => ⟨trivial, rfl⟩)
    (fun v hv => ⟨hv.1, trivial, load_settled S strict v hv.2⟩) .tree n h

/-- Every well-formed tree comes back from its record unchanged and without a warning. -/
theorem toNode_ofNode (table : Entries) (S : Schema) (hS : Schema.ofTable? table = some S)
    (hfields : ∀ entry ∈ S.table, AreFieldNames entry.2) (strict : Bool) (n : Value)
    (h : WellFormed S (fun _ => True) IsCopied .tree n) :
    ∃ record, ofNode S n = .ok record ∧ toNode S strict record = pure n := by
  have hcomes := comesBack_of_isCopied (name_of_mem_types table S hS) hfields strict n h
  obtain ⟨hnode, record, hrecord, -, hload⟩ := hcomes
  exact ⟨record, hrecord, toNode_of_ofNode S strict n record hrecord hload hnode⟩

/-- A schema with one type of two fields, of which one holds a list with a node inside. -/
theorem toNode_ofNode_pair :
    ∃ record,
      ofNode ⟨[("pair", [.str "left", .str "right"])]⟩
        (.node (.str "pair") (.tuple [.list [.node .null .undefined], .tuple []])) = .ok record ∧
      toNode ⟨[("pair", [.str "left", .str "right"])]⟩ true record =
        pure (.node (.str "pair") (.tuple [.list [.node .null .undefined], .tuple []])) := by
  have hpair : (Value.str "pair").name = "pair" := by decide +kernel
  have hleft : (Value.str "left").name = "left" := by decide +kernel
  have hright : (Value.str "right").name = "right" := by decide +kernel
  have hfields : AreFieldNames [.str "left", .str "right"] := by
    refine ⟨?_, ?_, ?_⟩ <;> simp [hleft, hright, Value.text?]
  have hS : Schema.ofTable? [(.str " Pair", .tuple [.str "left", .str "right"])] =
      some ⟨[("pair", [.str "left", .str "right"])]⟩ := rfl
  apply toNode_ofNode _ _ hS
  · simpa using hfields
  · apply WellFormed.several "pair" [.str "left", .str "right"]
    · simp [Schema.types]
    · simp [Schema.fields?, hpair]
    · simp
    · rfl
    · have hcopied (name : Value) (hname : name = .str "left" ∨ name = .str "right") (v : Value)
          (hv : IsCopied v) : WellFormed ⟨[("pair", [.str "left", .str "right"])]⟩ (fun _ => True)
            IsCopied (.field name) v := by
        rcases hname with rfl | rfl <;>
          exact .other _ _ (by simp [Value.text?]) (by simp [Value.text?]) (by simp [Value.text?])
            (.plain v hv)
      intro p hp
      simp only [List.zip_cons_cons, List.zip_nil_left, List.mem_cons, List.not_mem_nil, or_false]
        at hp
      rcases hp with rfl | rfl
      · exact hcopied _ (.inl rfl) _ ⟨rfl, rfl⟩
      · exact hcopied _ (.inr rfl) _ ⟨rfl, rfl⟩

end Rulebook.Proofs
