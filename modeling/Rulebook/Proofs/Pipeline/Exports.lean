import Mathlib
import Rulebook.Compiler
import Rulebook.Proofs.Pipeline.Resave
import Rulebook.Proofs.Record.Acceptance
import Rulebook.Proofs.Record.StandIns

/-!
# Rule objects

A rule object hands out a node, or the pair of its tag and its payload. Wherever it stands in place of
that node the record is the same, so that a compiler which wraps the loaded nodes changes no text.
-/

namespace Rulebook.Proofs
open Record Json

/-- A rule object whose tree is a pair of a tag and a payload, as a node or as a bare sequence. -/
def IsExporting (tag payload w : Value) : Prop :=
  ∃ tree, w = .rule tree ∧ tree.items? = some [tag, payload]

lemma ofNode_of_isExporting (S : Schema) (tag payload w : Value) (h : IsExporting tag payload w) :
    ofNode S w = ofNode S (.node tag payload) ∧ w.isNodeLike = true := by
  obtain ⟨tree, rfl, htree⟩ := h
  refine ⟨?_, rfl⟩
  rw [ofNode_parts S (.rule tree) tag payload htree, ofNode_pair S (.node tag payload) tag payload rfl]

/-- The record does not tell rule objects from the nodes that they export. -/
lemma ofNode_of_exporting (n w : Value) (h : StandsFor .rules IsExporting .tree n w) :
    ofNode .rules w = ofNode .rules n :=
  (buildAlike_of_standsFor (ofNode_of_isExporting .rules) single_rules .tree n w h).1

/-! ## Compilers -/

/-- A node and a rule object for it, maybe with rule objects for nodes inside. -/
structure Wraps (n w : Value) : Prop where
  node : n.isNode = true
  object : ∃ tree, w = .rule tree
  standsFor : StandsFor .rules IsExporting .tree n w

/-- A compiler turns a node, or each node of a list, into a rule object. -/
structure WrapsTree (compile : Compiler) (tree : Value) : Prop where
  node : tree.isNode = true → ∃ w, compile tree = .ok w ∧ Wraps tree w
  list : ∀ ns, tree = .list ns → (∀ n ∈ ns, n.isNode = true) →
    ∃ ws, compile tree = .ok (.list ws) ∧ List.Forall₂ Wraps ns ws

/-- What a compiler that wraps nodes leaves of a tree. -/
inductive WrapsAll : Value → Value → Prop
  | node (n w : Value) : Wraps n w → WrapsAll n w
  | list (ns ws : List Value) : List.Forall₂ Wraps ns ws → WrapsAll (.list ns) (.list ws)

lemma wrapsTree_rules (tree : Value) : WrapsTree Compiler.rules tree := by
  have hwraps (n : Value) (h : n.isNode = true) : Wraps n (.rule n) := by
    obtain ⟨tag, payload, rfl⟩ : ∃ tag payload, n = .node tag payload := by
      cases n <;> first | exact ⟨_, _, rfl⟩ | cases h
    exact ⟨h, ⟨_, rfl⟩, .form tag payload payload _ (.same _ _) ⟨_, rfl, rfl⟩⟩
  constructor
  · intro h
    refine ⟨.rule tree, ?_, hwraps tree h⟩
    cases tree <;> first | rfl | cases h
  · rintro ns rfl h
    refine ⟨ns.map .rule, rfl, ?_⟩
    rw [List.forall₂_map_right_iff, List.forall₂_same]
    exact fun n hn => hwraps n (h n hn)

lemma wrapsAll_unsplat (tree rules : Value) (h : WrapsAll tree rules) :
    WrapsAll tree.unsplat rules.unsplat := by
  cases h with
  | node n w hw =>
    obtain ⟨t, rfl⟩ := hw.object
    rw [unsplat_of_isNode tree hw.node]
    exact .node _ _ hw
  | list ns ws hws =>
    cases hws with
    | nil => exact .list [] [] .nil
    | cons hw hrest =>
      cases hrest with
      | nil => exact .node _ _ hw
      | cons hw' hrest => exact .list _ _ (.cons hw (.cons hw' hrest))

lemma serialize_of_wrapsAll (p : Pipeline) (hp : p.schema = .rules) (n w : Value)
    (h : WrapsAll n w) : p.serialize w = p.serialize n := by
  cases h with
  | node _ _ hw =>
    obtain ⟨t, rfl⟩ := hw.object
    rw [serialize_node p n hw.node, hp, ← ofNode_of_exporting n _ hw.standsFor, ← hp]
    rfl
  | list ns ws hws =>
    have hnodes : ∀ n ∈ ns, n.isNode = true := by
      have h : List.Forall₂ (fun n _ => n.isNode = true) ns ws := hws.imp fun _ _ hw => hw.node
      exact forall_right_of_forall₂ (fun _ _ _ h => h) h.flip
    have hobjects : ∀ w ∈ ws, w.exportsTree = true := by
      refine forall_right_of_forall₂ (fun n _ w hw => ?_) hws
      obtain ⟨t, rfl⟩ := hw.object
      rfl
    have hrecords : ws.mapM (ofNode .rules) = ns.mapM (ofNode .rules) :=
      mapM_congr_forall₂ _ _ _ (hws.imp fun n w hw => ofNode_of_exporting n w hw.standsFor)
    rw [serialize_trees p ws hobjects, serialize_list p ns hnodes, hp, hrecords]

/-! ## Texts of records -/

/-- Whether a value is a record that is not empty, or a list of such records. -/
def holdsRecords : Value → Bool
  | .list items => items.all isFilledDict
  | v => isFilledDict v

lemma isNode_of_filledDict (strict : Bool) (v tree : Value) (h : isFilledDict v = true)
    (htree : (Record.load .rules strict v).result = .ok tree) : tree.isNode = true := by
  obtain ⟨entries, rfl, hne⟩ : ∃ entries, v = .dict entries ∧ entries ≠ [] := by
    unfold isFilledDict at h
    split at h
    · exact ⟨_, rfl, List.cons_ne_nil _ _⟩
    · cases h
  obtain ⟨t, payload, rfl⟩ := isNode_of_load_record .rules strict entries hne tree htree
  rfl

lemma trees_of_holdsRecords (strict : Bool) (v tree : Value) (h : holdsRecords v = true)
    (htree : (Record.load .rules strict v).result = .ok tree) :
    tree.isNode = true ∨ ∃ ns, tree = .list ns ∧ ∀ n ∈ ns, n.isNode = true := by
  unfold holdsRecords at h
  split at h
  · next items =>
    obtain ⟨ns, hns, rfl⟩ := (load_list_ok .rules strict items tree).mp htree
    refine .inr ⟨ns, rfl, forall_right_of_forall₂ (fun item hitem n hn => ?_) hns⟩
    exact isNode_of_filledDict strict item n (List.all_eq_true.mp h item hitem) hn
  · exact .inl (isNode_of_filledDict strict v tree h htree)

lemma trees_unsplat (tree : Value)
    (h : tree.isNode = true ∨ ∃ ns, tree = .list ns ∧ ∀ n ∈ ns, n.isNode = true) :
    tree.unsplat.isNode = true ∨ ∃ ns, tree.unsplat = .list ns ∧ ∀ n ∈ ns, n.isNode = true := by
  rcases h with hnode | ⟨ns, rfl, hns⟩
  · rw [unsplat_of_isNode tree hnode]
    exact .inl hnode
  · match ns with
    | [n] => exact .inl (hns n List.mem_cons_self)
    | [] => exact .inr ⟨[], rfl, hns⟩
    | n :: m :: rest => exact .inr ⟨_, unsplat_of_two_le _ (by simp), hns⟩

/-- What a compiler wraps is loaded from the text of records, and has the text of the nodes. -/
lemma dump_of_wrapsTree (o : Options) (compile : Compiler) (text v n : Value)
    (hdecode : o.jsonCodec.decode text = .ok v) (hv : holdsRecords v = true)
    (hload : (({ options := o } : Pipeline).load text).result = .ok n)
    (hcompile : ∀ tree, (Record.load .rules o.strictMode.isTrue v).result = .ok tree →
      WrapsTree compile tree) :
    ∃ w, (({ options := o, compile := compile } : Pipeline).load text).result = .ok w ∧
      ({ options := o, compile := compile } : Pipeline).dump w =
        ({ options := o } : Pipeline).dump n := by
  obtain ⟨v', tree, hdecode', htree, rfl⟩ := decode_of_load o text n hload
  obtain rfl := Except.ok.inj (hdecode.symm.trans hdecode')
  obtain ⟨rules, hrules, hwraps⟩ : ∃ rules, compile tree = .ok rules ∧ WrapsAll tree rules := by
    rcases trees_of_holdsRecords o.strictMode.isTrue v tree hv htree with hnode | ⟨ns, rfl, hns⟩
    · obtain ⟨w, hw, hwraps⟩ := (hcompile tree htree).node hnode
      exact ⟨w, hw, .node tree w hwraps⟩
    · obtain ⟨ws, hws, hwraps⟩ := (hcompile _ htree).list ns rfl hns
      exact ⟨_, hws, .list ns ws hwraps⟩
  refine ⟨rules.unsplat, ?_, ?_⟩
  · unfold Pipeline.load
    dsimp only [Json.Codec.textCodec]
    rw [hdecode]
    simp only [ok_of_loading_bind, result_pure]
    refine ⟨v, rfl, tree, ?_, rules, ?_, rfl⟩
    · exact (result_mapFault _ _ _).mpr htree
    · rw [hrules]
      rfl
  · have hserialize := serialize_of_wrapsAll { options := o, compile := compile } rfl _ _
      (wrapsAll_unsplat tree rules hwraps)
    unfold Pipeline.dump
    rw [hserialize]
    rfl

/-- What has been loaded from the text of records is written again. -/
lemma dump_of_load (o : Options) (ho : IsIndentation o.indent) (text v n : Value)
    (hdecode : o.jsonCodec.decode text = .ok v) (hv : holdsRecords v = true)
    (hload : (({ options := o } : Pipeline).load text).result = .ok n) :
    ∃ saved, ({ options := o } : Pipeline).dump n = .ok saved := by
  obtain ⟨v', tree, hdecode', htree, rfl⟩ := decode_of_load o text n hload
  obtain rfl := Except.ok.inj (hdecode.symm.trans hdecode')
  obtain ⟨indent, hindent, -⟩ := indentation_of_isCount o.jsonCodec (isCount_of_isIndentation _ ho)
  have hdecoded : IsDecoded (fun _ => True) v := by
    obtain ⟨cs, hread, -⟩ := read_of_decode o.jsonCodec text v hdecode
    exact isDecoded_of_read _ cs v (fun _ _ _ _ => trivial) hread
  have hform := loadedForm_of_load v tree hdecoded htree
  have hshort := hasShortIntegers_of_pipeline o text _ hload
  have hresaves (n : Value) (h : LoadedForm .rules (fun _ => True) .tree n)
      (hshort : HasShortIntegers o.jsonCodec.digits n) :
      Resaves .rules o.strictMode.isTrue (o.jsonCodec.layout indent) (fun _ => True) .tree n :=
    resaves_of_loadedForm types_rules areFieldNames_rules single_rules .tree n h hshort
  have hserialize : ∃ records, ({ options := o } : Pipeline).serialize tree.unsplat = .ok records ∧
      IsWritable (o.jsonCodec.layout indent) records := by
    have htrees := trees_of_holdsRecords o.strictMode.isTrue v tree hv htree
    have hform := loadedForm_unsplat tree hform
    rcases trees_unsplat tree htrees with hnode | ⟨ns, hlist, hns⟩
    · obtain ⟨record, hrecord, hwritable, -⟩ := hresaves _ (tree_of_isNode _ hform hnode) hshort
      exact ⟨record, by rw [serialize_node _ _ hnode, hrecord]; rfl, hwritable⟩
    · rw [hlist] at hform hshort ⊢
      rw [hasShortIntegers_list_iff] at hshort
      have hforms : ∀ n ∈ ns, LoadedForm .rules (fun _ => True) .tree n := by
        intro n hn
        cases hform with
        | nested _ htree => cases htree
        | list _ hall => exact tree_of_isNode n (hall n hn) (hns n hn)
        | scalar _ _ _ hnot => exact absurd rfl (hnot ns)
      obtain ⟨records, hrecords, hwritable, -⟩ :=
        resaves_trees ns fun n hn => hresaves n (hforms n hn) (hshort n hn)
      exact ⟨.list records, by rw [serialize_list _ ns hns, hrecords]; rfl,
        isWritable_list _ records hwritable⟩
  obtain ⟨records, hrecords, hwritable⟩ := hserialize
  obtain ⟨saved, hsaved⟩ := encode_isOk o.jsonCodec indent records hindent hwritable
  exact ⟨saved, dump_of_serialize o _ records saved hrecords hsaved⟩

/-- Rule objects in place of nodes have the records of the nodes, and a compiler that wraps the nodes
of a text of records keeps what is loaded from it loading and the text that is written. -/
theorem dump_of_exporting :
    (∀ n w, StandsFor .rules IsExporting .tree n w → ofNode .rules w = ofNode .rules n) ∧
    ∀ (o : Options) (compile : Compiler) (text v n : Value), o.jsonCodec.decode text = .ok v →
      holdsRecords v = true → (({ options := o } : Pipeline).load text).result = .ok n →
      (∀ tree, (Record.load .rules o.strictMode.isTrue v).result = .ok tree →
        WrapsTree compile tree) →
      ∃ w, (({ options := o, compile := compile } : Pipeline).load text).result = .ok w ∧
        ({ options := o, compile := compile } : Pipeline).dump w =
          ({ options := o } : Pipeline).dump n ∧
        (IsIndentation o.indent → ∃ saved, ({ options := o } : Pipeline).dump n = .ok saved) := by
  refine ⟨ofNode_of_exporting, ?_⟩
  intro o compile text v n hdecode hv hload hcompile
  obtain ⟨w, hw, hdump⟩ := dump_of_wrapsTree o compile text v n hdecode hv hload hcompile
  exact ⟨w, hw, hdump, fun ho => dump_of_load o ho text v n hdecode hv hload⟩

/-- Two records in a list, one of them with a record inside. -/
def negatedSets : String :=
  "[\x7b\"type\":\"negation\",\"rule\":\x7b\"type\":\"set\",\"rules\":[]\x7d\x7d,\x7b\"type\":\"set\",\"rules\":[]\x7d]"

def emptySet : Value := .node (.str "set") (.list [])

/-- A rule object for the pair of a negation with a rule object inside, and the rule objects for the
records of a text. -/
theorem dump_of_exporting_negation :
    ofNode .rules (.rule (.tuple [.str "negation", .rule emptySet])) =
      ofNode .rules (.node (.str "negation") emptySet) ∧
    ∃ n w saved, (({} : Pipeline).load (.str negatedSets)).result = .ok n ∧
      (({ compile := Compiler.rules } : Pipeline).load (.str negatedSets)).result = .ok w ∧
      ({} : Pipeline).dump n = .ok saved ∧
      ({ compile := Compiler.rules } : Pipeline).dump w = .ok saved := by
  have hfields := fields?_rules_str "negation" [.str "rule"] (by decide) rfl
  have hinner : StandsFor .rules IsExporting .tree emptySet (.rule emptySet) :=
    .form _ _ _ _ (.same _ _) ⟨emptySet, rfl, rfl⟩
  have houter : StandsFor .rules IsExporting .tree (.node (.str "negation") emptySet)
      (.node (.str "negation") (.rule emptySet)) :=
    .single _ _ _ _ hfields (.rule _ _ _ rfl hinner)
  have hwrapped : StandsFor .rules IsExporting .tree (.node (.str "negation") emptySet)
      (.rule (.tuple [.str "negation", .rule emptySet])) :=
    .form _ _ _ _ houter ⟨_, rfl, rfl⟩
  refine ⟨dump_of_exporting.1 _ _ hwrapped, ?_⟩
  have hrun :
      ((({} : Options).jsonCodec.decode (.str negatedSets)).toOption.map holdsRecords) = some true := by
    decide +kernel
  obtain ⟨v, hdecode, hv⟩ := Option.map_eq_some_iff.mp hrun
  obtain ⟨n, hn⟩ : ∃ n, (({} : Pipeline).load (.str negatedSets)).result = .ok n :=
    ok_of_isOk (by decide +kernel)
  obtain ⟨w, hw, hdump, hsaved⟩ := dump_of_exporting.2 {} Compiler.rules (.str negatedSets) v n
    (ok_of_toOption hdecode) hv hn fun tree _ => wrapsTree_rules tree
  obtain ⟨saved, hsaved⟩ := hsaved (.inl rfl)
  exact ⟨n, w, saved, hn, hw, hsaved, hdump.trans hsaved⟩

end Rulebook.Proofs
