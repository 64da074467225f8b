import Mathlib
import Rulebook.Yaml.Data
import Rulebook.Yaml.Meaning
import Rulebook.Proofs.Yaml.LineBreaks
import Rulebook.Proofs.Yaml.Parsing

/-!
# What written values are read as

The writer and the reader at hand: a value is written as a node, the node is read without faults, and
the value that is read has the texts of the node, but for the next lines between apostrophes.
-/

namespace Rulebook.Proofs
open Yaml

/-- What a written text is read as. -/
def readText (s : String) : String := String.ofList (readBack .str s.toList)

/-! ## Meanings -/

lemma flatten_joinLevels (as bs : List (List Yaml.Fault)) (has : as.flatten = [])
    (hbs : bs.flatten = []) : (Meaning.joinLevels as bs).flatten = [] := by
  induction as generalizing bs with
  | nil => rwa [Meaning.joinLevels]
  | cons a as ih =>
    cases bs with
    | nil => exact has
    | cons b bs =>
      rw [List.flatten_cons, List.append_eq_nil_iff] at has hbs
      rw [Meaning.joinLevels, List.flatten_cons, has.1, hbs.1, ih bs has.2 hbs.2]
      rfl

lemma flatten_allLevels (levels : List (List (List Yaml.Fault))) (h : ∀ l ∈ levels, l.flatten = []) :
    (Meaning.allLevels levels).flatten = [] := by
  induction levels with
  | nil => rfl
  | cons l levels ih =>
    rw [List.forall_mem_cons] at h
    exact flatten_joinLevels l _ h.1 (ih h.2)

lemma meanings_eq_map (items : List Node) :
    meanings items = items.map fun item => (item.meaning, onlyEntry? item) := by
  induction items with
  | nil => rfl
  | cons item rest ih => rw [meanings, ih, List.map_cons]

lemma entryMeanings_eq_map (entries : List (Node × Node)) :
    entryMeanings entries = entries.map fun e => ⟨e.1.tag, e.1.meaning, e.2.meaning⟩ := by
  induction entries with
  | nil => rfl
  | cons e rest ih => rw [entryMeanings, ih, List.map_cons]

/-- A node that is read without faults, as a value. -/
def Means (n : Node) (v : Value) : Prop := n.meaning.faults.flatten = [] ∧ n.meaning.value = v

lemma value_of_means (n : Node) (v : Value) (h : Means n v) : n.value = .ok v := by
  unfold Node.value
  dsimp only
  rw [h.1, h.2]

lemma means_sequence {α : Type} (items : List α) (node : α → Node) (value : α → Value)
    (h : ∀ item ∈ items, Means (node item) (value item)) :
    Means (.sequence .sequence (items.map node)) (.list (items.map value)) := by
  have hmeaning : (Node.sequence .sequence (items.map node)).meaning =
      .ofSequence .sequence (items.map fun item => ((node item).meaning, onlyEntry? (node item))) := by
    rw [Node.meaning, meanings_eq_map, List.map_map]
    rfl
  unfold Means
  rw [hmeaning]
  unfold Meaning.ofSequence
  dsimp only [Meaning.faults, Meaning.value]
  rw [List.map_map, List.map_map, List.flatten_cons, List.nil_append]
  refine ⟨flatten_allLevels _ (List.forall_mem_map.mpr fun item hitem => (h item hitem).1), ?_⟩
  exact congrArg Value.list (List.map_congr_left fun item hitem => (h item hitem).2)

/-- A mapping whose keys are texts has the values of its entries. -/
lemma means_mapping {α : Type} (entries : List α) (key : α → List Char) (node : α → Node)
    (value : α → Value) (h : ∀ e ∈ entries, Means (node e) (value e)) :
    Means (.mapping .mapping (entries.map fun e => (.scalar .str (key e), node e)))
      (.dict (Entries.ofPairs (entries.map fun e => (.str (String.ofList (key e)), value e)))) := by
  have hflat : Meaning.flattened
      (entryMeanings (entries.map fun e => (.scalar .str (key e), node e))) =
        some (entries.map fun e => (.ofScalar .str (key e), (node e).meaning)) := by
    have hmerge : (entryMeanings (entries.map fun e => (.scalar .str (key e), node e))).filter
        (·.tag = .merge) = [] := by
      simp [entryMeanings_eq_map, Node.tag]
    have hown : (entryMeanings (entries.map fun e => (.scalar .str (key e), node e))).filter
        (·.tag ≠ .merge) = entryMeanings (entries.map fun e => (.scalar .str (key e), node e)) := by
      simp [entryMeanings_eq_map, Node.tag]
    unfold Meaning.flattened
    rw [hmerge, hown, entryMeanings_eq_map, List.map_map, List.map_map]
    rfl
  unfold Means
  rw [Node.meaning]
  unfold Meaning.ofMapping
  dsimp only [Meaning.faults, Meaning.value]
  rw [hflat]
  dsimp only [Option.elim, Meaning.collected]
  rw [List.map_map, List.map_map, List.flatten_cons, List.nil_append]
  refine ⟨flatten_allLevels _ (List.forall_mem_map.mpr fun e he => ?_), ?_⟩
  · have hvalue : (node e).meaning.faults.flatten = [] := (h e he).1
    refine flatten_allLevels _ (List.forall_mem_cons.mpr ⟨rfl, ?_⟩)
    exact List.forall_mem_cons.mpr ⟨rfl, List.forall_mem_singleton.mpr hvalue⟩
  · refine congrArg (fun pairs => Value.dict (Entries.ofPairs pairs))
      (List.map_congr_left fun e he => ?_)
    exact Prod.ext rfl (h e he).2

/-! ## Single values -/

/-- A value is written as a node, from which another one is read, text by text. -/
structure IsReadAs (sorted : Bool) (v : Value) (node : Node) (w : Value) : Prop where
  node_eq : valueNode? sorted v = some node
  isWritten : IsWritten node
  means : Means (reread node) w
  isReadWith : IsReadWith readText v w

section Values

variable (sorted : Bool)

/-- A scalar whose form suggests its tag is read as it is. -/
lemma isReadAs_scalar (v : Value) (tag : Tag) (cs : List Char)
    (hnode : valueNode? sorted v = some (.scalar tag cs)) (hne : cs ≠ []) (htag : resolve cs = tag)
    (hallowed : allowsPlain cs = true) (hmeans : Means (.scalar tag cs) v)
    (hback : IsReadWith readText v v) : IsReadAs sorted v (.scalar tag cs) v where
  node_eq := hnode
  isWritten := .scalar tag cs (.inr ⟨hne, htag, hallowed⟩)
  means := by
    have hstyle : styleOf tag cs = .plain := if_pos ⟨htag, hallowed⟩
    rwa [reread, readBack, if_neg (by rw [hstyle]; decide)]
  isReadWith := hback

lemma isReadAs_null : ∃ node w, IsReadAs sorted .null node w :=
  ⟨_, _, isReadAs_scalar sorted .null .null "null".toList rfl (by decide) (by decide) (by decide)
    ⟨rfl, rfl⟩ .null⟩

lemma isReadAs_bool (b : Bool) : ∃ node w, IsReadAs sorted (.bool b) node w := by
  refine ⟨_, _, isReadAs_scalar sorted (.bool b) .bool
    (if b then "true".toList else "false".toList) rfl ?_ ?_ ?_ ?_ (.bool b)⟩
  · cases b <;> decide
  · cases b <;> decide
  · cases b <;> decide
  · cases b <;> exact ⟨rfl, rfl⟩

lemma isReadAs_int (n : Int) : ∃ node w, IsReadAs sorted (.int n) node w := by
  have hne : integerText n ≠ [] := by
    obtain ⟨sign, d, ds, htext, -⟩ := integerText_cases n
    simp [htext]
  have hmeans : Means (.scalar .int (integerText n)) (.int n) := by
    unfold Means
    rw [Node.meaning]
    unfold Meaning.ofScalar
    rw [if_neg (by decide), scalarValue, integerOf_integerText n]
    exact ⟨rfl, rfl⟩
  exact ⟨_, _, isReadAs_scalar sorted (.int n) .int (integerText n) rfl hne (resolve_integerText n)
    (allowsPlain_integerText n) hmeans (.int n)⟩

lemma isReadAs_str (s : String) :
    IsReadAs sorted (.str s) (.scalar .str s.toList) (.str (readText s)) where
  node_eq := rfl
  isWritten := .scalar .str s.toList (.inl rfl)
  means := by
    rw [reread]
    exact ⟨rfl, rfl⟩
  isReadWith := .str s

/-! ## Collections -/

instance : Nonempty Node := ⟨.empty⟩

lemma valueNodes?_of_forall (sorted : Bool) (items : List Value) (node : Value → Node)
    (h : ∀ item ∈ items, valueNode? sorted item = some (node item)) :
    valueNodes? sorted items = some (items.map node) := by
  induction items with
  | nil => rfl
  | cons item rest ih =>
    rw [List.forall_mem_cons] at h
    rw [valueNodes?, h.1, ih h.2]
    rfl

lemma rereadItems_eq_map (items : List Node) : rereadItems items = items.map reread := by
  induction items with
  | nil => rfl
  | cons item rest ih => rw [rereadItems, ih, List.map_cons]

/-- A list is read as the list of what its items are read as. -/
lemma isReadAs_list (items : List Value) (h : ∀ item ∈ items, ∃ node w, IsReadAs sorted item node w) :
    ∃ node w, IsReadAs sorted (.list items) node w := by
  choose! node value h using h
  refine ⟨.sequence .sequence (items.map node), .list (items.map value), ?_, ?_, ?_, ?_⟩
  · rw [valueNode?,
      valueNodes?_of_forall sorted items node fun item hitem => (h item hitem).node_eq]
    rfl
  · exact .sequence _ (List.forall_mem_map.mpr fun item hitem => (h item hitem).isWritten)
  · rw [reread, rereadItems_eq_map, List.map_map]
    exact means_sequence items (reread ∘ node) value fun item hitem => (h item hitem).means
  · refine .list items _ (List.length_map _) fun p hp => ?_
    have hzip : items.zip (items.map value) = items.map fun item => (item, value item) := by
      conv_lhs => rw [← List.map_id items, List.map_map]
      exact List.zip_map'
    rw [hzip] at hp
    obtain ⟨item, hitem, rfl⟩ := List.mem_map.mp hp
    exact (h item hitem).isReadWith

lemma entryNodes_eq_map (sorted : Bool) (entries : Entries) :
    entryNodes sorted entries = entries.map fun e => (e.1, valueNode? sorted e.2) := by
  induction entries with
  | nil => rfl
  | cons e rest ih => rw [entryNodes, ih, List.map_cons]

lemma rereadEntries_eq_map (entries : List (Node × Node)) :
    rereadEntries entries = entries.map fun e => (reread e.1, reread e.2) := by
  induction entries with
  | nil => rfl
  | cons e rest ih => rw [rereadEntries, ih, List.map_cons]

/-- The entries of a mapping are written in some order. -/
lemma orderEntries_map {α : Type} (sorted : Bool) (members : List (String × Value)) (f : Value → α) :
    ∃ members' : List (String × Value), members'.Perm members ∧
      orderEntries sorted (members.map fun m => (Value.str m.1, f m.2)) =
        members'.map fun m => (.str m.1, f m.2) := by
  unfold orderEntries
  split
  · rw [sortBy_map]
    cases hsort : sortBy (fun a b : String × Value => Value.before (.str a.1) (.str b.1)) members with
    | ok members' => exact ⟨members', sortBy_perm _ _ _ hsort, rfl⟩
    | error => exact ⟨members, .refl _, rfl⟩
  · exact ⟨members, .refl _, rfl⟩

lemma mapM_map_some {α β γ : Type} (f : β → Option γ) (g : α → β) (h : α → γ) (as : List α)
    (hf : ∀ a ∈ as, f (g a) = some (h a)) : (as.map g).mapM f = some (as.map h) := by
  induction as with
  | nil => rfl
  | cons a rest ih =>
    rw [List.forall_mem_cons] at hf
    rw [List.map_cons, List.mapM_cons, ih hf.2, hf.1]
    rfl

lemma valueNode?_dict (sorted : Bool) (members : List (String × Value)) (node : String × Value → Node)
    (h : ∀ m ∈ members, valueNode? sorted m.2 = some (node m)) :
    ∃ members' : List (String × Value), members'.Perm members ∧
      valueNode? sorted (.dict (members.map fun m => (.str m.1, m.2))) =
        some (.mapping .mapping (members'.map fun m => (.scalar .str m.1.toList, node m))) := by
  obtain ⟨members', hperm, hordered⟩ := orderEntries_map sorted members (valueNode? sorted)
  refine ⟨members', hperm, ?_⟩
  have hentries : entryNodes sorted (members.map fun m => (.str m.1, m.2)) =
      members.map fun m => (.str m.1, valueNode? sorted m.2) := by
    rw [entryNodes_eq_map, List.map_map]
    rfl
  rw [valueNode?, hentries]
  dsimp only
  rw [hordered, mapM_map_some _ _ (fun m => (.scalar .str m.1.toList, node m)) members' fun m hm => ?_]
  · rfl
  · rw [h m (hperm.subset hm)]
    rfl

/-- A mapping is read as the mapping of its members. -/
lemma isReadAs_dict (members : List (String × Value)) (hkeys : ∀ m ∈ members, IsFindable m.1.toList)
    (h : ∀ m ∈ members, ∃ node w, IsReadAs sorted m.2 node w) :
    ∃ node w, IsReadAs sorted (.dict (members.map fun m => (.str m.1, m.2))) node w := by
  choose! node value h using h
  obtain ⟨written, hperm, hnode⟩ := valueNode?_dict sorted members node fun m hm => (h m hm).node_eq
  refine ⟨_, _, hnode, .mapping _ ?_ ?_, ?_,
    .dict members written value hperm fun m hm => (h m hm).isReadWith⟩
  · rw [List.forall_mem_map]
    exact fun m hm => ⟨m.1.toList, rfl, hkeys m (hperm.subset hm)⟩
  · rw [List.forall_mem_map]
    exact fun m hm => (h m (hperm.subset hm)).isWritten
  · rw [reread, rereadEntries_eq_map, List.map_map]
    exact means_mapping written (fun m => readBack .str m.1.toList) (fun m => reread (node m)) value
      fun m hm => (h m (hperm.subset hm)).means

/-- Every plain value is written and read back, text by text. -/
theorem exists_isReadAs (v : Value) (hv : IsDecoded (fun _ => False) v)
    (hkeys : ∀ s, Occurs (.str s) v → IsFindable s.toList) :
    ∃ node w, IsReadAs sorted v node w := by
  induction hv with
  | null => exact isReadAs_null sorted
  | bool b => exact isReadAs_bool sorted b
  | int n => exact isReadAs_int sorted n
  | float x hx => exact hx.elim
  | str s => exact ⟨_, _, isReadAs_str sorted s⟩
  | list items _ ih =>
    refine isReadAs_list sorted items fun item hitem => ih item hitem fun s hs => ?_
    exact hkeys s (occurs_list _ items item hitem hs)
  | dict entries hnames _ _ ih =>
    obtain ⟨members, rfl⟩ := exists_members entries hnames
    rw [occurs_members_iff] at hkeys
    refine isReadAs_dict sorted members (fun m hm => (hkeys m hm).1) fun m hm => ?_
    exact ih _ (List.mem_map_of_mem hm) (hkeys m hm).2

end Values

end Rulebook.Proofs
