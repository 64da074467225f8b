import Mathlib
import Rulebook.Value.Equality

/-!
# Equal values

Lists are equal item by item, and a number other than a NaN is equal to itself. A mapping whose keys
are distinct texts keeps the entries that are written into it.
-/

namespace Rulebook.Proofs

lemma order?_self (x : Binary64) (h : x ≠ .nan) : x.order? x = some .eq := by
  have hcompare (n : Int) : compare n n = .eq := compare_eq_iff_eq.mpr rfl
  cases x with
  | nan => exact absurd rfl h
  | infinite negative => cases negative <;> rfl
  | finite negative rank =>
    unfold Binary64.order?
    dsimp only [Binary64.fraction?]
    rw [hcompare]

lemma number_order?_self (number : Number) (h : number ≠ .float .nan) :
    number.order? number = some .eq := by
  cases number with
  | int n =>
    have hcompare : compare n n = .eq := compare_eq_iff_eq.mpr rfl
    dsimp only [Number.order?]
    rw [hcompare]
  | float x =>
    apply order?_self
    rintro rfl
    exact h rfl

lemma equalNumbers_self (shared : Bool) (v : Value) (number : Number) (h : v.number? = some number)
    (hnan : number ≠ .float .nan) : v.equalNumbers shared v = true := by
  unfold Value.equalNumbers
  rw [h]
  split
  · next heq _ => exact absurd (Option.some.inj heq) hnan
  · next x y _ hx hy =>
    obtain rfl := Option.some.inj hx
    obtain rfl := Option.some.inj hy
    rw [number_order?_self number hnan]
    rfl
  · next hne => exact absurd rfl (hne _ _ rfl)

lemma equal_self_of_number (v : Value) (number : Number) (h : v.number? = some number)
    (hnan : number ≠ .float .nan) : v.equal v = true := by
  unfold Value.equal
  cases v with
  | bool _ | int _ | float _ =>
    rw [Value.alike]
    exact equalNumbers_self false _ number h hnan
  | _ => cases h

lemma alikeItems_iff (shared : Bool) (as bs : List Value) :
    Value.alikeItems shared as bs = true ↔
      List.Forall₂ (fun a b => Value.alike shared a b = true) as bs := by
  induction as generalizing bs with
  | nil => cases bs <;> simp [Value.alikeItems]
  | cons a as ih =>
    cases bs with
    | nil => simp [Value.alikeItems]
    | cons b bs => rw [Value.alikeItems, Bool.and_eq_true, List.forall₂_cons, ih]

lemma equal_list (as bs : List Value) :
    (Value.list as).equal (.list bs) = true ↔
      List.Forall₂ (fun a b => a.equal b = true) as bs := by
  unfold Value.equal
  rw [Value.alike, alikeItems_iff]

lemma equal_list_map (f g : Value → Value) (items : List Value)
    (h : ∀ item ∈ items, (f item).equal (g item) = true) :
    (Value.list (items.map f)).equal (.list (items.map g)) = true := by
  rw [equal_list, List.forall₂_map_left_iff, List.forall₂_map_right_iff, List.forall₂_same]
  exact h

lemma equal_tuple (as bs : List Value) :
    (Value.tuple as).equal (.tuple bs) = true ↔
      List.Forall₂ (fun a b => a.equal b = true) as bs := by
  unfold Value.equal
  rw [Value.alike, ← alikeItems_iff]
  rfl

lemma equal_node (tag payload tag' payload' : Value) :
    (Value.node tag payload).equal (.node tag' payload') = true ↔
      tag.equal tag' = true ∧ payload.equal payload' = true := by
  unfold Value.equal
  rw [Value.alike, ← Bool.and_eq_true]
  rfl

lemma not_equal_list_node (items : List Value) (tag payload : Value) :
    ¬(Value.list items).equal (.node tag payload) = true := by
  unfold Value.equal
  rw [Value.alike]
  · exact Bool.false_ne_true
  all_goals simp

lemma alikeEntries_of_exists (shared : Bool) (entries others : Entries)
    (h : ∀ e ∈ entries, ∃ e' ∈ others,
      Value.alike shared e.1 e'.1 = true ∧ Value.alike shared e.2 e'.2 = true) :
    Value.alikeEntries shared entries others = true := by
  induction entries with
  | nil => rw [Value.alikeEntries]
  | cons e rest ih =>
    rw [List.forall_mem_cons] at h
    obtain ⟨⟨e', he', hkey, hvalue⟩, hrest⟩ := h
    rw [Value.alikeEntries, ih hrest, Bool.and_true, List.any_eq_true]
    exact ⟨e', he', by rw [Bool.and_eq_true]; exact ⟨hkey, hvalue⟩⟩

lemma exists_of_alikeEntries (shared : Bool) (entries others : Entries)
    (h : Value.alikeEntries shared entries others = true) : ∀ e ∈ entries, ∃ e' ∈ others,
      Value.alike shared e.1 e'.1 = true ∧ Value.alike shared e.2 e'.2 = true := by
  induction entries with
  | nil => simp
  | cons e rest ih =>
    rw [Value.alikeEntries, Bool.and_eq_true, List.any_eq_true] at h
    obtain ⟨⟨e', he', hequal⟩, hrest⟩ := h
    rw [List.forall_mem_cons]
    exact ⟨⟨e', he', by simpa using hequal⟩, ih hrest⟩

/-- Mappings of the same size are equal when each entry of one is found in the other. -/
lemma equal_dict (entries others : Entries) (hlength : entries.length = others.length)
    (h : ∀ e ∈ entries, ∃ e' ∈ others, e.1.equal e'.1 = true ∧ e.2.equal e'.2 = true) :
    (Value.dict entries).equal (.dict others) = true := by
  unfold Value.equal
  rw [Value.alike, hlength, beq_self_eq_true, Bool.true_and]
  exact alikeEntries_of_exists false entries others h

/-! ## Entries of mappings -/

lemma equal_of_text? (a b : Value) (s : String) (h : a.text? = some s) :
    a.equal b = (b.text? == some s) := by
  unfold Value.text? at h
  unfold Value.equal
  split at h
  · obtain rfl := Option.some.inj h
    rw [Value.alike]
  · obtain rfl := Option.some.inj h
    rw [Value.alike]
  · cases h

lemma text?_of_equal (w : Value) (s : String) (h : w.equal (.str s) = true) : w.text? = some s := by
  unfold Value.equal at h
  cases w with
  | str s' =>
    rw [Value.alike, beq_iff_eq] at h
    exact h.symm
  | member value =>
    cases value with
    | str s' =>
      rw [Value.alike, beq_iff_eq] at h
      exact h.symm
    | _ => simp [Value.alike] at h
  | _ => simp [Value.alike, Value.tupleItems?, Value.equalNumbers, Value.number?] at h

lemma equal_str_self (s : String) : (Value.str s).equal (.str s) = true := by
  rw [equal_of_text? _ _ s rfl]
  exact beq_self_eq_true _

lemma insert_of_fresh (record : Entries) (key value : Value)
    (h : ∀ e ∈ record, e.1.equal key = false) : record.insert key value = record ++ [(key, value)] := by
  induction record with
  | nil => rfl
  | cons e rest ih =>
    rw [Entries.insert, if_neg, ih fun x hx => h x (List.mem_cons_of_mem _ hx)]
    · rfl
    · rw [h e List.mem_cons_self]
      exact Bool.false_ne_true

lemma mem_insert_any (entries : Entries) (key value : Value) (e : Value × Value)
    (h : e ∈ entries.insert key value) :
    (e.1 = key ∨ ∃ e' ∈ entries, e'.1 = e.1) ∧ (e.2 = value ∨ ∃ e' ∈ entries, e'.2 = e.2) := by
  induction entries with
  | nil =>
    obtain rfl := List.mem_singleton.mp h
    exact ⟨.inl rfl, .inl rfl⟩
  | cons first rest ih =>
    rw [Entries.insert] at h
    split at h
    · rcases List.mem_cons.mp h with rfl | h
      · exact ⟨.inr ⟨first, List.mem_cons_self, rfl⟩, .inl rfl⟩
      · exact ⟨.inr ⟨e, List.mem_cons_of_mem _ h, rfl⟩, .inr ⟨e, List.mem_cons_of_mem _ h, rfl⟩⟩
    · rcases List.mem_cons.mp h with rfl | h
      · exact ⟨.inr ⟨_, List.mem_cons_self, rfl⟩, .inr ⟨_, List.mem_cons_self, rfl⟩⟩
      · obtain ⟨hkey, hvalue⟩ := ih h
        refine ⟨hkey.imp_right ?_, hvalue.imp_right ?_⟩ <;>
        · rintro ⟨e', he', heq⟩
          exact ⟨e', List.mem_cons_of_mem _ he', heq⟩

/-- The keys and the values of the mapping that writes pairs are those of the pairs. -/
lemma exists_of_mem_ofPairs (pairs : Entries) (e : Value × Value) (he : e ∈ Entries.ofPairs pairs) :
    (∃ p ∈ pairs, p.1 = e.1) ∧ ∃ p ∈ pairs, p.2 = e.2 := by
  have hfold (more before : Entries) (hmore : ∀ p ∈ more, p ∈ pairs)
      (hbefore : ∀ e ∈ before, (∃ p ∈ pairs, p.1 = e.1) ∧ ∃ p ∈ pairs, p.2 = e.2) :
      ∀ e ∈ more.foldl (fun entries e => Entries.insert entries e.1 e.2) before,
        (∃ p ∈ pairs, p.1 = e.1) ∧ ∃ p ∈ pairs, p.2 = e.2 := by
    induction more generalizing before with
    | nil => exact hbefore
    | cons p rest ih =>
      rw [List.forall_mem_cons] at hmore
      rw [List.foldl_cons]
      refine ih _ hmore.2 fun e he => ?_
      obtain ⟨hkey, hvalue⟩ := mem_insert_any before p.1 p.2 e he
      constructor
      · rcases hkey with heq | ⟨e', he', heq⟩
        · exact ⟨p, hmore.1, heq.symm⟩
        · exact heq ▸ (hbefore e' he').1
      · rcases hvalue with heq | ⟨e', he', heq⟩
        · exact ⟨p, hmore.1, heq.symm⟩
        · exact heq ▸ (hbefore e' he').2
  exact hfold pairs [] (fun _ h => h) (by simp) e he

/-- The first pair stays where it is if no other key is equal to its key. -/
lemma head?_ofPairs (first : Value × Value) (pairs : Entries)
    (h : ∀ p ∈ pairs, first.1.equal p.1 = false) :
    (Entries.ofPairs (first :: pairs)).head? = some first := by
  have hfold (more rest : Entries) (hmore : ∀ p ∈ more, first.1.equal p.1 = false) :
      (more.foldl (fun entries e => Entries.insert entries e.1 e.2) (first :: rest)).head? =
        some first := by
    induction more generalizing rest with
    | nil => rfl
    | cons p more ih =>
      obtain ⟨hp, hmore⟩ := List.forall_mem_cons.mp hmore
      rw [List.foldl_cons, Entries.insert, if_neg (by simp [hp])]
      exact ih _ hmore
  exact hfold pairs [] h

/-- Pairs with distinct keys are a mapping as they stand. -/
lemma ofPairs_of_pairwise (pairs : Entries) (h : pairs.Pairwise fun a b => a.1.equal b.1 = false) :
    Entries.ofPairs pairs = pairs := by
  have hfold (more before : Entries)
      (h : (before ++ more).Pairwise fun a b => a.1.equal b.1 = false) :
      more.foldl (fun entries e => Entries.insert entries e.1 e.2) before = before ++ more := by
    induction more generalizing before with
    | nil => rw [List.foldl_nil, List.append_nil]
    | cons p rest ih =>
      have hfresh : ∀ e ∈ before, e.1.equal p.1 = false :=
        fun e he => (List.pairwise_append.mp h).2.2 e he p List.mem_cons_self
      rw [List.foldl_cons, insert_of_fresh before p.1 p.2 hfresh, ih _ (by simpa using h),
        List.append_assoc, List.singleton_append]
  exact hfold pairs [] h

lemma ofPairs_of_nodup (pairs : List (String × Value)) (h : (pairs.map Prod.fst).Nodup) :
    Entries.ofPairs (pairs.map fun p => (.str p.1, p.2)) = pairs.map fun p => (.str p.1, p.2) := by
  apply ofPairs_of_pairwise
  rw [List.pairwise_map]
  refine (List.pairwise_map.mp h).imp fun {a b} hne => ?_
  rw [equal_of_text? _ _ a.1 rfl, beq_eq_false_iff_ne]
  exact fun heq => hne (Option.some.inj heq).symm

lemma pairwise_insert (entries : Entries) (key value : Value)
    (h : entries.Pairwise fun a b => a.1.equal b.1 = false) :
    (entries.insert key value).Pairwise fun a b => a.1.equal b.1 = false := by
  induction entries with
  | nil => exact List.pairwise_singleton ..
  | cons first rest ih =>
    obtain ⟨hfirst, hrest⟩ := List.pairwise_cons.mp h
    rw [Entries.insert]
    split
    · exact List.pairwise_cons.mpr ⟨hfirst, hrest⟩
    · next hne =>
      refine List.pairwise_cons.mpr ⟨fun e he => ?_, ih hrest⟩
      obtain ⟨heq | ⟨e', he', heq⟩, -⟩ := mem_insert_any rest key value e he
      · rw [heq]
        simpa using hne
      · rw [← heq]
        exact hfirst e' he'

/-- The mapping that writes pairs one after another has distinct keys. -/
lemma pairwise_ofPairs (pairs : Entries) :
    (Entries.ofPairs pairs).Pairwise fun a b => a.1.equal b.1 = false := by
  have hfold (pairs before : Entries) (hbefore : before.Pairwise fun a b => a.1.equal b.1 = false) :
      (pairs.foldl (fun entries e => Entries.insert entries e.1 e.2) before).Pairwise
        fun a b => a.1.equal b.1 = false := by
    induction pairs generalizing before with
    | nil => exact hbefore
    | cons p rest ih => exact ih _ (pairwise_insert before p.1 p.2 hbefore)
  exact hfold pairs [] .nil

/-- Entries with distinct keys of which each matches a member, by its key at least, can be put in the
order of the members if there are as many. -/
lemma exists_arranged (members : List (String × Value)) (entries : Entries)
    (P : String × Value → Value × Value → Prop) (hkey : ∀ m e, P m e → e.1.equal (.str m.1) = true)
    (hmatch : ∀ e ∈ entries, ∃ m ∈ members, P m e)
    (hdistinct : entries.Pairwise fun a b => a.1.equal b.1 = false)
    (hlength : entries.length = members.length) :
    ∃ arranged, List.Forall₂ P members arranged ∧ arranged.Perm entries := by
  choose! f hf hP using hmatch
  have htext (e : Value × Value) (he : e ∈ entries) : e.1.text? = some (f e).1 :=
    text?_of_equal e.1 _ (hkey _ e (hP e he))
  have hnodup : (entries.map f).Nodup := by
    refine List.pairwise_map.mpr (hdistinct.imp_of_mem ?_)
    intro a b ha hb hne heq
    rw [equal_of_text? a.1 b.1 _ (htext a ha), heq, htext b hb] at hne
    simp at hne
  have hperm : members.Perm (entries.map f) := by
    refine ((hnodup.subperm ?_).perm_of_length_le ?_).symm
    · intro m hm
      obtain ⟨e, he, rfl⟩ := List.mem_map.mp hm
      exact hf e he
    · rw [List.length_map, hlength]
  have hcomp : (Relation.Comp List.Perm (List.Forall₂ P)) members entries := by
    refine ⟨entries.map f, hperm, ?_⟩
    rw [List.forall₂_map_left_iff, List.forall₂_same]
    exact hP
  rw [← List.forall₂_comp_perm_eq_perm_comp_forall₂] at hcomp
  exact hcomp

/-! ## What is equal to a list or to a mapping -/

lemma eq_list_of_equal (m : Value) (items : List Value) (h : m.equal (.list items) = true) :
    ∃ ms, m = .list ms ∧ List.Forall₂ (fun m item => m.equal item = true) ms items := by
  unfold Value.equal at h
  cases m with
  | list ms => exact ⟨ms, rfl, (equal_list ms items).mp h⟩
  | member value =>
    cases value <;> simp [Value.alike, Value.text?] at h
  | _ => simp [Value.alike, Value.text?, Value.tupleItems?, Value.equalNumbers, Value.number?] at h

lemma eq_dict_of_equal (m : Value) (others : Entries) (h : m.equal (.dict others) = true) :
    ∃ entries, m = .dict entries ∧ entries.length = others.length ∧
      ∀ e ∈ entries, ∃ e' ∈ others, e.1.equal e'.1 = true ∧ e.2.equal e'.2 = true := by
  unfold Value.equal at h
  cases m with
  | dict entries =>
    rw [Value.alike, Bool.and_eq_true, beq_iff_eq] at h
    refine ⟨entries, rfl, h.1, exists_of_alikeEntries false entries others h.2⟩
  | member value =>
    cases value <;> simp [Value.alike, Value.text?] at h
  | _ => simp [Value.alike, Value.text?, Value.tupleItems?, Value.equalNumbers, Value.number?] at h

end Rulebook.Proofs
