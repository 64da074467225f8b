import Mathlib
import Rulebook.Yaml.Standard
import Rulebook.Proofs.Yaml.Faithful

/-!
# Keys of what has been read

The values that the library at hand reads have distinct keys, whatever is merged and whatever is written
twice.
-/

namespace Rulebook.Proofs
open Yaml

lemma isKeyed_ofPairs (pairs : Entries) (h : ∀ p ∈ pairs, IsKeyed p.2) :
    IsKeyed (.dict (Entries.ofPairs pairs)) := by
  refine .dict _ (pairwise_ofPairs pairs) fun e he => ?_
  obtain ⟨-, p, hp, heq⟩ := exists_of_mem_ofPairs pairs e he
  exact heq ▸ h p hp

lemma isKeyed_null : IsKeyed .null := .other _ (by simp) (by simp)

lemma isKeyed_scalarValue (tag : Tag) (cs : List Char) (v : Value)
    (h : scalarValue tag cs = .ok v) : IsKeyed v := by
  unfold scalarValue at h
  split at h
  · obtain rfl := Except.ok.inj h
    exact isKeyed_null
  · obtain rfl := Except.ok.inj h
    exact .other _ (by simp) (by simp)
  · dsimp only at h
    split at h
    · obtain rfl := Except.ok.inj h
      exact .other _ (by simp) (by simp)
    · split at h
      · obtain rfl := Except.ok.inj h
        exact .other _ (by simp) (by simp)
      · cases h
  · obtain ⟨n, -, rfl⟩ := ok_of_map h
    exact .other _ (by simp) (by simp)
  · obtain ⟨x, -, rfl⟩ := ok_of_map h
    exact .other _ (by simp) (by simp)
  · split at h
    · obtain rfl := Except.ok.inj h
      exact .other _ (by simp) (by simp)
    · cases h
  · split at h
    · obtain ⟨t, -, rfl⟩ := ok_of_map h
      exact .other _ (by simp) (by simp)
    · cases h
  · cases h

lemma isKeyed_immediate (x : Except Yaml.Fault Value) (h : ∀ v, x = .ok v → IsKeyed v) :
    IsKeyed (Meaning.immediate x).1 := by
  cases x with
  | error fault => exact isKeyed_null
  | ok v => exact h v rfl

/-- A meaning whose value has distinct keys, as the values of all its entries have. -/
structure HasKeyedValues (m : Meaning) : Prop where
  value : IsKeyed m.value
  entries : ∀ es, m.entries = some es → ∀ e ∈ es, IsKeyed e.2.value
  merged : ∀ es, m.merged = some es → ∀ e ∈ es, IsKeyed e.2.value

lemma hasKeyedValues_ofScalar (tag : Tag) (cs : List Char) :
    HasKeyedValues (.ofScalar tag cs) := by
  refine ⟨?_, by rintro _ ⟨⟩, by rintro _ ⟨⟩⟩
  change IsKeyed (if _ then Meaning.unusable else Meaning.immediate (scalarValue tag cs)).1
  split
  · exact isKeyed_null
  · exact isKeyed_immediate _ (isKeyed_scalarValue tag cs)

lemma isKeyed_pairs (items : List (Option (Meaning × Meaning))) :
    IsKeyed (Meaning.pairs items).1 := by
  unfold Meaning.pairs
  refine .list _ ?_
  rw [List.forall_mem_map]
  intro pair _
  cases pair with
  | none => exact isKeyed_null
  | some pair => exact .other _ (by simp) (by simp)

lemma hasKeyedValues_ofSequence (tag : Tag) (items : List (Meaning × Option (Meaning × Meaning)))
    (h : ∀ item ∈ items, HasKeyedValues item.1) : HasKeyedValues (.ofSequence tag items) := by
  refine ⟨?_, by rintro _ ⟨⟩, ?_⟩
  · have hlist : IsKeyed (.list (items.map (·.1.value))) := by
      refine .list _ ?_
      rw [List.forall_mem_map]
      exact fun item hitem => (h item hitem).value
    unfold Meaning.ofSequence
    cases tag with
    | sequence => exact hlist
    | ordered | pairs => exact isKeyed_pairs _
    | _ => exact isKeyed_null
  · intro es hes e he
    obtain ⟨groups, hgroups, rfl⟩ := Option.map_eq_some_iff.mp hes
    obtain ⟨group, hgroup, he⟩ := List.mem_flatten.mp he
    obtain ⟨item, hitem, hentries⟩ := exists_of_mem_mapM hgroups group hgroup
    exact (h item (List.mem_reverse.mp hitem)).entries group hentries e he

lemma keyed_flattened (entries : List Meaning.Entry) (h : ∀ e ∈ entries, HasKeyedValues e.value)
    (es : List (Meaning × Meaning)) (hes : Meaning.flattened entries = some es) :
    ∀ e ∈ es, IsKeyed e.2.value := by
  unfold Meaning.flattened at hes
  obtain ⟨merged, hmerged, hes⟩ := Option.bind_eq_some_iff.mp hes
  obtain rfl := Option.some.inj hes
  intro e he
  rcases List.mem_append.mp he with he | he
  · obtain ⟨group, hgroup, he⟩ := List.mem_flatten.mp he
    obtain ⟨entry, hentry, hgroup⟩ := exists_of_mem_mapM hmerged group hgroup
    exact (h entry (List.mem_of_mem_filter hentry)).merged group hgroup e he
  · obtain ⟨entry, hentry, rfl⟩ := List.mem_map.mp he
    exact (h entry (List.mem_of_mem_filter hentry)).value

lemma hasKeyedValues_ofMapping (tag : Tag) (entries : List Meaning.Entry)
    (h : ∀ e ∈ entries, HasKeyedValues e.value) : HasKeyedValues (.ofMapping tag entries) := by
  have hflat := keyed_flattened entries h
  refine ⟨?_, hflat, hflat⟩
  have hdict : IsKeyed ((Meaning.flattened entries).elim Meaning.unusable
      (Meaning.collected .dict)).1 := by
    cases hes : Meaning.flattened entries with
    | none => exact isKeyed_null
    | some es =>
      refine isKeyed_ofPairs _ ?_
      rw [List.forall_mem_map]
      exact fun e he => hflat es hes e he
  have hset : IsKeyed ((Meaning.flattened entries).elim Meaning.unusable
      (Meaning.collected fun es => .set (es.map (·.1)))).1 := by
    cases Meaning.flattened entries with
    | none => exact isKeyed_null
    | some es => exact .other _ (by simp [Meaning.collected]) (by simp [Meaning.collected])
  unfold Meaning.ofMapping
  generalize (entries.find? (·.tag = .value)).bind (·.value.text) = text
  cases tag with
  | mapping => exact hdict
  | set => exact hset
  | ordered | pairs | sequence | timestamp => exact isKeyed_null
  | _ =>
    cases text with
    | some cs =>
      dsimp only
      exact isKeyed_immediate _ (isKeyed_scalarValue _ cs)
    | none => exact isKeyed_null

mutual

lemma hasKeyedValues_meaning (node : Node) : HasKeyedValues node.meaning := by
  match node with
  | .scalar tag cs => exact hasKeyedValues_ofScalar tag cs
  | .sequence tag items => exact hasKeyedValues_ofSequence tag _ (hasKeyedValues_meanings items)
  | .mapping tag entries =>
    exact hasKeyedValues_ofMapping tag _ (hasKeyedValues_entryMeanings entries)

lemma hasKeyedValues_meanings (items : List Node) :
    ∀ item ∈ meanings items, HasKeyedValues item.1 := by
  match items with
  | [] => simp [meanings]
  | item :: rest =>
    rw [meanings, List.forall_mem_cons]
    exact ⟨hasKeyedValues_meaning item, hasKeyedValues_meanings rest⟩

lemma hasKeyedValues_entryMeanings (entries : List (Node × Node)) :
    ∀ e ∈ entryMeanings entries, HasKeyedValues e.value := by
  match entries with
  | [] => simp [entryMeanings]
  | (key, value) :: rest =>
    rw [entryMeanings, List.forall_mem_cons]
    exact ⟨hasKeyedValues_meaning value, hasKeyedValues_entryMeanings rest⟩

end

/-- Whatever is read from a text has distinct keys. -/
lemma isKeyed_of_read (text : List Char) (w : Value) (h : Yaml.read text = .ok w) : IsKeyed w := by
  unfold Yaml.read at h
  split at h
  · obtain ⟨node?, -, h⟩ := ok_of_bind h
    cases node? with
    | none =>
      obtain rfl := Except.ok.inj h
      exact isKeyed_null
    | some node =>
      change node.value = .ok w at h
      unfold Node.value at h
      dsimp only at h
      split at h
      · obtain rfl := Except.ok.inj h
        exact (hasKeyedValues_meaning node).value
      · cases h
  · cases h

theorem loadsKeyed_standard : LoadsKeyed .standard := by
  intro x w h
  have hdecode : Yaml.decode x = .ok w := by
    change (Yaml.decode x).mapError Fault.failure = _ at h
    exact ok_of_mapError.mp h
  unfold Yaml.decode at hdecode
  split at hdecode
  · exact isKeyed_of_read _ w hdecode
  · split at hdecode
    · exact isKeyed_of_read _ w hdecode
    · cases hdecode
  · cases hdecode

end Rulebook.Proofs
