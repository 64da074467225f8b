import Mathlib
import Rulebook.Proofs.Pipeline.Carried
import Rulebook.Proofs.Record.Payloads
import Rulebook.Proofs.Record.RoundTrip

/-!
# Pairs that stand for nodes

A pair of a tag and a payload has a record whatever value names its type. As a whole, and as the only
item of a list of rules, it is one node and not a sequence of two only if its tag is a text.
-/

namespace Rulebook.Proofs
open Record

lemma isNodeLike_pair (v tag payload : Value) (h : v.items? = some [tag, payload]) :
    v.isNodeLike = true ↔ v.isNode = true ∨ tag.text?.isSome = true := by
  unfold Value.isNodeLike
  rw [h, Bool.or_eq_true]
  cases v <;> first | rfl | cases h

/-- Building a sequence that stands for no node makes a list of its records. -/
lemma serialize_sequence (p : Pipeline) (v : Value) (items : List Value)
    (hitems : v.items? = some items) (h : v.isNodeLike = false) :
    p.serialize v = ((items.mapM (ofNode p.schema)).map .list).mapError .record := by
  unfold Pipeline.serialize
  rw [hitems]
  dsimp only
  rw [h]
  rfl

lemma serialize_eq_ok_iff (p : Pipeline) (v record : Value) (hitems : v.items?.isSome = true)
    (hrecord : ofNode p.schema v = .ok record) :
    p.serialize v = .ok record ↔ v.isNodeLike = true := by
  obtain ⟨items, hitems⟩ := Option.isSome_iff_exists.mp hitems
  constructor
  · intro h
    by_contra hlike
    obtain ⟨entries, rfl⟩ := isDict_of_ofNode p.schema v record hrecord
    rw [serialize_sequence p v items hitems (Bool.eq_false_iff.mpr hlike)] at h
    obtain ⟨records, -, hlist⟩ := ok_of_map (ok_of_mapError.mp h)
    cases hlist
  · intro hlike
    rw [serialize_nodeLike p v hlike, hrecord]
    rfl

/-- What the field `rules` gets from a list of a single sequence. -/
lemma givesField_listed (v : Value) (hitems : v.items?.isSome = true) :
    GivesField "rules" (.list [v]) (if v.isNodeLike then .list [v] else v) := by
  split
  · next hlike =>
    refine .bare fun inner hinner => ?_
    obtain rfl : v = inner := by simpa [Value.items?] using hinner.1
    rw [(hinner.2 rfl).2] at hlike
    cases hlike
  · next hlike => exact .wrapped v ⟨rfl, fun _ => ⟨hitems, Bool.eq_false_iff.mpr hlike⟩⟩

/-- A list of a single pair holds the record of the pair if it stands for a node, and else the records
of its tag and its payload. -/
lemma ofNode_listed (outer kind v tag payload : Value) (houter : outer.items? = some [kind, .list [v]])
    (hkind : kind.name = "set" ∨ kind.name = "xor") (hpair : v.items? = some [tag, payload]) :
    ofNode .rules outer =
      ((if v.isNodeLike then [v] else [tag, payload]).mapM (ofNode .rules)).map fun records =>
        .dict [(.str "type", .str kind.name), (.str "rules", .list records)] := by
  have hitems : (if v.isNodeLike then Value.list [v] else v).items? =
      some (if v.isNodeLike then [v] else [tag, payload]) := by
    split
    · rfl
    · exact hpair
  rw [ofNode_pair .rules outer kind _ houter,
    ofPair_single kind _ "rules" _ (fields?_rules kind hkind) (givesField_listed v (by rw [hpair]; rfl)),
    fieldValue_rules_items kind.name _ _ hitems]
  cases List.mapM (ofNode .rules) (if v.isNodeLike then [v] else [tag, payload]) <;> rfl

lemma ofNode_listed_eq_ok_iff (outer kind v tag payload record : Value)
    (houter : outer.items? = some [kind, .list [v]]) (hkind : kind.name = "set" ∨ kind.name = "xor")
    (hpair : v.items? = some [tag, payload]) (hrecord : ofNode .rules v = .ok record) :
    ofNode .rules outer =
        .ok (.dict [(.str "type", .str kind.name), (.str "rules", .list [record])]) ↔
      v.isNodeLike = true := by
  rw [ofNode_listed outer kind v tag payload houter hkind hpair]
  constructor
  · intro h
    by_contra hlike
    rw [if_neg hlike] at h
    obtain ⟨records, hrecords, heq⟩ := ok_of_map h
    -- The records of the tag and of the payload are two, and the list has one.
    have hlength := ((mapM_ok _ _ _).mp hrecords).length_eq
    simp only [Value.dict.injEq, List.cons.injEq, Prod.mk.injEq, Value.list.injEq, true_and,
      and_true] at heq
    rw [heq] at hlength
    cases hlength
  · intro hlike
    rw [if_pos hlike, (mapM_ok _ _ [record]).mpr (.cons hrecord .nil)]
    rfl

/-- A pair that has a record is built as one node, as a whole and as the only item of a list of rules,
exactly if it is a node or its tag is a text. -/
theorem serialize_pair_iff (v tag payload record : Value) (hpair : v.items? = some [tag, payload])
    (hrecord : ofNode .rules v = .ok record) :
    (({} : Pipeline).serialize v = .ok record ↔ v.isNode = true ∨ tag.text?.isSome = true) ∧
      ∀ outer kind : Value, outer.items? = some [kind, .list [v]] →
        kind.name = "set" ∨ kind.name = "xor" →
        (ofNode .rules outer =
            .ok (.dict [(.str "type", .str kind.name), (.str "rules", .list [record])]) ↔
          v.isNode = true ∨ tag.text?.isSome = true) := by
  rw [← isNodeLike_pair v tag payload hpair]
  refine ⟨serialize_eq_ok_iff {} v record (by rw [hpair]; rfl) hrecord, ?_⟩
  intro outer kind houter hkind
  exact ofNode_listed_eq_ok_iff outer kind v tag payload record houter hkind hpair hrecord

/-- The record of a pair without rules in it, whatever value its tag is. -/
lemma ofNode_emptySet (v tag : Value) (h : v.items? = some [tag, .list []]) (htag : tag.name = "set") :
    ofNode .rules v = .ok (.dict [(.str "type", .str "set"), (.str "rules", .list [])]) := by
  have hgives : GivesField "rules" (.list []) (.list []) := .bare fun inner hinner => by
    cases hinner.1
  rw [ofNode_pair .rules v tag _ h,
    ofPair_single tag _ "rules" _ (fields?_rules tag (.inl htag)) hgives, htag]
  rfl

/-- A pair with a text for its tag, in another spelling, as a whole and as the only rule of a list. -/
theorem serialize_pair_spelled :
    let pair := Value.list [.str "SET", .list []]
    let record := Value.dict [(.str "type", .str "set"), (.str "rules", .list [])]
    ({} : Pipeline).serialize pair = .ok record ∧
      ofNode .rules (.tuple [.str "xor", .list [pair]]) =
        .ok (.dict [(.str "type", .str "xor"), (.str "rules", .list [record])]) := by
  intro pair record
  have hxor : (Value.str "xor").name = "xor" := by decide +kernel
  have hrecord := ofNode_emptySet pair (.str "SET") rfl (by decide +kernel)
  obtain ⟨hserialize, hlisted⟩ := serialize_pair_iff pair (.str "SET") _ record rfl hrecord
  have hxorList := (hlisted (.tuple [.str "xor", .list [pair]]) (.str "xor") rfl (.inr hxor)).mpr
    (.inr rfl)
  rw [hxor] at hxorList
  exact ⟨hserialize.mpr (.inr rfl), hxorList⟩

/-- A pair whose tag is a constant for the name of a type, but no text, has a record. It is not built
as that record, and no list of rules holds that record for it. -/
theorem not_serialize_constantPair :
    let pair := Value.tuple [.constant "set", .list []]
    let record := Value.dict [(.str "type", .str "set"), (.str "rules", .list [])]
    ofNode .rules pair = .ok record ∧ ({} : Pipeline).serialize pair ≠ .ok record ∧
      ofNode .rules (.node (.str "set") (.list [pair])) ≠
        .ok (.dict [(.str "type", .str "set"), (.str "rules", .list [record])]) := by
  intro pair record
  have hset : (Value.str "set").name = "set" := by decide +kernel
  have hrecord := ofNode_emptySet pair (.constant "set") rfl (by decide +kernel)
  have hlike : pair.isNodeLike ≠ true := by decide
  refine ⟨hrecord, mt (serialize_eq_ok_iff {} pair record rfl hrecord).mp hlike, fun h => hlike ?_⟩
  refine (ofNode_listed_eq_ok_iff (.node (.str "set") (.list [pair])) (.str "set") pair _ _ record rfl
    (.inl hset) rfl hrecord).mp ?_
  rw [hset]
  exact h

end Rulebook.Proofs
