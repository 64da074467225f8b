import Mathlib
import Rulebook.Yaml.Codec
import Rulebook.Proofs.Pipeline.Faithful

/-!
# Plain values in YAML

A YAML codec gives its library plain values, in which neither a tuple nor the token for no value is
left. So it keeps what records say wherever the library brings the plain value back as an equal one.
-/

namespace Rulebook.Proofs
open Yaml

/-! ## What the library is given -/

lemma isJsonData_of_isRecordData (v : Value) (h : IsRecordData v) : IsJsonData (· ≠ .nan) v := by
  induction h with
  | undefined => exact .undefined
  | scalar v hscalar hnan =>
    cases v with
    | null => exact .null
    | bool b => exact .bool b
    | int n => exact .int n
    | float x => exact .float x (by simpa using hnan)
    | str s => exact .str s
    | _ => cases hscalar
  | list items _ ih => exact .list items ih
  | tuple items _ ih => exact .tuple items ih
  | dict members hnodup _ ih => exact .dict members hnodup ih

/-- No tuple and no token for no value occurs in what the library is given for a record, also not in a
key. -/
lemma occurs_toPlain (c : Codec) (v u : Value) (hv : IsRecordData v) (h : Occurs u (c.toPlain v)) :
    u ≠ .undefined ∧ ∀ items, u ≠ .tuple items := by
  have hplain := isDecoded_plain c.writesEmptyObject v (isJsonData_of_isRecordData v hv)
  have hu := isDecoded_of_occurs u _ h hplain
  refine ⟨?_, ?_⟩
  · rintro rfl
    cases hu
  · rintro items rfl
    cases hu

/-! ## Distinct keys -/

/-- A value whose mappings, in lists and in one another, have distinct keys. -/
inductive IsKeyed : Value → Prop
  | list (items : List Value) : (∀ item ∈ items, IsKeyed item) → IsKeyed (.list items)
  | dict (entries : Entries) : entries.Pairwise (fun a b => a.1.equal b.1 = false) →
      (∀ e ∈ entries, IsKeyed e.2) → IsKeyed (.dict entries)
  | other (v : Value) : (∀ items, v ≠ .list items) → (∀ entries, v ≠ .dict entries) → IsKeyed v

/-- A library reads mappings with distinct keys. -/
def LoadsKeyed (lib : Library) : Prop := ∀ x w, lib.load x = .ok w → IsKeyed w

/-! ## From equal plain values to what records say -/

lemma isKeyed_items (items : List Value) (h : IsKeyed (.list items)) :
    ∀ item ∈ items, IsKeyed item := by
  cases h with
  | list _ h => exact h
  | other _ hne => exact absurd rfl (hne items)

lemma isKeyed_entries (entries : Entries) (h : IsKeyed (.dict entries)) :
    entries.Pairwise (fun a b => a.1.equal b.1 = false) ∧ ∀ e ∈ entries, IsKeyed e.2 := by
  cases h with
  | dict _ hdistinct h => exact ⟨hdistinct, h⟩
  | other _ _ hne => exact absurd rfl (hne entries)

lemma readsAs_items (emptyObject : Bool) (items : List Value)
    (ih : ∀ item ∈ items, ∀ w, IsKeyed w → w.equal (plain emptyObject item) = true →
      ReadsAs item w) (w : Value) (hw : IsKeyed w)
    (h : w.equal (.list (plainItems emptyObject items)) = true) :
    ∃ ws, w = .list ws ∧ List.Forall₂ ReadsAs items ws := by
  rw [plainItems_eq_map] at h
  obtain ⟨ws, rfl, hws⟩ := eq_list_of_equal w _ h
  rw [List.forall₂_map_right_iff] at hws
  obtain ⟨hlength, hequal⟩ := List.forall₂_iff_zip.mp hws.flip
  refine ⟨ws, rfl, List.forall₂_iff_zip.mpr ⟨hlength, fun hp => ?_⟩⟩
  obtain ⟨hitem, hy⟩ := List.of_mem_zip hp
  exact ih _ hitem _ (isKeyed_items ws hw _ hy) (hequal hp)

/-- What is read as a value equal to the plain one is what a faithful codec may read. -/
lemma readsAs_of_equal_plain (emptyObject : Bool) (v : Value) (hv : IsRecordData v) (w : Value)
    (hw : IsKeyed w) (h : w.equal (plain emptyObject v) = true) : ReadsAs v w := by
  induction hv generalizing w with
  | undefined =>
    rw [plain] at h
    split at h
    · obtain ⟨entries, rfl, hlength, -⟩ := eq_dict_of_equal w [] h
      rw [List.length_eq_zero_iff.mp hlength]
      exact .emptyObject
    · exact .text w h
  | scalar v hscalar =>
    have hplain : plain emptyObject v = v := by cases v <;> first | rfl | cases hscalar
    rw [hplain] at h
    exact .scalar v w hscalar h
  | list items _ ih =>
    rw [plain] at h
    obtain ⟨ws, rfl, hws⟩ := readsAs_items emptyObject items ih w hw h
    exact .list items ws hws
  | tuple items _ ih =>
    rw [plain] at h
    obtain ⟨ws, rfl, hws⟩ := readsAs_items emptyObject items ih w hw h
    exact .listed items ws hws
  | dict members hnodup _ ih =>
    rw [plain, plainEntries_eq_map, List.map_map] at h
    obtain ⟨entries, rfl, hlength, hequal⟩ := eq_dict_of_equal w _ h
    obtain ⟨hdistinct, hvalues⟩ := isKeyed_entries entries hw
    have hmatch : ∀ e ∈ entries, ∃ m ∈ members, e.1.equal (.str m.1) = true ∧
        IsKeyed e.2 ∧ e.2.equal (plain emptyObject m.2) = true := by
      intro e he
      obtain ⟨e', he', hkey, hvalue⟩ := hequal e he
      obtain ⟨m, hm, rfl⟩ := List.mem_map.mp he'
      exact ⟨m, hm, hkey, hvalues e he, hvalue⟩
    obtain ⟨arranged, hall, hperm⟩ := exists_arranged members entries _ (fun _ _ h => h.1) hmatch
      hdistinct (by rw [hlength, List.length_map])
    refine .dict _ arranged entries (List.forall₂_map_left_iff.mpr ?_)
      (List.forall₂_map_left_iff.mpr ?_) hperm
    · exact hall.imp fun _ _ h => h.1
    · exact forall₂_imp_mem (fun m hm e h => ih m hm e.2 h.2.1 h.2.2) hall

/-- A YAML codec keeps a value where its library brings the plain value back as an equal one. -/
lemma isFaithfulOn_yaml (lib : Library) (hlib : LoadsKeyed lib) (c : Codec) (v : Value)
    (hv : IsRecordData v) (text : String) (w : Value)
    (htext : lib.dump c.dumpSettings (c.toPlain v) = .ok text)
    (hload : lib.load (.str text) = .ok w) (hequal : w.equal (c.toPlain v) = true) :
    IsFaithfulOn (c.textCodec lib) v := by
  refine ⟨text, w, ?_, ?_, readsAs_of_equal_plain _ v hv w (hlib _ w hload) hequal⟩
  · dsimp only [Codec.textCodec]
    rw [htext]
    rfl
  · dsimp only [Codec.textCodec]
    rw [hload]
    rfl

end Rulebook.Proofs
