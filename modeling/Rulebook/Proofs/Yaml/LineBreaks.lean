import Mathlib
import Rulebook.Yaml.Library
import Rulebook.Proofs.Json.Plain

/-!
# Line breaks in YAML

A library writes most texts between apostrophes or without marks, where a next line is a line break.
Reading makes blanks and line feeds of line breaks, so the next lines of a text are lost; only between
double quotes they are written as escapes. Here is what is relied on, and which values come back.
-/

namespace Rulebook.Proofs
open Yaml

/-- What a value is read as, where `back` tells what each of its texts is read as. Members are written
in any order, and of members whose names are read alike one is left. -/
inductive IsReadWith (back : String → String) : Value → Value → Prop
  | null : IsReadWith back .null .null
  | bool (b : Bool) : IsReadWith back (.bool b) (.bool b)
  | int (n : Int) : IsReadWith back (.int n) (.int n)
  | str (s : String) : IsReadWith back (.str s) (.str (back s))
  | list (items values : List Value) : values.length = items.length →
      (∀ p ∈ items.zip values, IsReadWith back p.1 p.2) →
      IsReadWith back (.list items) (.list values)
  | dict (members written : List (String × Value)) (value : String × Value → Value) :
      written.Perm members → (∀ m ∈ members, IsReadWith back m.2 (value m)) →
      IsReadWith back (.dict (members.map fun m => (.str m.1, m.2)))
        (.dict (Entries.ofPairs (written.map fun m => (.str (back m.1), value m))))

/-- A short text of letters and next lines. -/
def IsWord (s : String) : Prop :=
  s.length < 80 ∧ ∀ c ∈ s.toList, c.isAlpha = true ∨ c = '\x85'

/-- How a library renders texts in block style, where it leaves characters outside ASCII as they are. -/
structure Rendering (lib : Library) where
  /-- The text is no longer than a line. -/
  fits : String → Prop
  /-- The text is written between double quotes, with its line breaks as escapes. -/
  escapes : String → Prop
  /-- What the text is read as. -/
  back : String → String
  /-- What is made of texts that fit, of truth values and of integers is written and read. Integers have
  the limit on digits of the platform. -/
  roundTrip : ∀ (settings : DumpSettings) (v : Value), settings.allowUnicode = true →
    settings.defaultFlowStyle = false → IsDecoded (fun _ => False) v →
    HasShortIntegers (some 4300) v → (∀ s, Occurs (.str s) v → fits s) →
    ∃ text w, lib.dump settings v = .ok text ∧ lib.load (.str text) = .ok w ∧ IsReadWith back v w
  /-- All other line breaks are written so that they are read as they are. -/
  back_of_not_mem : ∀ s, '\x85' ∉ s.toList → back s = s
  /-- An escape is read as the character that it stands for. -/
  back_of_escapes : ∀ s, escapes s → back s = s
  /-- A next line without an escape is a line break, and line breaks are read as blanks and line
  feeds. -/
  not_mem_back : ∀ s, ¬escapes s → '\x85' ∉ (back s).toList
  /-- Neither letters nor line breaks between them call for escapes. -/
  words : ∀ s, IsWord s → fits s ∧ ¬escapes s

/-! ## Texts -/

/-- The texts of a mapping are the names of its members and the texts of their values. -/
lemma occurs_members_iff (members : List (String × Value)) (P : String → Prop) :
    (∀ s, Occurs (.str s) (.dict (members.map fun m => (.str m.1, m.2))) → P s) ↔
      ∀ m ∈ members, P m.1 ∧ ∀ s, Occurs (.str s) m.2 → P s := by
  constructor
  · intro h m hm
    have he := List.mem_map_of_mem (f := fun m : String × Value => (Value.str m.1, m.2)) hm
    exact ⟨h m.1 (.key _ _ he .self), fun s hs => h s (.value _ _ he hs)⟩
  · intro h s hs
    obtain ⟨e, he, hoccurs⟩ := occurs_entries _ _ hs (by simp)
    obtain ⟨m, hm, rfl⟩ := List.mem_map.mp he
    rcases hoccurs with hkey | hvalue
    · obtain rfl := Value.str.inj (occurs_atom _ _ hkey rfl (by simp))
      exact (h m hm).1
    · exact (h m hm).2 s hvalue

namespace Rendering

variable {lib : Library} (r : Rendering lib)

/-- A text is read as it is if and only if its next lines are escaped. -/
lemma back_eq_iff (s : String) : r.back s = s ↔ ('\x85' ∈ s.toList → r.escapes s) := by
  constructor
  · intro heq hnext
    by_contra hescapes
    exact r.not_mem_back s hescapes (heq.symm ▸ hnext)
  · intro h
    by_cases hnext : '\x85' ∈ s.toList
    · exact r.back_of_escapes s (h hnext)
    · exact r.back_of_not_mem s hnext

/-- A text that is not read as it is has lost its next lines. -/
lemma not_mem_of_lost (s : String) (h : r.back s ≠ s) : '\x85' ∉ (r.back s).toList :=
  r.not_mem_back s fun hescapes => h (r.back_of_escapes s hescapes)

/-- If each of some texts is read from one of them, all of them are read as they are: a text with next
lines is read from no other one. -/
lemma back_of_forall (texts : List String) (h : ∀ s ∈ texts, ∃ t ∈ texts, r.back t = s) :
    ∀ s ∈ texts, r.back s = s := by
  intro s hs
  by_cases hnext : '\x85' ∈ s.toList
  · obtain ⟨t, -, ht⟩ := h s hs
    have hkept : r.back t = t := by
      by_contra hlost
      exact r.not_mem_of_lost t hlost (ht ▸ hnext)
    rw [← ht, hkept, hkept]
  · exact r.back_of_not_mem s hnext

/-! ## Mappings -/

section Members

variable (members written : List (String × Value)) (hperm : written.Perm members)
  (value other : String × Value → Value)

include hperm

/-- If a mapping is read as an equal one, its names are read as they are: each name has been read from
one. -/
lemma back_of_equal_members
    (h : (Value.dict (Entries.ofPairs (written.map fun m => (.str (r.back m.1), value m)))).equal
      (.dict (members.map fun m => (.str m.1, other m))) = true) :
    ∀ m ∈ members, r.back m.1 = m.1 := by
  obtain ⟨entries, hentries, hlength, hmatch⟩ := eq_dict_of_equal _ _ h
  obtain rfl := Value.dict.inj hentries
  have hmember : ∀ e ∈ Entries.ofPairs (written.map fun m => (.str (r.back m.1), value m)),
      ∃ m ∈ members, (∃ s ∈ members.map Prod.fst, r.back s = m.1) ∧ e.1.equal (.str m.1) = true := by
    intro e he
    obtain ⟨e', he', hkey, -⟩ := hmatch e he
    obtain ⟨m, hm, rfl⟩ := List.mem_map.mp he'
    obtain ⟨⟨p, hp, heq⟩, -⟩ := exists_of_mem_ofPairs _ e he
    obtain ⟨source, hsource, rfl⟩ := List.mem_map.mp hp
    have htext := text?_of_equal e.1 _ hkey
    rw [← heq] at htext
    exact ⟨m, hm, ⟨source.1, List.mem_map_of_mem (hperm.subset hsource), Option.some.inj htext⟩,
      hkey⟩
  obtain ⟨arranged, hall, -⟩ := exists_arranged members _ _ (fun _ _ h => h.2) hmember
    (pairwise_ofPairs _) (by rw [hlength, List.length_map])
  have hread : ∀ s ∈ members.map Prod.fst, ∃ t ∈ members.map Prod.fst, r.back t = s := by
    rw [List.forall_mem_map]
    exact forall_left_of_forall₂ hall
  exact fun m hm => r.back_of_forall _ hread m.1 (List.mem_map_of_mem hm)

/-- What is read from members equals the members if and only if all names are read as they are and all
values as equal ones. -/
lemma equal_members_iff (hnodup : (members.map Prod.fst).Nodup) :
    (Value.dict (Entries.ofPairs (written.map fun m => (.str (r.back m.1), value m)))).equal
        (.dict (members.map fun m => (.str m.1, other m))) = true ↔
      ∀ m ∈ members, r.back m.1 = m.1 ∧ (value m).equal (other m) = true := by
  have hread (hkept : ∀ m ∈ members, r.back m.1 = m.1) :
      Entries.ofPairs (written.map fun m => (.str (r.back m.1), value m)) =
        written.map fun m => (.str m.1, value m) := by
    have hpairs := ofPairs_of_nodup (written.map fun m => (m.1, value m)) (by
      rw [List.map_map]
      exact (hperm.map Prod.fst).nodup_iff.mpr hnodup)
    rw [List.map_map] at hpairs
    refine Eq.trans (congrArg Entries.ofPairs (List.map_congr_left fun m hm => ?_)) hpairs
    rw [hkept m (hperm.subset hm)]
    rfl
  constructor
  · intro h
    have hkept := r.back_of_equal_members members written hperm value other h
    refine fun m hm => ⟨hkept m hm, ?_⟩
    obtain ⟨entries, hentries, -, hmatch⟩ := eq_dict_of_equal _ _ h
    obtain rfl := Value.dict.inj hentries
    rw [hread hkept] at hmatch
    obtain ⟨e, he, hkey, hvalue⟩ := hmatch _ (List.mem_map_of_mem (hperm.mem_iff.mpr hm))
    obtain ⟨m', hm', rfl⟩ := List.mem_map.mp he
    -- The names of members differ, so the entry with an equal key is that of the same member.
    have hsame : m = m' :=
      List.inj_on_of_nodup_map hnodup hm hm' (Option.some.inj (text?_of_equal _ _ hkey))
    rwa [← hsame] at hvalue
  · intro h
    rw [hread fun m hm => (h m hm).1]
    refine equal_dict _ _ (by rw [List.length_map, List.length_map, hperm.length_eq]) ?_
    rw [List.forall_mem_map]
    intro m hm
    have hm := hperm.subset hm
    exact ⟨_, List.mem_map_of_mem hm, equal_str_self m.1, (h m hm).2⟩

end Members

/-! ## All values -/

/-- A value is read as an equal one if and only if each of its texts is read as it is. -/
theorem equal_iff_of_isReadWith (v w : Value) (h : IsReadWith r.back v w)
    (hv : IsDecoded (fun _ => False) v) :
    w.equal v = true ↔ ∀ s, Occurs (.str s) v → r.back s = s := by
  have hatom (v : Value) (hequal : v.equal v = true) (hnone : ∀ s, ¬Occurs (.str s) v) :
      v.equal v = true ↔ ∀ s, Occurs (.str s) v → r.back s = s :=
    iff_of_true hequal fun s hs => absurd hs (hnone s)
  induction h with
  | null | bool _ | int _ =>
    exact hatom _ (equal_of_isDecoded (fun _ h => h.elim) _ hv)
      fun s => not_occurs_text _ s rfl (by simp) rfl
  | str s =>
    have hequal : (Value.str (r.back s)).equal (.str s) = true ↔ r.back s = s := by
      rw [equal_of_text? _ _ (r.back s) rfl, beq_iff_eq]
      exact Option.some_inj.trans eq_comm
    rw [hequal]
    refine ⟨fun hkept t ht => ?_, fun h => h s .self⟩
    obtain rfl := Value.str.inj (occurs_atom _ _ ht rfl (by simp))
    exact hkept
  | list items values hlength _ ih =>
    have hitems := isDecoded_items _ items hv rfl
    have hiff (p : Value × Value) (hp : p ∈ items.zip values) :=
      ih p hp (hitems p.1 (List.of_mem_zip hp).1)
    rw [equal_list]
    constructor
    · intro hequal s hs
      obtain ⟨item, hitem, hoccurs⟩ := occurs_items _ _ items rfl hs (by simp)
      obtain ⟨p, hp, rfl⟩ := exists_zip_left items values hlength item hitem
      exact (hiff p hp).mp ((List.forall₂_iff_zip.mp hequal.flip).2 hp) s hoccurs
    · intro hkept
      refine (forall₂_of_zip items values hlength fun p hp => ?_).flip
      have hitem := (List.of_mem_zip hp).1
      exact (hiff p hp).mpr fun s hs => hkept s (occurs_list _ items p.1 hitem hs)
  | dict members written value hperm _ ih =>
    obtain ⟨hnodup, hvalues⟩ := isDecoded_members members hv
    rw [r.equal_members_iff members written hperm value Prod.snd hnodup, occurs_members_iff]
    exact forall₂_congr fun m hm => and_congr_right fun _ => ih m hm (hvalues m hm)

end Rendering
end Rulebook.Proofs
