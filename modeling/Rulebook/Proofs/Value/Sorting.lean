import Mathlib
import Rulebook.Proofs.Outcome
import Rulebook.Value.Order

/-!
# Sorting with an order that may fail

Sorting rearranges its list, succeeds where all its comparisons do, and looks at nothing but the
comparisons. Its success tells that its items are of one kind if comparisons are only within a kind.
-/

namespace Rulebook.Proofs

section Sorting

variable {α β ε : Type}

lemma insertSorted_perm (before : α → α → Except ε Bool) (sorted : List α) (item : α)
    (result : List α) (h : insertSorted before sorted item = .ok result) :
    result.Perm (item :: sorted) := by
  unfold insertSorted at h
  cases hp : place before item sorted 0 sorted.length with
  | error e =>
    rw [hp] at h
    cases h
  | ok n =>
    rw [hp] at h
    obtain rfl := Except.ok.inj h
    calc (sorted.take n ++ item :: sorted.drop n).Perm (item :: (sorted.take n ++ sorted.drop n)) :=
          List.perm_middle
      _ = item :: sorted := by rw [List.take_append_drop]

lemma foldlM_insertSorted_perm (before : α → α → Except ε Bool) (items sorted result : List α)
    (h : items.foldlM (insertSorted before) sorted = .ok result) :
    result.Perm (items ++ sorted) := by
  induction items generalizing sorted with
  | nil =>
    obtain rfl := Except.ok.inj h
    exact List.Perm.refl _
  | cons item items ih =>
    rw [List.foldlM_cons] at h
    cases hi : insertSorted before sorted item with
    | error e =>
      rw [hi] at h
      cases h
    | ok next =>
      rw [hi] at h
      calc result.Perm (items ++ next) := ih next h
        _ |>.Perm (items ++ item :: sorted) :=
          (insertSorted_perm before sorted item next hi).append_left items
        _ |>.Perm (item :: items ++ sorted) := List.perm_middle

/-- Sorting rearranges its list. -/
theorem sortBy_perm (before : α → α → Except ε Bool) (items result : List α)
    (h : sortBy before items = .ok result) : result.Perm items := by
  unfold sortBy at h
  split at h
  · obtain rfl := Except.ok.inj h
    exact List.Perm.refl _
  · obtain rfl := Except.ok.inj h
    exact List.Perm.refl _
  · next first second rest =>
    cases hd : before second first with
    | error e =>
      rw [hd] at h
      cases h
    | ok descending =>
      cases hn : runLength before descending second rest with
      | error e =>
        rw [hd] at h
        simp only [bind, Except.bind, hn] at h
        cases h
      | ok n =>
        rw [hd] at h
        simp only [bind, Except.bind, hn] at h
        have hperm := foldlM_insertSorted_perm before _ _ _ h
        have hrun : (if descending = true then (first :: second :: rest.take n).reverse
            else first :: second :: rest.take n).Perm (first :: second :: rest.take n) := by
          split
          · exact List.reverse_perm _
          · exact List.Perm.refl _
        calc result.Perm _ := hperm
          _ |>.Perm (rest.drop n ++ (first :: second :: rest.take n)) := hrun.append_left _
          _ |>.Perm ((first :: second :: rest.take n) ++ rest.drop n) := List.perm_append_comm
          _ = first :: second :: rest := by
            rw [List.cons_append, List.cons_append, List.take_append_drop]

/-! ## Success -/

lemma place_isOk (before : α → α → Except ε Bool) (item : α) (sorted : List α) (low high : Nat)
    (h : ∀ other ∈ sorted, ∃ b, before item other = .ok b) :
    ∃ n, place before item sorted low high = .ok n := by
  fun_induction place before item sorted low high with
  | case1 low high hlt middle hnone => exact ⟨low, rfl⟩
  | case2 low high hlt middle other hsome ih1 ih2 =>
    obtain ⟨b, hb⟩ := h other (List.mem_of_getElem? hsome)
    rw [hb]
    cases b with
    | true => exact ih1
    | false => exact ih2
  | case3 low high hlt => exact ⟨low, rfl⟩

lemma runLength_isOk (before : α → α → Except ε Bool) (expected : Bool) (previous : α)
    (items : List α) (h : ∀ a ∈ previous :: items, ∀ b ∈ previous :: items,
      ∃ x, before a b = .ok x) : ∃ n, runLength before expected previous items = .ok n := by
  induction items generalizing previous with
  | nil => exact ⟨0, rfl⟩
  | cons next rest ih =>
    obtain ⟨b, hb⟩ := h next (by simp) previous (by simp)
    obtain ⟨n, hn⟩ := ih next (fun a ha b hb =>
      h a (List.mem_cons_of_mem _ ha) b (List.mem_cons_of_mem _ hb))
    rw [runLength, hb]
    by_cases he : b = expected
    · exact ⟨n + 1, by simp [he, hn, bind, Except.bind, pure, Except.pure]⟩
    · exact ⟨0, by simp [he, bind, Except.bind, pure, Except.pure]⟩

lemma foldlM_insertSorted_isOk (before : α → α → Except ε Bool) (items sorted : List α)
    (h : ∀ a ∈ items ++ sorted, ∀ b ∈ items ++ sorted, ∃ x, before a b = .ok x) :
    ∃ result, items.foldlM (insertSorted before) sorted = .ok result := by
  induction items generalizing sorted with
  | nil => exact ⟨sorted, rfl⟩
  | cons item items ih =>
    obtain ⟨n, hn⟩ := place_isOk before item sorted 0 sorted.length
      (fun other ho => h item (by simp) other (by simp [ho]))
    have hinsert : insertSorted before sorted item =
        .ok (sorted.take n ++ item :: sorted.drop n) := by
      unfold insertSorted
      rw [hn]
      rfl
    have hperm := (insertSorted_perm before sorted item _ hinsert).append_left items
    have hmem : ∀ a ∈ items ++ (sorted.take n ++ item :: sorted.drop n),
        a ∈ item :: items ++ sorted :=
      fun a ha => List.perm_middle.mem_iff.mp (hperm.mem_iff.mp ha)
    obtain ⟨result, hr⟩ := ih _ (fun a ha b hb => h a (hmem a ha) b (hmem b hb))
    refine ⟨result, ?_⟩
    rw [List.foldlM_cons, hinsert]
    exact hr

/-- Sorting succeeds if every comparison does. -/
theorem sortBy_isOk (before : α → α → Except ε Bool) (items : List α)
    (h : ∀ a ∈ items, ∀ b ∈ items, ∃ x, before a b = .ok x) :
    ∃ result, sortBy before items = .ok result := by
  match items, h with
  | [], _ => exact ⟨[], rfl⟩
  | [item], _ => exact ⟨[item], rfl⟩
  | first :: second :: rest, h =>
    obtain ⟨descending, hd⟩ := h second (by simp) first (by simp)
    obtain ⟨n, hn⟩ := runLength_isOk before descending second rest (fun a ha b hb =>
      h a (List.mem_cons_of_mem _ ha) b (List.mem_cons_of_mem _ hb))
    have hmem : ∀ a ∈ rest.drop n ++ (if descending = true
        then (first :: second :: rest.take n).reverse else first :: second :: rest.take n),
        a ∈ first :: second :: rest := by
      intro a ha
      rcases List.mem_append.mp ha with ha | ha
      · exact List.mem_cons_of_mem _ (List.mem_cons_of_mem _ (List.mem_of_mem_drop ha))
      · have ha' : a ∈ first :: second :: rest.take n := by
          split at ha
          · exact List.mem_reverse.mp ha
          · exact ha
        simp only [List.mem_cons] at ha' ⊢
        exact ha'.imp_right (Or.imp_right List.mem_of_mem_take)
    obtain ⟨result, hr⟩ := foldlM_insertSorted_isOk before (rest.drop n) _
      (fun a ha b hb => h a (hmem a ha) b (hmem b hb))
    refine ⟨result, ?_⟩
    simp only [sortBy, hd, bind, Except.bind, hn]
    exact hr

/-! ## What success says -/

section Kinds

variable {κ : Type} {before : α → α → Except ε Bool} (kind : α → κ)

lemma kind_of_runLength (hkind : ∀ a b x, before a b = .ok x → kind a = kind b) (expected : Bool)
    (previous : α) (items : List α) (n : Nat) (h : runLength before expected previous items = .ok n) :
    ∀ a ∈ items.take n, kind a = kind previous := by
  induction items generalizing previous n with
  | nil => simp
  | cons next rest ih =>
    rw [runLength] at h
    obtain ⟨x, hx, h⟩ := ok_of_bind h
    split at h
    · obtain ⟨m, hm, h⟩ := ok_of_bind h
      obtain rfl := Except.ok.inj h
      have hnext := hkind next previous x hx
      rw [List.take_succ_cons, List.forall_mem_cons]
      exact ⟨hnext, fun a ha => (ih next m hm a ha).trans hnext⟩
    · obtain rfl := Except.ok.inj h
      simp

/-- An item is compared with one of the items that it is put among. -/
lemma kind_of_insertSorted (hkind : ∀ a b x, before a b = .ok x → kind a = kind b) (item : α)
    (sorted result : List α) (hne : sorted ≠ []) (h : insertSorted before sorted item = .ok result) :
    ∃ other ∈ sorted, kind item = kind other := by
  unfold insertSorted at h
  obtain ⟨n, hn, -⟩ := ok_of_bind h
  have hpos : 0 < sorted.length := List.length_pos_iff.mpr hne
  have hmiddle : 0 + (sorted.length - 0) / 2 < sorted.length := by omega
  rw [place, if_pos hpos] at hn
  dsimp only at hn
  rw [List.getElem?_eq_getElem hmiddle] at hn
  obtain ⟨x, hx, -⟩ := ok_of_bind hn
  exact ⟨_, List.getElem_mem hmiddle, hkind _ _ x hx⟩

lemma kind_of_foldlM_insertSorted (hkind : ∀ a b x, before a b = .ok x → kind a = kind b)
    (items sorted result : List α) (hne : sorted ≠ []) (k : κ) (hsorted : ∀ a ∈ sorted, kind a = k)
    (h : items.foldlM (insertSorted before) sorted = .ok result) : ∀ a ∈ items, kind a = k := by
  induction items generalizing sorted with
  | nil => simp
  | cons item items ih =>
    rw [List.foldlM_cons] at h
    obtain ⟨next, hnext, h⟩ := ok_of_bind h
    obtain ⟨other, hother, hsame⟩ := kind_of_insertSorted kind hkind item sorted next hne hnext
    have hitem : kind item = k := hsame.trans (hsorted other hother)
    have hperm := insertSorted_perm before sorted item next hnext
    refine List.forall_mem_cons.mpr ⟨hitem, ih next ?_ ?_ h⟩
    · rintro rfl
      exact absurd hperm.length_eq (by simp)
    · intro a ha
      rcases List.mem_cons.mp (hperm.mem_iff.mp ha) with rfl | ha
      · exact hitem
      · exact hsorted a ha

/-- Of two items or more, the second is compared with the first, and every other one with one that is
connected to them. -/
theorem kind_of_sortBy (hkind : ∀ a b x, before a b = .ok x → kind a = kind b) (first second : α)
    (rest result : List α) (h : sortBy before (first :: second :: rest) = .ok result) :
    (∃ x, before second first = .ok x) ∧
      ∀ a ∈ first :: second :: rest, kind a = kind first := by
  rw [sortBy] at h
  obtain ⟨descending, hfirst, h⟩ := ok_of_bind h
  obtain ⟨n, hn, h⟩ := ok_of_bind h
  have hsecond := hkind second first descending hfirst
  have htaken : ∀ a ∈ rest.take n, kind a = kind first :=
    fun a ha => (kind_of_runLength kind hkind descending second rest n hn a ha).trans hsecond
  have hrun : ∀ a ∈ first :: second :: rest.take n, kind a = kind first :=
    List.forall_mem_cons.mpr ⟨rfl, List.forall_mem_cons.mpr ⟨hsecond, htaken⟩⟩
  -- What follows the run is put among items of its kind, one after another.
  have hdropped : ∀ a ∈ rest.drop n, kind a = kind first := by
    refine kind_of_foldlM_insertSorted kind hkind _ _ result ?_ (kind first) ?_ h
    · split <;> simp
    · split
      · exact fun a ha => hrun a (List.mem_reverse.mp ha)
      · exact hrun
  refine ⟨⟨descending, hfirst⟩, List.forall_mem_cons.mpr ⟨rfl, List.forall_mem_cons.mpr ⟨hsecond, ?_⟩⟩⟩
  intro a ha
  rw [← List.take_append_drop n rest] at ha
  exact (List.mem_append.mp ha).elim (htaken a) (hdropped a)

end Kinds

/-! ## Renaming -/

lemma place_map (before : β → β → Except ε Bool) (f : α → β) (item : α) (sorted : List α)
    (low high : Nat) : place before (f item) (sorted.map f) low high =
      place (fun a b => before (f a) (f b)) item sorted low high := by
  fun_induction place (fun a b => before (f a) (f b)) item sorted low high with
  | case1 low high hlt middle hnone =>
    rw [place, if_pos hlt]
    dsimp only
    rw [List.getElem?_map, show low + (high - low) / 2 = middle from rfl, hnone]
    rfl
  | case2 low high hlt middle other hsome ih1 ih2 =>
    rw [place, if_pos hlt]
    dsimp only
    rw [List.getElem?_map, show low + (high - low) / 2 = middle from rfl, hsome]
    simp only [Option.map_some, ih1, ih2]
  | case3 low high hlt => rw [place, if_neg hlt]

lemma runLength_map (before : β → β → Except ε Bool) (expected : Bool) (f : α → β) (previous : α)
    (items : List α) : runLength before expected (f previous) (items.map f) =
      runLength (fun a b => before (f a) (f b)) expected previous items := by
  induction items generalizing previous with
  | nil => rfl
  | cons next rest ih => simp only [List.map_cons, runLength, ih]

lemma foldlM_insertSorted_map (before : β → β → Except ε Bool) (f : α → β) (items sorted : List α) :
    (items.map f).foldlM (insertSorted before) (sorted.map f) =
      (items.foldlM (insertSorted fun a b => before (f a) (f b)) sorted).map (List.map f) := by
  induction items generalizing sorted with
  | nil => rfl
  | cons item items ih =>
    have hinsert : insertSorted before (sorted.map f) (f item) =
        (insertSorted (fun a b => before (f a) (f b)) sorted item).map (List.map f) := by
      unfold insertSorted
      rw [List.length_map, place_map]
      cases place (fun a b => before (f a) (f b)) item sorted 0 sorted.length with
      | error e => rfl
      | ok n =>
        simp [bind, Except.bind, pure, Except.pure, Except.map, List.map_take, List.map_drop]
    rw [List.map_cons, List.foldlM_cons, List.foldlM_cons, hinsert]
    cases insertSorted (fun a b => before (f a) (f b)) sorted item with
    | error e => rfl
    | ok next => exact ih next

/-- Sorting looks at nothing but the comparisons. -/
theorem sortBy_map (before : β → β → Except ε Bool) (f : α → β) (items : List α) :
    sortBy before (items.map f) =
      (sortBy (fun a b => before (f a) (f b)) items).map (List.map f) := by
  match items with
  | [] => rfl
  | [item] => rfl
  | first :: second :: rest =>
    simp only [List.map_cons, sortBy]
    cases before (f second) (f first) with
    | error e => rfl
    | ok descending =>
      simp only [bind, Except.bind, runLength_map]
      cases runLength (fun a b => before (f a) (f b)) descending second rest with
      | error e => rfl
      | ok n =>
        have hrun : (if descending = true then (f first :: f second :: (rest.map f).take n).reverse
            else f first :: f second :: (rest.map f).take n) =
            (if descending = true then (first :: second :: rest.take n).reverse
              else first :: second :: rest.take n).map f := by
          split <;> simp [List.map_take]
        dsimp only
        rw [hrun, ← List.map_drop]
        exact foldlM_insertSorted_map before f (rest.drop n) _

end Sorting
end Rulebook.Proofs
