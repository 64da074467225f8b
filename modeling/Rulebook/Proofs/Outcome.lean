import Mathlib

/-!
# Outcomes that may be faults

When a chain of steps, or one step for each item of a list, has a result, and how the items of a list
are related to their results.
-/

namespace Rulebook.Proofs

variable {ε α β γ : Type}

lemma ok_bind (a : α) (f : α → Except ε β) : (Except.ok a >>= f) = f a := rfl

lemma ok_of_bind {x : Except ε α} {f : α → Except ε β} {b : β} (h : x >>= f = .ok b) :
    ∃ a, x = .ok a ∧ f a = .ok b := by
  cases x with
  | error e => cases h
  | ok a => exact ⟨a, rfl, h⟩

lemma ok_of_map {x : Except ε α} {f : α → β} {b : β} (h : x.map f = .ok b) :
    ∃ a, x = .ok a ∧ f a = b := by
  cases x with
  | error e => cases h
  | ok a => exact ⟨a, rfl, Except.ok.inj h⟩

lemma ok_of_mapError {ε' : Type} {x : Except ε α} {f : ε → ε'} {a : α} :
    x.mapError f = .ok a ↔ x = .ok a := by
  cases x with
  | error e => exact ⟨nofun, nofun⟩
  | ok b => exact ⟨fun h => congrArg _ (Except.ok.inj h), fun h => congrArg _ (Except.ok.inj h)⟩

lemma error_of_mapError {ε' : Type} {x : Except ε α} {f : ε → ε'} {e' : ε'}
    (h : x.mapError f = .error e') : ∃ e, x = .error e ∧ f e = e' := by
  cases x with
  | error e => exact ⟨e, rfl, Except.error.inj h⟩
  | ok a => cases h

lemma ok_of_isOk {x : Except ε α} (h : x.isOk = true) : ∃ a, x = .ok a := by
  cases x with
  | error e => cases h
  | ok a => exact ⟨a, rfl⟩

lemma ok_of_toOption {x : Except ε α} {a : α} (h : x.toOption = some a) : x = .ok a := by
  cases x with
  | error e => cases h
  | ok b => rw [Option.some.inj h]

lemma exists_of_any_toOption {x : Except ε α} {p : α → Bool} (h : x.toOption.any p = true) :
    ∃ a, x = .ok a ∧ p a = true := by
  cases x with
  | error e => cases h
  | ok a => exact ⟨a, rfl, h⟩

/-- A step for each item succeeds when every single one does. -/
lemma mapM_ok (f : α → Except ε β) (as : List α) (bs : List β) :
    as.mapM f = .ok bs ↔ List.Forall₂ (fun a b => f a = .ok b) as bs := by
  induction as generalizing bs with
  | nil =>
    rw [List.mapM_nil, List.forall₂_nil_left_iff]
    exact ⟨fun h => (Except.ok.inj h).symm, fun h => h ▸ rfl⟩
  | cons a rest ih =>
    rw [List.mapM_cons, List.forall₂_cons_left_iff]
    constructor
    · intro h
      obtain ⟨b, hb, h⟩ := ok_of_bind h
      obtain ⟨more, hmore, h⟩ := ok_of_bind h
      exact ⟨b, more, hb, (ih more).mp hmore, (Except.ok.inj h).symm⟩
    · rintro ⟨b, more, hb, hmore, rfl⟩
      rw [hb, ok_bind, (ih more).mpr hmore]
      rfl

/-- The fault of a step for each item is the one of the first item that has one. -/
lemma mapM_error (f : α → Except ε β) (before after : List α) (a : α) (e : ε)
    (hbefore : ∀ earlier ∈ before, ∃ b, f earlier = .ok b) (ha : f a = .error e) :
    (before ++ a :: after).mapM f = .error e := by
  induction before with
  | nil =>
    rw [List.nil_append, List.mapM_cons, ha]
    rfl
  | cons earlier before ih =>
    rw [List.forall_mem_cons] at hbefore
    obtain ⟨⟨b, hb⟩, hbefore⟩ := hbefore
    rw [List.cons_append, List.mapM_cons, hb, ok_bind, ih hbefore]
    rfl

/-- If every item is one of two kinds, all are of the first kind or there is a first one of the
second. -/
lemma forall_or_first {P Q : α → Prop} (as : List α) (h : ∀ a ∈ as, P a ∨ Q a) :
    (∀ a ∈ as, P a) ∨ ∃ before a after, as = before ++ a :: after ∧ (∀ b ∈ before, P b) ∧ Q a := by
  induction as with
  | nil => exact .inl (by simp)
  | cons a as ih =>
    rw [List.forall_mem_cons] at h
    rcases h.1 with ha | ha
    · rcases ih h.2 with hall | ⟨before, b, after, rfl, hbefore, hb⟩
      · exact .inl (List.forall_mem_cons.mpr ⟨ha, hall⟩)
      · exact .inr ⟨a :: before, b, after, rfl, List.forall_mem_cons.mpr ⟨ha, hbefore⟩, hb⟩
    · exact .inr ⟨[], a, as, rfl, by simp, ha⟩

lemma exists_forall₂ {R : α → β → Prop} (as : List α) :
    (∃ bs, List.Forall₂ R as bs) ↔ ∀ a ∈ as, ∃ b, R a b := by
  induction as with
  | nil => simp
  | cons a rest ih =>
    rw [List.forall_mem_cons, ← ih]
    constructor
    · rintro ⟨bs, h⟩
      obtain ⟨b, more, hb, hmore, -⟩ := List.forall₂_cons_left_iff.mp h
      exact ⟨⟨b, hb⟩, more, hmore⟩
    · rintro ⟨⟨b, hb⟩, bs, hbs⟩
      exact ⟨b :: bs, .cons hb hbs⟩

lemma forall₂_imp_mem {R T : α → β → Prop} {as : List α} {bs : List β}
    (h : ∀ a ∈ as, ∀ b, R a b → T a b) (hR : List.Forall₂ R as bs) : List.Forall₂ T as bs := by
  induction hR with
  | nil => exact .nil
  | @cons a b as bs hab _ ih =>
    rw [List.forall_mem_cons] at h
    exact .cons (h.1 b hab) (ih h.2)

lemma forall₂_map_of_forall {R : α → β → Prop} {f : α → β} {as : List α}
    (h : ∀ a ∈ as, R a (f a)) : List.Forall₂ R as (as.map f) :=
  List.forall₂_map_right_iff.mpr (List.forall₂_same.mpr h)

lemma forall_right_of_forall₂ {R : α → β → Prop} {P : β → Prop} {as : List α} {bs : List β}
    (h : ∀ a ∈ as, ∀ b, R a b → P b) (hR : List.Forall₂ R as bs) : ∀ b ∈ bs, P b := by
  induction hR with
  | nil => simp
  | @cons a b as bs hab _ ih =>
    rw [List.forall_mem_cons] at h ⊢
    exact ⟨h.1 b hab, ih h.2⟩

lemma forall_iff_of_forall₂ {R : α → β → Prop} {P : β → Prop} {Q : α → Prop} {as : List α}
    {bs : List β} (h : ∀ a ∈ as, ∀ b, R a b → (P b ↔ Q a)) (hR : List.Forall₂ R as bs) :
    (∀ b ∈ bs, P b) ↔ ∀ a ∈ as, Q a := by
  induction hR with
  | nil => simp
  | @cons a b as bs hab _ ih =>
    rw [List.forall_mem_cons] at h
    rw [List.forall_mem_cons, List.forall_mem_cons]
    exact and_congr (h.1 b hab) (ih h.2)

lemma forall_right_of_zip {P : β → Prop} (as : List α) (bs : List β)
    (hlength : bs.length = as.length) (h : ∀ p ∈ as.zip bs, P p.2) : ∀ b ∈ bs, P b := by
  intro b hb
  rw [← List.map_snd_zip hlength.le] at hb
  obtain ⟨p, hp, rfl⟩ := List.mem_map.mp hb
  exact h p hp

lemma forall₂_of_zip {R : α → β → Prop} (as : List α) (bs : List β)
    (hlength : bs.length = as.length) (h : ∀ p ∈ as.zip bs, R p.1 p.2) : List.Forall₂ R as bs :=
  List.forall₂_iff_zip.mpr ⟨hlength.symm, fun hp => h _ hp⟩

lemma exists_zip_left (as : List α) (bs : List β) (hlength : bs.length = as.length) (a : α)
    (ha : a ∈ as) : ∃ p ∈ as.zip bs, p.1 = a := by
  rw [← List.map_fst_zip hlength.ge] at ha
  exact List.mem_map.mp ha

/-- A list of images is the image of a list. -/
lemma exists_eq_map {f : α → β} (bs : List β) (h : ∀ b ∈ bs, ∃ a, b = f a) :
    ∃ as, bs = List.map f as := by
  have hrange : bs ∈ Set.range (List.map f) := by
    rw [Set.range_list_map]
    intro b hb
    obtain ⟨a, rfl⟩ := h b hb
    exact ⟨a, rfl⟩
  obtain ⟨as, rfl⟩ := hrange
  exact ⟨as, rfl⟩

lemma map_eq_pair {f : α → β} {as : List α} {b b' : β} (h : as.map f = [b, b']) :
    ∃ a a', as = [a, a'] ∧ f a = b ∧ f a' = b' := by
  obtain ⟨a, more, rfl, ha, hmore⟩ := List.map_eq_cons_iff.mp h
  obtain ⟨a', last, rfl, ha', hlast⟩ := List.map_eq_cons_iff.mp hmore
  obtain rfl := List.map_eq_nil_iff.mp hlast
  exact ⟨a, a', rfl, ha, ha'⟩

/-- A step for each pair whose result depends on the left of the pair only. -/
lemma mapM_zip (f : α × β → Except ε γ) (g : α → γ) (as : List α) (bs : List β)
    (hlength : bs.length = as.length) (h : ∀ p ∈ as.zip bs, f p = .ok (g p.1)) :
    (as.zip bs).mapM f = .ok (as.map g) := by
  have hleft : as.map g = (as.zip bs).map fun p => g p.1 := by
    conv_lhs => rw [← List.map_fst_zip hlength.ge, List.map_map]
    rfl
  rw [hleft, mapM_ok, List.forall₂_map_right_iff, List.forall₂_same]
  exact h

lemma mapM_right (f : β → Except ε γ) (g : α → γ) (as : List α) (bs : List β)
    (hlength : bs.length = as.length) (h : ∀ p ∈ as.zip bs, f p.2 = .ok (g p.1)) :
    bs.mapM f = .ok (as.map g) := by
  rw [← mapM_zip (fun p => f p.2) g as bs hlength h]
  conv_lhs => rw [← List.map_snd_zip hlength.le, List.mapM_map]
  rfl

lemma mapM_congr_forall₂ (f : α → Except ε β) (as bs : List α)
    (h : List.Forall₂ (fun a b => f b = f a) as bs) : bs.mapM f = as.mapM f := by
  induction h with
  | nil => rfl
  | cons hab _ ih => rw [List.mapM_cons, List.mapM_cons, hab, ih]

lemma mapM_isOk (f : α → Except ε β) (as : List α) (h : ∀ a ∈ as, ∃ b, f a = .ok b) :
    ∃ bs, as.mapM f = .ok bs := by
  simp only [mapM_ok]
  exact (exists_forall₂ as).mpr h

/-- Something between two lists, item by item. -/
lemma exists_between {R : α → γ → Prop} {E : γ → β → Prop} (as : List α)
    (bs : List β) (hlength : bs.length = as.length) :
    (∃ cs, List.Forall₂ R as cs ∧ List.Forall₂ E cs bs) ↔
      ∀ p ∈ as.zip bs, ∃ c, R p.1 c ∧ E c p.2 := by
  induction as generalizing bs with
  | nil =>
    obtain rfl := List.length_eq_zero_iff.mp hlength
    simp
  | cons a as ih =>
    cases bs with
    | nil => simp at hlength
    | cons b bs =>
      rw [List.zip_cons_cons, List.forall_mem_cons, ← ih bs (by simpa using hlength)]
      constructor
      · rintro ⟨_, hcs, hbs⟩
        obtain ⟨c, cs, hc, hrest, rfl⟩ := List.forall₂_cons_left_iff.mp hcs
        obtain ⟨hb, hbs⟩ := List.forall₂_cons.mp hbs
        exact ⟨⟨c, hc, hb⟩, cs, hrest, hbs⟩
      · rintro ⟨⟨c, hc, hb⟩, cs, hcs, hbs⟩
        exact ⟨c :: cs, .cons hc hcs, .cons hb hbs⟩

lemma exists_between_self {R : α → γ → Prop} {E : γ → α → Prop} (as : List α) :
    (∃ cs, List.Forall₂ R as cs ∧ List.Forall₂ E cs as) ↔ ∀ a ∈ as, ∃ c, R a c ∧ E c a := by
  rw [exists_between as as rfl, List.zip_eq_zipWith, List.zipWith_self, List.forall_mem_map]

lemma forall_left_of_forall₂ {P : α → Prop} {E : α → β → Prop} {as : List α}
    {bs : List β} (h : List.Forall₂ (fun a b => P a ∧ E a b) as bs) : ∀ a ∈ as, P a := by
  induction h with
  | nil => simp
  | cons hab _ ih => exact List.forall_mem_cons.mpr ⟨hab.1, ih⟩

lemma map_of_mapM {f : α → Option β} {as : List α} {bs : List β} (h : as.mapM f = some bs) :
    as.map f = bs.map some := by
  induction as generalizing bs with
  | nil =>
    obtain rfl := Option.some.inj h
    rfl
  | cons a as ih =>
    rw [List.mapM_cons] at h
    obtain ⟨b, hb, h⟩ := Option.bind_eq_some_iff.mp h
    obtain ⟨bs', hbs, h⟩ := Option.bind_eq_some_iff.mp h
    obtain rfl := Option.some.inj h
    rw [List.map_cons, List.map_cons, hb, ih hbs]

lemma exists_of_mem_mapM {f : α → Option β} {as : List α} {bs : List β}
    (h : as.mapM f = some bs) : ∀ b ∈ bs, ∃ a ∈ as, f a = some b := by
  intro b hb
  have hmem : some b ∈ as.map f := by
    rw [map_of_mapM h]
    exact List.mem_map_of_mem hb
  exact List.mem_map.mp hmem

end Rulebook.Proofs
