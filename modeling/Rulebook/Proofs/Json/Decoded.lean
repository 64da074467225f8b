import Mathlib
import Rulebook.Proofs.Json.Document
import Rulebook.Proofs.Value.Equality

/-!
# What texts hold

Whatever is read from a text is made of null, truth values, numbers, texts, lists, and mappings with
distinct texts as keys. The machine that reads keeps to such values from token to token.
-/

namespace Rulebook.Proofs
open Json

/-- A value as texts hold it, where `isNumber` holds for the floating-point numbers in it. -/
inductive IsDecoded (isNumber : Binary64 → Prop) : Value → Prop
  | null : IsDecoded isNumber .null
  | bool (b : Bool) : IsDecoded isNumber (.bool b)
  | int (n : Int) : IsDecoded isNumber (.int n)
  | float (x : Binary64) : isNumber x → IsDecoded isNumber (.float x)
  | str (s : String) : IsDecoded isNumber (.str s)
  | list (items : List Value) : (∀ item ∈ items, IsDecoded isNumber item) →
      IsDecoded isNumber (.list items)
  | dict (entries : Entries) : (∀ e ∈ entries, ∃ name, e.1 = .str name) →
      (entries.map Prod.fst).Nodup → (∀ e ∈ entries, IsDecoded isNumber e.2) →
      IsDecoded isNumber (.dict entries)

variable {isNumber : Binary64 → Prop}

lemma isDecoded_items (v : Value) (items : List Value) (h : IsDecoded isNumber v)
    (hitems : v.items? = some items) : ∀ item ∈ items, IsDecoded isNumber item := by
  cases h with
  | list _ hdecoded =>
    obtain rfl := Option.some.inj hitems
    exact hdecoded
  | _ => cases hitems

/-- Whether a value is null, a truth value, a number or a text. -/
def isScalar : Value → Bool
  | .null | .bool _ | .int _ | .float _ | .str _ => true
  | _ => false

lemma isScalar_of_isDecoded (v : Value) (h : IsDecoded isNumber v)
    (hdict : ∀ entries, v ≠ .dict entries) (hlist : ∀ items, v ≠ .list items) :
    isScalar v = true := by
  cases h with
  | list items => exact absurd rfl (hlist items)
  | dict entries => exact absurd rfl (hdict entries)
  | _ => rfl

lemma eq_str_of_isScalar (v : Value) (s : String) (h : isScalar v = true)
    (htext : v.text? = some s) : v = .str s := by
  cases v with
  | str s' => rw [Option.some.inj htext]
  | member value => cases h
  | _ => cases htext

lemma eq_list_of_isDecoded (v : Value) (items : List Value) (h : IsDecoded isNumber v)
    (hitems : v.items? = some items) : v = .list items := by
  cases h with
  | list items' => rw [Option.some.inj hitems]
  | _ => cases hitems

/-! ## Reading -/

lemma mem_insert (entries : Entries) (hnames : ∀ e ∈ entries, ∃ name, e.1 = .str name)
    (name : String) (v : Value) (e : Value × Value) (h : e ∈ entries.insert (.str name) v) :
    e = (.str name, v) ∨ e ∈ entries := by
  induction entries with
  | nil => exact .inl (List.mem_singleton.mp h)
  | cons first rest ih =>
    obtain ⟨key, value⟩ := first
    obtain ⟨s, hs⟩ := hnames _ List.mem_cons_self
    dsimp only at hs
    subst hs
    rw [Entries.insert] at h
    split at h
    · next hequal =>
      rw [equal_of_text? _ _ s rfl] at hequal
      have hname : name = s := by simpa [Value.text?] using hequal
      rcases List.mem_cons.mp h with rfl | h
      · exact .inl (by rw [hname])
      · exact .inr (List.mem_cons_of_mem _ h)
    · rcases List.mem_cons.mp h with rfl | h
      · exact .inr List.mem_cons_self
      · have hrest := ih (fun x hx => hnames x (List.mem_cons_of_mem _ hx)) h
        exact hrest.imp_right (List.mem_cons_of_mem _)

lemma nodup_insert (entries : Entries) (hnames : ∀ e ∈ entries, ∃ name, e.1 = .str name)
    (hnodup : (entries.map Prod.fst).Nodup) (name : String) (v : Value) :
    ((entries.insert (.str name) v).map Prod.fst).Nodup := by
  induction entries with
  | nil => exact List.nodup_singleton _
  | cons first rest ih =>
    obtain ⟨key, value⟩ := first
    obtain ⟨s, hs⟩ := hnames _ List.mem_cons_self
    dsimp only at hs
    subst hs
    have hrest : ∀ e ∈ rest, ∃ name, e.1 = .str name :=
      fun e he => hnames e (List.mem_cons_of_mem _ he)
    rw [List.map_cons, List.nodup_cons] at hnodup
    rw [Entries.insert]
    split
    · rw [List.map_cons, List.nodup_cons]
      exact hnodup
    · next hequal =>
      rw [equal_of_text? _ _ s rfl] at hequal
      rw [List.map_cons, List.nodup_cons]
      refine ⟨?_, ih hrest hnodup.2⟩
      intro hmem
      obtain ⟨e, he, hkey⟩ := List.mem_map.mp hmem
      rcases mem_insert rest hrest name v e he with rfl | he
      · obtain rfl := Value.str.inj hkey
        simp [Value.text?] at hequal
      · exact hnodup.1 (List.mem_map.mpr ⟨e, he, hkey⟩)

lemma isDecoded_insert (before : Entries) (name : String) (v : Value)
    (hbefore : IsDecoded isNumber (.dict before)) (hv : IsDecoded isNumber v) :
    IsDecoded isNumber (.dict (before.insert (.str name) v)) := by
  cases hbefore with
  | dict _ hnames hnodup hvalues =>
    refine .dict _ ?_ (nodup_insert before hnames hnodup name v) ?_
    · intro e he
      rcases mem_insert before hnames name v e he with rfl | he
      · exact ⟨name, rfl⟩
      · exact hnames e he
    · intro e he
      rcases mem_insert before hnames name v e he with rfl | he
      · exact hv
      · exact hvalues e he

lemma isDecoded_noEntries : IsDecoded isNumber (.dict []) := by
  apply IsDecoded.dict <;> simp

/-- A property that the values of a text have when its scalars have it. -/
structure IsKeptByReading (P : Value → Prop) : Prop where
  text : ∀ s, P (.str s)
  list : ∀ items, (∀ item ∈ items, P item) → P (.list items)
  noEntries : P (.dict [])
  insert : ∀ (before : Entries) (name : String) (v : Value), P (.dict before) → P v →
    P (.dict (before.insert (.str name) v))

lemma isKeptByReading_isDecoded : IsKeptByReading (IsDecoded isNumber) where
  text := .str
  list := .list
  noEntries := isDecoded_noEntries
  insert := isDecoded_insert

section Machine

variable {P : Value → Prop} {limit : Option Nat}

/-- What is complete so far in an open list or object. -/
def FrameHolds (P : Value → Prop) : Frame → Prop
  | .list before => ∀ v ∈ before, P v
  | .object before _ => P (.dict before)

def FramesHold (P : Value → Prop) (frames : List Frame) : Prop :=
  ∀ frame ∈ frames, FrameHolds P frame

/-- The invariant of the machine: all that is complete so far has the property. -/
def StateHolds (P : Value → Prop) : State → Prop
  | .value frames | .firstItem frames | .firstName frames => FramesHold P frames
  | .name before frames | .colon before _ frames => P (.dict before) ∧ FramesHold P frames
  | .complete v frames => P v ∧ FramesHold P frames
  | .halved s => StateHolds P s

lemma startValue_holds (hP : IsKeptByReading P) (frames : List Frame) (offset : Nat) (t : Token)
    (s : State) (hframes : FramesHold P frames)
    (ht : ∀ v, t = .scalar v → longInteger? limit v = none → P v)
    (h : startValue limit frames offset t = .ok s) : StateHolds P s := by
  unfold startValue at h
  split at h
  · split at h
    · cases h
    next hshort =>
      obtain rfl := Except.ok.inj h
      exact ⟨ht _ rfl hshort, hframes⟩
  · obtain rfl := Except.ok.inj h
    exact ⟨hP.text _, hframes⟩
  · obtain rfl := Except.ok.inj h
    exact ⟨hP.text _, hframes⟩
  · cases h
  · obtain rfl := Except.ok.inj h
    exact hframes
  · obtain rfl := Except.ok.inj h
    exact hframes
  · cases h

lemma startName_holds (before : Entries) (frames : List Frame) (offset : Nat) (t : Token) (s : State)
    (hbefore : P (.dict before)) (hframes : FramesHold P frames)
    (h : startName before frames offset t = .ok s) : StateHolds P s := by
  unfold startName at h
  split at h
  · obtain rfl := Except.ok.inj h
    exact ⟨hbefore, hframes⟩
  · obtain rfl := Except.ok.inj h
    exact ⟨hbefore, hframes⟩
  · cases h
  · cases h

lemma closeValue_holds (hP : IsKeptByReading P) (v : Value) (offset : Nat) (frames : List Frame)
    (t : Token) (s : State) (hv : P v) (hframes : FramesHold P frames)
    (h : closeValue v offset frames t = .ok s) : StateHolds P s := by
  have hrest (frame : Frame) (frames : List Frame) (h : FramesHold P (frame :: frames)) :
      FramesHold P frames := fun x hx => h x (List.mem_cons_of_mem _ hx)
  unfold closeValue at h
  split at h
  · cases h
  · next before frames =>
    obtain rfl := Except.ok.inj h
    intro x hx
    rcases List.mem_cons.mp hx with rfl | hx
    · exact List.forall_mem_cons.mpr ⟨hv, hframes (.list before) List.mem_cons_self⟩
    · exact hrest _ _ hframes x hx
  · next before frames =>
    obtain rfl := Except.ok.inj h
    refine ⟨hP.list _ ?_, hrest _ _ hframes⟩
    intro item hitem
    rcases List.mem_cons.mp (List.mem_reverse.mp hitem) with rfl | hitem
    · exact hv
    · exact hframes (.list before) List.mem_cons_self item hitem
  · next before name frames =>
    obtain rfl := Except.ok.inj h
    have hbefore := hframes (.object before name) List.mem_cons_self
    exact ⟨hP.insert before name v hbefore hv, hrest _ _ hframes⟩
  · next before name frames =>
    obtain rfl := Except.ok.inj h
    have hbefore := hframes (.object before name) List.mem_cons_self
    exact ⟨hP.insert before name v hbefore hv, hrest _ _ hframes⟩
  · cases h

/-- One token keeps the invariant. -/
lemma step_holds (hP : IsKeptByReading P) (s s' : State) (t : Nat × Token) (hs : StateHolds P s)
    (ht : ∀ v, t.2 = .scalar v → longInteger? limit v = none → P v) (h : step limit s t = .ok s') :
    StateHolds P s' := by
  induction s generalizing s' with
  | value frames => exact startValue_holds hP _ _ _ _ hs ht h
  | firstItem frames =>
    unfold step at h
    split at h <;> cases ‹State.firstItem frames = _›
    · obtain rfl := Except.ok.inj h
      exact ⟨hP.list [] (List.forall_mem_nil _), hs⟩
    · refine startValue_holds hP _ _ _ _ ?_ ht h
      exact List.forall_mem_cons.mpr ⟨List.forall_mem_nil _, hs⟩
  | firstName frames =>
    unfold step at h
    split at h <;> cases ‹State.firstName frames = _›
    · obtain rfl := Except.ok.inj h
      exact ⟨hP.noEntries, hs⟩
    · exact startName_holds _ _ _ _ _ hP.noEntries hs h
  | name before frames => exact startName_holds _ _ _ _ _ hs.1 hs.2 h
  | colon before name frames =>
    unfold step at h
    split at h <;> cases ‹State.colon before name frames = _›
    · obtain rfl := Except.ok.inj h
      exact List.forall_mem_cons.mpr ⟨hs.1, hs.2⟩
    · cases h
  | complete v frames => exact closeValue_holds hP _ _ _ _ _ hs.1 hs.2 h
  | halved s ih =>
    obtain ⟨next, hnext, rfl⟩ := ok_of_map h
    exact ih next hs hnext

/-- A run keeps the invariant, by induction on the tokens. -/
lemma run_holds (hP : IsKeptByReading P) (s s' : State) (tokens : List (Nat × Token))
    (hs : StateHolds P s)
    (htokens : ∀ v, ∀ t ∈ tokens, t.2 = .scalar v → longInteger? limit v = none → P v)
    (h : tokens.foldlM (step limit) s = .ok s') : StateHolds P s' := by
  induction tokens generalizing s with
  | nil =>
    obtain rfl := Except.ok.inj h
    exact hs
  | cons t rest ih =>
    rw [List.foldlM_cons] at h
    obtain ⟨next, hnext, h⟩ := ok_of_bind h
    have hstep := step_holds hP s next t hs (fun v => htokens v t List.mem_cons_self) hnext
    exact ih next hstep (fun v x hx => htokens v x (List.mem_cons_of_mem _ hx)) h

end Machine

/-! ## Tokens -/

lemma magnitude?_eq_some (negative : Bool) (cs : List Char) (v : Value) (length : Nat)
    (h : magnitude? negative cs = some (v, length)) : (∃ n, v = .int n) ∨ ∃ x, v = .float x := by
  unfold magnitude? at h
  dsimp only at h
  split at h
  · cases h
  · split at h <;> split at h
    · obtain ⟨rfl, -⟩ := Prod.mk.inj (Option.some.inj h)
      exact .inl ⟨_, rfl⟩
    · obtain ⟨rfl, -⟩ := Prod.mk.inj (Option.some.inj h)
      exact .inr ⟨_, rfl⟩
    · obtain ⟨rfl, -⟩ := Prod.mk.inj (Option.some.inj h)
      exact .inl ⟨_, rfl⟩
    · obtain ⟨rfl, -⟩ := Prod.mk.inj (Option.some.inj h)
      exact .inr ⟨_, rfl⟩

lemma number?_eq_some (cs : List Char) (v : Value) (length : Nat)
    (h : number? cs = some (v, length)) : (∃ n, v = .int n) ∨ ∃ x, v = .float x := by
  unfold number? at h
  split at h
  · obtain ⟨⟨v', length'⟩, hv, heq⟩ := Option.map_eq_some_iff.mp h
    obtain ⟨rfl, -⟩ := Prod.mk.inj heq
    exact magnitude?_eq_some true _ _ length' hv
  · exact magnitude?_eq_some false _ _ length h

lemma word?_eq_some (cs : List Char) (v : Value) (length : Nat) (h : word? cs = some (v, length)) :
    v = .null ∨ (∃ b, v = .bool b) ∨ ∃ x, v = .float x := by
  unfold word? at h
  obtain ⟨⟨word, v'⟩, hfind, heq⟩ := Option.map_eq_some_iff.mp h
  obtain ⟨rfl, -⟩ := Prod.mk.inj heq
  have hmem := List.mem_of_find?_eq_some hfind
  simp only [words, List.mem_cons, List.not_mem_nil, or_false, Prod.mk.injEq] at hmem
  rcases hmem with ⟨-, rfl⟩ | ⟨-, rfl⟩ | ⟨-, rfl⟩ | ⟨-, rfl⟩ | ⟨-, rfl⟩ | ⟨-, rfl⟩
  · exact .inl rfl
  · exact .inr (.inl ⟨_, rfl⟩)
  · exact .inr (.inl ⟨_, rfl⟩)
  · exact .inr (.inr ⟨_, rfl⟩)
  · exact .inr (.inr ⟨_, rfl⟩)
  · exact .inr (.inr ⟨_, rfl⟩)

lemma orElse_eq_some {α : Type} (x y : Option α) (a : α) (h : (x <|> y) = some a) :
    x = some a ∨ y = some a := by
  cases x with
  | none => exact .inr h
  | some b => exact .inl h

lemma scalar_of_token (offset : Nat) (c : Char) (rest : List Char) (v : Value) (length : Nat)
    (h : token offset c rest = (.scalar v, length)) :
    v = .null ∨ (∃ b, v = .bool b) ∨ (∃ n, v = .int n) ∨ ∃ x, v = .float x := by
  unfold token at h
  split at h
  · cases h
  · split at h
    · unfold stringToken at h
      split at h
      · split at h <;> cases h
      · cases h
    · split at h
      · next hscalar =>
        obtain ⟨heq, rfl⟩ := Prod.mk.inj h
        obtain rfl := Token.scalar.inj heq
        rcases orElse_eq_some _ _ _ hscalar with hword | hnumber
        · rcases word?_eq_some _ _ _ hword with hnull | hbool | hfloat
          · exact .inl hnull
          · exact .inr (.inl hbool)
          · exact .inr (.inr (.inr hfloat))
        · exact .inr (.inr (number?_eq_some _ _ _ hnumber))
      · cases h

lemma mem_scanFrom (cs : List Char) (skip offset : Nat) (t : Nat × Token)
    (h : t ∈ scanFrom skip offset cs) :
    ∃ offset c rest length, token offset c rest = (t.2, length) := by
  induction cs generalizing skip offset with
  | nil => cases skip <;> cases h
  | cons c rest ih =>
    cases skip with
    | succ skip => exact ih skip (offset + 1) h
    | zero =>
      rw [scanFrom] at h
      split at h
      · exact ih 0 (offset + 1) h
      · split at h
        · next t' htoken =>
          obtain rfl := List.mem_singleton.mp h
          exact ⟨offset, c, rest, _, htoken⟩
        · next t' length htoken =>
          rcases List.mem_cons.mp h with rfl | h
          · exact ⟨offset, c, rest, _, htoken⟩
          · exact ih length (offset + 1) h

lemma scalar_of_scan (text : List Char) (t : Nat × Token) (ht : t ∈ scan text) (v : Value)
    (hv : t.2 = .scalar v) :
    v = .null ∨ (∃ b, v = .bool b) ∨ (∃ n, v = .int n) ∨ ∃ x, v = .float x := by
  obtain ⟨offset, c, rest, length, htoken⟩ := mem_scanFrom text 0 0 t ht
  exact scalar_of_token offset c rest v length (htoken.trans (congrArg (·, length) hv))

lemma eq_complete_of_finish (offset : Nat) (s : State) (v : Value) (h : finish offset s = .ok v) :
    s = .complete v [] := by
  cases s with
  | complete v' frames =>
    cases frames with
    | nil => rw [Except.ok.inj h]
    | cons frame frames => cases h
  | halved s =>
    unfold finish at h
    split at h <;> cases h
  | _ => cases h

/-- What is read has the properties that reading keeps, if the scalars of the text have them. -/
theorem holds_of_read {P : Value → Prop} (hP : IsKeptByReading P) (limit : Option Nat)
    (text : List Char) (v : Value)
    (htokens : ∀ v, ∀ t ∈ scan text, t.2 = .scalar v → longInteger? limit v = none → P v)
    (h : Json.read limit text = .ok v) : P v := by
  unfold Json.read at h
  obtain ⟨s, hs, h⟩ := ok_of_bind h
  have hrun : StateHolds P s := by
    refine run_holds hP (.value []) s (scan text) (fun frame hframe => ?_) htokens hs
    cases hframe
  obtain rfl := eq_complete_of_finish text.length s v h
  exact hrun.1

/-- What is read from a text is as texts hold it. -/
theorem isDecoded_of_read (limit : Option Nat) (text : List Char) (v : Value)
    (hnumbers : ∀ t ∈ scan text, ∀ x, t.2 = .scalar (.float x) → isNumber x)
    (h : Json.read limit text = .ok v) : IsDecoded isNumber v := by
  refine holds_of_read isKeptByReading_isDecoded limit text v (fun w t ht hw _ => ?_) h
  rcases scalar_of_scan text t ht w hw with rfl | ⟨b, rfl⟩ | ⟨n, rfl⟩ | ⟨x, rfl⟩
  · exact .null
  · exact .bool b
  · exact .int n
  · exact .float x (hnumbers t ht x hw)

/-- What a codec decodes has been read from a text. -/
lemma read_of_decode (c : Codec) (x v : Value) (h : c.decode x = .ok v) :
    ∃ text, Json.read c.digits text = .ok v ∧ ∀ s, x.text? = some s → text = s.toList := by
  unfold Codec.decode at h
  split at h
  · next s hs =>
    unfold readUnmarked at h
    split at h
    · cases h
    · exact ⟨s.toList, ok_of_mapError.mp h, fun s' hs' => by rw [Option.some.inj (hs.symm.trans hs')]⟩
  · next hs =>
    unfold Codec.decodeOctets at h
    obtain ⟨units, -, h⟩ := ok_of_bind h
    obtain ⟨w, hw, h⟩ := ok_of_bind h
    split at h
    · obtain rfl := Except.ok.inj h
      exact ⟨_, ok_of_mapError.mp hw, fun s' hs' => by cases hs'⟩
    · cases h
  · cases h

lemma isDecoded_of_decode (c : Codec) (text : String) (v : Value)
    (hnumbers : ∀ t ∈ scan text.toList, ∀ x, t.2 = .scalar (.float x) → isNumber x)
    (h : c.decode (.str text) = .ok v) : IsDecoded isNumber v := by
  obtain ⟨cs, hread, htext⟩ := read_of_decode c (.str text) v h
  obtain rfl := htext text rfl
  exact isDecoded_of_read c.digits text.toList v hnumbers hread

end Rulebook.Proofs
