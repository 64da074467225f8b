import Mathlib
import Rulebook.Proofs.Json.Decoded

/-!
# The documents of texts

A document is what a text spells token by token, with all members of its objects. The machine that
reads accepts exactly the texts that spell a document whose integers are no longer than the limit, and
of members with one name it keeps the last one: it reads the value of the document without the others.
-/

namespace Rulebook.Proofs
open Json

/-- What a text spells. An object has all its members, also those of one name. -/
inductive Document where
  | scalar (v : Value)
  | string (s : String)
  | list (items : List Document)
  | object (members : List (String × Document))

namespace Document

/-- Pieces with a comma between them. -/
def separated (pieces : List (List Token)) : List Token := [.mark ','].intercalate pieces

/-- Pieces with a comma behind each. -/
def followed (pieces : List (List Token)) : List Token := pieces.flatMap (· ++ [.mark ','])

mutual

/-- The tokens of a document. -/
def tokens : Document → List Token
  | scalar v => [.scalar v]
  | string s => [.string s]
  | list items => .mark '[' :: (separated (itemTokens items) ++ [.mark ']'])
  | object members => .mark '\x7b' :: (separated (memberTokens members) ++ [.mark '\x7d'])

def itemTokens : List Document → List (List Token)
  | [] => []
  | item :: rest => item.tokens :: itemTokens rest

def memberTokens : List (String × Document) → List (List Token)
  | [] => []
  | (name, d) :: rest => (.string name :: .mark ':' :: d.tokens) :: memberTokens rest

end

mutual

/-- The value that a document is read as. -/
def value : Document → Value
  | scalar v => v
  | string s => .str s
  | list items => .list (itemValues items)
  | object members => .dict (Entries.ofPairs (memberValues members))

def itemValues : List Document → List Value
  | [] => []
  | item :: rest => item.value :: itemValues rest

def memberValues : List (String × Document) → Entries
  | [] => []
  | (name, d) :: rest => (.str name, d.value) :: memberValues rest

end

/-- The tokens of a member. -/
def memberToken (m : String × Document) : List Token := .string m.1 :: .mark ':' :: m.2.tokens

/-- A member as an entry. -/
def entry (m : String × Document) : Value × Value := (.str m.1, m.2.value)

@[simp] lemma itemTokens_eq_map (items : List Document) : itemTokens items = items.map tokens := by
  induction items with
  | nil => rfl
  | cons item rest ih => rw [itemTokens, ih, List.map_cons]

@[simp] lemma memberTokens_eq_map (members : List (String × Document)) :
    memberTokens members = members.map memberToken := by
  induction members with
  | nil => rfl
  | cons m rest ih => rw [memberTokens, ih, List.map_cons, memberToken]

@[simp] lemma itemValues_eq_map (items : List Document) : itemValues items = items.map value := by
  induction items with
  | nil => rfl
  | cons item rest ih => rw [itemValues, ih, List.map_cons]

@[simp] lemma memberValues_eq_map (members : List (String × Document)) :
    memberValues members = members.map entry := by
  induction members with
  | nil => rfl
  | cons m rest ih => rw [memberValues, ih, List.map_cons, entry]

lemma separated_concat (pieces : List (List Token)) (last : List Token) :
    separated (pieces ++ [last]) = followed pieces ++ last := by
  induction pieces with
  | nil => simp [separated, followed]
  | cons piece rest ih =>
    unfold separated followed at ih ⊢
    rw [List.cons_append, List.intercalate_cons_of_ne_nil (by simp), ih, List.flatMap_cons]
    simp

lemma followed_concat (pieces : List (List Token)) (last : List Token) :
    followed (pieces ++ [last]) = followed pieces ++ (last ++ [.mark ',']) := by
  unfold followed
  rw [List.flatMap_append, List.flatMap_singleton]

lemma tokens_list_concat (items : List Document) (last : Document) :
    (list (items ++ [last])).tokens =
      .mark '[' :: (followed (items.map tokens) ++ (last.tokens ++ [.mark ']'])) := by
  rw [tokens, itemTokens_eq_map, List.map_append, List.map_singleton, separated_concat,
    List.append_assoc]

lemma tokens_object_concat (members : List (String × Document)) (last : String × Document) :
    (object (members ++ [last])).tokens =
      .mark '\x7b' :: (followed (members.map memberToken) ++ (memberToken last ++ [.mark '\x7d'])) := by
  rw [tokens, memberTokens_eq_map, List.map_append, List.map_singleton, separated_concat,
    List.append_assoc]

lemma ofPairs_concat (members : List (String × Document)) (name : String) (d : Document) :
    Entries.ofPairs ((members ++ [(name, d)]).map entry) =
      (Entries.ofPairs (members.map entry)).insert (.str name) d.value := by
  rw [List.map_append, Entries.ofPairs, List.foldl_append]
  rfl

end Document

open Document

/-- A text that starts with no byte order mark and has the tokens of a document. -/
def Spells (text : List Char) (d : Document) : Prop :=
  text.head? ≠ some '\uFEFF' ∧ (scan text).map Prod.snd = d.tokens

/-! ## From documents to runs -/

/-- Some tokens take the machine from a state to another, wherever they stand, where there is no limit
on digits. -/
def RunsTo (s : State) (tokens : List Token) (s' : State) : Prop :=
  ∀ read : List (Nat × Token), read.map Prod.snd = tokens → read.foldlM (step none) s = .ok s'

lemma runsTo_nil (s : State) : RunsTo s [] s := by
  intro read hread
  rw [List.map_eq_nil_iff.mp hread]
  rfl

lemma runsTo_cons {s s' s'' : State} {t : Token} {tokens : List Token}
    (hstep : ∀ offset, step none s (offset, t) = .ok s') (h : RunsTo s' tokens s'') :
    RunsTo s (t :: tokens) s'' := by
  intro read hread
  obtain ⟨⟨offset, t'⟩, rest, rfl, rfl, hrest⟩ := List.map_eq_cons_iff.mp hread
  rw [List.foldlM_cons, hstep offset]
  exact h rest hrest

lemma RunsTo.append {s s' s'' : State} {tokens more : List Token} (h : RunsTo s tokens s')
    (h' : RunsTo s' more s'') : RunsTo s (tokens ++ more) s'' := by
  intro read hread
  obtain ⟨first, rest, rfl, hfirst, hrest⟩ := List.map_eq_append_iff.mp hread
  rw [List.foldlM_append, h first hfirst]
  exact h' rest hrest

lemma runsTo_single {s s' : State} {t : Token} (hstep : ∀ offset, step none s (offset, t) = .ok s') :
    RunsTo s [t] s' :=
  runsTo_cons hstep (runsTo_nil s')

/-- The machine reads a document wherever a value may start. -/
def IsRead (d : Document) : Prop :=
  ∀ s frames, ExpectsValue s frames → RunsTo s d.tokens (.complete d.value frames)

/-- Items with commas behind them are put into the open list. -/
lemma runsTo_items (items : List Document) (hitems : ∀ item ∈ items, IsRead item) (s : State)
    (before : List Value) (frames : List Frame) (hs : ExpectsValue s (.list before :: frames)) :
    ∃ s', ExpectsValue s' (.list ((items.map value).reverse ++ before) :: frames) ∧
      RunsTo s (followed (items.map tokens)) s' := by
  induction items generalizing s before with
  | nil => exact ⟨s, hs, runsTo_nil s⟩
  | cons item rest ih =>
    rw [List.forall_mem_cons] at hitems
    have hcomma : RunsTo (.complete item.value (.list before :: frames)) [.mark ',']
        (.value (.list (item.value :: before) :: frames)) := runsTo_single fun _ => rfl
    obtain ⟨s', hs', hrest⟩ := ih hitems.2 _ _ (.value _)
    refine ⟨s', ?_, ?_⟩
    · simpa using hs'
    · exact ((hitems.1 s _ hs).append hcomma).append hrest

/-- A member is read wherever a name may start. -/
lemma runsTo_member (m : String × Document) (hm : IsRead m.2) (s : State) (before : Entries)
    (frames : List Frame) (hs : ExpectsName frames before s) :
    RunsTo s (memberToken m) (.complete m.2.value (.object before m.1 :: frames)) := by
  have hname : ∀ offset, step none s (offset, .string m.1) = .ok (.colon before m.1 frames) := by
    intro offset
    cases hs <;> rfl
  have hvalue := hm (.value (.object before m.1 :: frames)) _ (.value _)
  exact runsTo_cons hname (runsTo_cons (fun _ => rfl) hvalue)

/-- Members with commas behind them are put into the open object. -/
lemma runsTo_members (members : List (String × Document)) (hmembers : ∀ m ∈ members, IsRead m.2)
    (s : State) (before : Entries) (frames : List Frame) (hs : ExpectsName frames before s) :
    ∃ s', ExpectsName frames
        ((members.map entry).foldl (fun entries e => entries.insert e.1 e.2) before) s' ∧
      RunsTo s (followed (members.map memberToken)) s' := by
  induction members generalizing s before with
  | nil => exact ⟨s, hs, runsTo_nil s⟩
  | cons m rest ih =>
    rw [List.forall_mem_cons] at hmembers
    have hcomma : RunsTo (.complete m.2.value (.object before m.1 :: frames)) [.mark ',']
        (.name (before.insert (.str m.1) m.2.value) frames) := runsTo_single fun _ => rfl
    obtain ⟨s', hs', hrest⟩ := ih hmembers.2 _ _ (.name _)
    exact ⟨s', hs', ((runsTo_member m hmembers.1 s before frames hs).append hcomma).append hrest⟩

lemma isRead_list (items : List Document) (hitems : ∀ item ∈ items, IsRead item) :
    IsRead (.list items) := by
  intro s frames hs
  have hopen : ∀ offset, step none s (offset, .mark '[') = .ok (.firstItem frames) := by
    intro offset
    cases hs <;> rfl
  rw [value, itemValues_eq_map]
  rcases List.eq_nil_or_concat items with rfl | ⟨init, last, rfl⟩
  · exact runsTo_cons hopen (runsTo_single fun _ => rfl)
  · rw [List.concat_eq_append, List.forall_mem_append, List.forall_mem_singleton] at hitems
    rw [List.concat_eq_append, tokens_list_concat]
    obtain ⟨s', hs', hinit⟩ := runsTo_items init hitems.1 _ [] frames (.firstItem frames)
    have hlast := hitems.2 s' _ hs'
    have hclose : RunsTo (.complete last.value (.list ((init.map value).reverse ++ []) :: frames))
        [.mark ']'] (.complete (.list ((init ++ [last]).map value)) frames) := by
      apply runsTo_single
      intro offset
      simp [step, closeValue]
    exact runsTo_cons hopen (hinit.append (hlast.append hclose))

lemma isRead_object (members : List (String × Document)) (hmembers : ∀ m ∈ members, IsRead m.2) :
    IsRead (.object members) := by
  intro s frames hs
  have hopen : ∀ offset, step none s (offset, .mark '\x7b') = .ok (.firstName frames) := by
    intro offset
    cases hs <;> rfl
  rw [value, memberValues_eq_map]
  rcases List.eq_nil_or_concat members with rfl | ⟨init, ⟨name, d⟩, rfl⟩
  · exact runsTo_cons hopen (runsTo_single fun _ => rfl)
  · rw [List.concat_eq_append, List.forall_mem_append, List.forall_mem_singleton] at hmembers
    rw [List.concat_eq_append, tokens_object_concat, ofPairs_concat]
    obtain ⟨s', hs', hinit⟩ := runsTo_members init hmembers.1 _ [] frames .firstName
    have hlast := runsTo_member (name, d) hmembers.2 s' _ frames hs'
    exact runsTo_cons hopen (hinit.append (hlast.append (runsTo_single fun _ => rfl)))

mutual

lemma isRead (d : Document) : IsRead d := by
  match d with
  | .scalar v =>
    intro s frames hs
    apply runsTo_single
    intro offset
    cases hs <;> exact startValue_scalar _ offset v (longInteger?_none v)
  | .string text =>
    intro s frames hs
    apply runsTo_single
    intro offset
    cases hs <;> rfl
  | .list items => exact isRead_list items (isRead_items items)
  | .object members => exact isRead_object members (isRead_members members)

lemma isRead_items (items : List Document) : ∀ item ∈ items, IsRead item := by
  match items with
  | [] => simp
  | item :: rest => exact List.forall_mem_cons.mpr ⟨isRead item, isRead_items rest⟩

lemma isRead_members (members : List (String × Document)) : ∀ m ∈ members, IsRead m.2 := by
  match members with
  | [] => simp
  | (name, d) :: rest => exact List.forall_mem_cons.mpr ⟨isRead d, isRead_members rest⟩

end

/-! ## From runs to documents -/

/-- The tokens that have opened the frames, with what is complete in them. -/
inductive Opened : List Frame → List Token → Prop
  | nil : Opened [] []
  | list (items : List Document) (frames : List Frame) (tokens : List Token) :
      Opened frames tokens → Opened (.list (items.map value).reverse :: frames)
        (tokens ++ .mark '[' :: followed (items.map Document.tokens))
  | object (members : List (String × Document)) (name : String) (frames : List Frame)
      (tokens : List Token) : Opened frames tokens →
      Opened (.object (Entries.ofPairs (members.map entry)) name :: frames)
        (tokens ++ .mark '\x7b' :: (followed (members.map memberToken) ++ [.string name, .mark ':']))

/-- The tokens that take the machine to a state. -/
inductive Reached : State → List Token → Prop
  | value (frames : List Frame) (tokens : List Token) : Opened frames tokens →
      Reached (.value frames) tokens
  | firstItem (frames : List Frame) (tokens : List Token) : Opened frames tokens →
      Reached (.firstItem frames) (tokens ++ [.mark '['])
  | firstName (frames : List Frame) (tokens : List Token) : Opened frames tokens →
      Reached (.firstName frames) (tokens ++ [.mark '\x7b'])
  | name (members : List (String × Document)) (frames : List Frame) (tokens : List Token) :
      Opened frames tokens → Reached (.name (Entries.ofPairs (members.map entry)) frames)
        (tokens ++ .mark '\x7b' :: followed (members.map memberToken))
  | colon (members : List (String × Document)) (name : String) (frames : List Frame)
      (tokens : List Token) : Opened frames tokens →
      Reached (.colon (Entries.ofPairs (members.map entry)) name frames)
        (tokens ++ .mark '\x7b' :: (followed (members.map memberToken) ++ [.string name]))
  | complete (d : Document) (frames : List Frame) (tokens : List Token) : Opened frames tokens →
      Reached (.complete d.value frames) (tokens ++ d.tokens)
  /-- Nothing is read from tokens with a string that is no text. -/
  | halved (s : State) (tokens : List Token) : Reached (.halved s) tokens

lemma startValue_reached (frames : List Frame) (tokens : List Token) (offset : Nat) (t : Token)
    (s : State) (hframes : Opened frames tokens) (h : startValue none frames offset t = .ok s) :
    Reached s (tokens ++ [t]) := by
  unfold startValue at h
  split at h
  · next v =>
    rw [longInteger?_none] at h
    obtain rfl := Except.ok.inj h
    exact .complete (.scalar v) frames tokens hframes
  · next text =>
    obtain rfl := Except.ok.inj h
    exact .complete (.string text) frames tokens hframes
  · obtain rfl := Except.ok.inj h
    exact .halved _ _
  · cases h
  · obtain rfl := Except.ok.inj h
    exact .firstItem frames tokens hframes
  · obtain rfl := Except.ok.inj h
    exact .firstName frames tokens hframes
  · cases h

lemma startName_reached (members : List (String × Document)) (frames : List Frame)
    (tokens : List Token) (offset : Nat) (t : Token) (s : State) (hframes : Opened frames tokens)
    (h : startName (Entries.ofPairs (members.map entry)) frames offset t = .ok s) :
    Reached s (tokens ++ .mark '\x7b' :: (followed (members.map memberToken) ++ [t])) := by
  unfold startName at h
  split at h
  · next name =>
    obtain rfl := Except.ok.inj h
    exact .colon members name frames tokens hframes
  · obtain rfl := Except.ok.inj h
    exact .halved _ _
  · cases h
  · cases h

lemma closeValue_list (v : Value) (offset : Nat) (before : List Value) (frames : List Frame)
    (t : Token) (s : State) (h : closeValue v offset (.list before :: frames) t = .ok s) :
    t = .mark ',' ∧ s = .value (.list (v :: before) :: frames) ∨
      t = .mark ']' ∧ s = .complete (.list (v :: before).reverse) frames := by
  unfold closeValue at h
  split at h
  · next heq => cases heq
  · next heq =>
    cases heq
    exact .inl ⟨rfl, (Except.ok.inj h).symm⟩
  · next heq =>
    cases heq
    exact .inr ⟨rfl, (Except.ok.inj h).symm⟩
  · next heq => cases heq
  · next heq => cases heq
  · cases h

lemma closeValue_object (v : Value) (offset : Nat) (before : Entries) (name : String)
    (frames : List Frame) (t : Token) (s : State)
    (h : closeValue v offset (.object before name :: frames) t = .ok s) :
    t = .mark ',' ∧ s = .name (before.insert (.str name) v) frames ∨
      t = .mark '\x7d' ∧ s = .complete (.dict (before.insert (.str name) v)) frames := by
  unfold closeValue at h
  split at h
  · next heq => cases heq
  · next heq => cases heq
  · next heq => cases heq
  · next heq =>
    cases heq
    exact .inl ⟨rfl, (Except.ok.inj h).symm⟩
  · next heq =>
    cases heq
    exact .inr ⟨rfl, (Except.ok.inj h).symm⟩
  · cases h

/-- The token behind a complete value puts it into the innermost list or object that is open. -/
lemma closeValue_reached (d : Document) (frames : List Frame) (tokens : List Token) (offset : Nat)
    (t : Token) (s : State) (hframes : Opened frames tokens)
    (h : closeValue d.value offset frames t = .ok s) : Reached s (tokens ++ d.tokens ++ [t]) := by
  cases hframes with
  | nil => cases h
  | list items frames tokens hframes =>
    have hadd : d.value :: (items.map value).reverse = ((items ++ [d]).map value).reverse := by simp
    rcases closeValue_list _ _ _ _ _ _ h with ⟨rfl, rfl⟩ | ⟨rfl, rfl⟩
    · have hopen := Opened.list (items ++ [d]) frames tokens hframes
      have hpieces : (items ++ [d]).map Document.tokens = items.map Document.tokens ++ [d.tokens] :=
        List.map_append
      rw [hpieces, followed_concat] at hopen
      rw [hadd]
      simpa using Reached.value _ _ hopen
    · have hdone := Reached.complete (.list (items ++ [d])) frames tokens hframes
      rw [tokens_list_concat, value, itemValues_eq_map] at hdone
      rw [hadd, List.reverse_reverse]
      simpa using hdone
  | object members name frames tokens hframes =>
    rcases closeValue_object _ _ _ _ _ _ _ h with ⟨rfl, rfl⟩ | ⟨rfl, rfl⟩
    · have hname := Reached.name (members ++ [(name, d)]) frames tokens hframes
      rw [ofPairs_concat, List.map_append, List.map_singleton, followed_concat, memberToken] at hname
      simpa using hname
    · have hdone := Reached.complete (.object (members ++ [(name, d)])) frames tokens hframes
      rw [tokens_object_concat, value, memberValues_eq_map, ofPairs_concat, memberToken] at hdone
      simpa using hdone

/-- One token more. -/
lemma step_reached (s s' : State) (tokens : List Token) (t : Nat × Token) (hs : Reached s tokens)
    (h : step none s t = .ok s') : Reached s' (tokens ++ [t.2]) := by
  unfold step at h
  split at h
  · cases hs with
    | value _ _ hframes => exact startValue_reached _ _ _ _ _ hframes h
  · obtain rfl := Except.ok.inj h
    cases hs with
    | firstItem _ _ hframes =>
      simpa [Document.tokens, value, separated] using Reached.complete (.list []) _ _ hframes
  · cases hs with
    | firstItem _ _ hframes =>
      exact startValue_reached _ _ _ _ _ (.list [] _ _ hframes) h
  · obtain rfl := Except.ok.inj h
    cases hs with
    | firstName _ _ hframes =>
      simpa [Document.tokens, value, separated, Entries.ofPairs] using
        Reached.complete (.object []) _ _ hframes
  · cases hs with
    | firstName _ _ hframes =>
      simpa [followed] using startName_reached [] _ _ _ _ _ hframes h
  · cases hs with
    | name members _ _ hframes =>
      simpa using startName_reached members _ _ _ _ _ hframes h
  · obtain rfl := Except.ok.inj h
    cases hs with
    | colon members _ _ _ hframes =>
      simpa using Reached.value _ _ (.object members _ _ _ hframes)
  · cases h
  · cases hs with
    | complete d _ _ hframes => exact closeValue_reached d _ _ _ _ _ hframes h
  · obtain ⟨next, -, rfl⟩ := ok_of_map h
    exact .halved next _

/-- A run, by induction on the tokens that are left. -/
lemma run_reached (s s' : State) (tokens : List Token) (rest : List (Nat × Token))
    (hs : Reached s tokens) (h : rest.foldlM (step none) s = .ok s') :
    Reached s' (tokens ++ rest.map Prod.snd) := by
  induction rest generalizing s tokens with
  | nil =>
    obtain rfl := Except.ok.inj h
    rwa [List.map_nil, List.append_nil]
  | cons t rest ih =>
    rw [List.foldlM_cons] at h
    obtain ⟨next, hnext, h⟩ := ok_of_bind h
    have hrest := ih next _ (step_reached s next tokens t hs hnext) h
    rwa [List.append_assoc, List.singleton_append, ← List.map_cons] at hrest

/-- The machine accepts exactly the tokens of documents. -/
theorem read_none_iff (text : List Char) (v : Value) :
    Json.read none text = .ok v ↔
      ∃ d : Document, (scan text).map Prod.snd = d.tokens ∧ d.value = v := by
  unfold Json.read
  constructor
  · intro h
    obtain ⟨s, hs, h⟩ := ok_of_bind h
    have hreached := run_reached _ s [] _ (.value [] [] .nil) hs
    obtain rfl := eq_complete_of_finish text.length s v h
    generalize hread : [] ++ (scan text).map Prod.snd = read at hreached
    cases hreached with
    | complete d _ tokens hframes =>
      cases hframes
      exact ⟨d, hread, rfl⟩
  · rintro ⟨d, htokens, rfl⟩
    rw [isRead d _ [] (.value []) _ htokens]
    rfl

/-! ## Limits on digits -/

/-- No integer of a document has more digits than a limit. -/
def Document.IsWithin (limit : Option Nat) (d : Document) : Prop :=
  ∀ n, .scalar (.int n) ∈ d.tokens → IsShort limit n

lemma step_int (limit : Option Nat) (s s' : State) (offset : Nat) (n : Int) :
    step limit s (offset, .scalar (.int n)) = .ok s' ↔
      step none s (offset, .scalar (.int n)) = .ok s' ∧ IsShort limit n := by
  have hstart (frames : List Frame) (s' : State) :
      startValue limit frames offset (.scalar (.int n)) = .ok s' ↔
        startValue none frames offset (.scalar (.int n)) = .ok s' ∧ IsShort limit n := by
    rw [← exceeded?_eq_none_iff, startValue, startValue, longInteger?_none, longInteger?]
    cases exceeded? limit n <;> simp
  induction s generalizing s' with
  | value frames => exact hstart frames s'
  | firstItem frames => exact hstart (.list [] :: frames) s'
  | complete v frames =>
    have hclose : closeValue v offset frames (.scalar (.int n)) ≠ .ok s' := by
      unfold closeValue
      split <;> simp_all
    exact ⟨fun h => absurd h hclose, fun h => absurd h.1 hclose⟩
  | halved s ih =>
    constructor
    · intro h
      obtain ⟨next, hnext, rfl⟩ := ok_of_map h
      obtain ⟨hfree, hshort⟩ := (ih next).mp hnext
      exact ⟨by rw [step, hfree]; rfl, hshort⟩
    · rintro ⟨h, hshort⟩
      obtain ⟨next, hnext, rfl⟩ := ok_of_map h
      rw [step, (ih next).mpr ⟨hnext, hshort⟩]
      rfl
  | firstName | name | colon => simp [step, startName]

lemma step_of_ne_int (limit : Option Nat) (s : State) (t : Nat × Token)
    (h : ∀ n, t.2 ≠ .scalar (.int n)) : step limit s t = step none s t := by
  have hstart (frames : List Frame) :
      startValue limit frames t.1 t.2 = startValue none frames t.1 t.2 := by
    obtain ⟨offset, token⟩ := t
    cases token with
    | scalar v =>
      cases v with
      | int n => exact absurd rfl (h n)
      | _ => rfl
    | mark c =>
      unfold startValue
      split <;> simp_all
    | _ => rfl
  induction s with
  | value frames => exact hstart frames
  | name | complete => rfl
  | halved s ih => rw [step, step, ih]
  | firstItem | firstName | colon =>
    unfold step
    split <;> simp_all

lemma step_iff_none (limit : Option Nat) (s s' : State) (t : Nat × Token) :
    step limit s t = .ok s' ↔
      step none s t = .ok s' ∧ ∀ n, t.2 = .scalar (.int n) → IsShort limit n := by
  obtain ⟨offset, token⟩ := t
  by_cases h : ∃ n, token = .scalar (.int n)
  · obtain ⟨n, rfl⟩ := h
    rw [step_int]
    refine and_congr_right fun _ => ⟨fun hshort m hm => ?_, fun hshort => hshort n rfl⟩
    cases hm
    exact hshort
  · rw [not_exists] at h
    rw [step_of_ne_int limit s _ h]
    exact ⟨fun hstep => ⟨hstep, fun n hn => absurd hn (h n)⟩, fun hstep => hstep.1⟩

/-- A run within a limit is one without a limit over integers that are short enough, by induction on
the tokens. -/
lemma run_iff_none (limit : Option Nat) (s s' : State) (read : List (Nat × Token)) :
    read.foldlM (step limit) s = .ok s' ↔ read.foldlM (step none) s = .ok s' ∧
      ∀ n, .scalar (.int n) ∈ read.map Prod.snd → IsShort limit n := by
  induction read generalizing s with
  | nil => simp
  | cons t rest ih =>
    simp only [List.foldlM_cons, List.map_cons, List.mem_cons]
    constructor
    · intro h
      obtain ⟨next, hnext, h⟩ := ok_of_bind h
      obtain ⟨hstep, hshort⟩ := (step_iff_none limit s next t).mp hnext
      obtain ⟨hrest, hshorts⟩ := (ih next).mp h
      rw [hstep]
      exact ⟨hrest, fun n hn => hn.elim (fun heq => hshort n heq.symm) (hshorts n)⟩
    · rintro ⟨h, hshort⟩
      obtain ⟨next, hnext, h⟩ := ok_of_bind h
      rw [(step_iff_none limit s next t).mpr ⟨hnext, fun n hn => hshort n (.inl hn.symm)⟩]
      exact (ih next).mpr ⟨h, fun n hn => hshort n (.inr hn)⟩

/-- A text is read within a limit as it is without one, unless an integer in it is too long. -/
theorem read_iff_none (limit : Option Nat) (text : List Char) (v : Value) :
    Json.read limit text = .ok v ↔ Json.read none text = .ok v ∧
      ∀ n, .scalar (.int n) ∈ (scan text).map Prod.snd → IsShort limit n := by
  unfold Json.read
  constructor
  · intro h
    obtain ⟨s, hs, h⟩ := ok_of_bind h
    obtain ⟨hrun, hshort⟩ := (run_iff_none limit _ s _).mp hs
    rw [hrun]
    exact ⟨h, hshort⟩
  · rintro ⟨h, hshort⟩
    obtain ⟨s, hs, h⟩ := ok_of_bind h
    rw [(run_iff_none limit _ s _).mpr ⟨hs, hshort⟩]
    exact h

/-- A text that is read spells a document whose integers are no longer than the limit, and is read as
its value. -/
theorem decode_iff_spells (c : Codec) (t : String) (v : Value) :
    c.decode (.str t) = .ok v ↔ ∃ d, Spells t.toList d ∧ d.IsWithin c.digits ∧ d.value = v := by
  have hread : c.decode (.str t) = .ok v ↔ readUnmarked c.digits t.toList = .ok v :=
    ok_of_mapError
  rw [hread]
  unfold readUnmarked Spells
  split
  · next hmark => simp [hmark]
  · next hmark =>
    rw [read_iff_none, read_none_iff]
    constructor
    · rintro ⟨⟨d, htokens, hvalue⟩, hshort⟩
      exact ⟨d, ⟨hmark, htokens⟩, fun n hn => hshort n (htokens ▸ hn), hvalue⟩
    · rintro ⟨d, ⟨-, htokens⟩, hwithin, hvalue⟩
      exact ⟨⟨d, htokens, hvalue⟩, fun n hn => hwithin n (htokens ▸ hn)⟩

/-! ## Members of one name -/

namespace Document

/-- Puts a document under a name, in place of the one that is there or behind all members. -/
def put (name : String) (d : Document) : List (String × Document) → List (String × Document)
  | [] => [(name, d)]
  | (name', d') :: rest => if name' = name then (name', d) :: rest else (name', d') :: put name d rest

/-- The last member of each name, in the place of the first one. -/
def lastOfName (members : List (String × Document)) : List (String × Document) :=
  members.foldl (fun kept m => put m.1 m.2 kept) []

mutual

/-- The document without the members that have a later one of their name. -/
def kept : Document → Document
  | scalar v => scalar v
  | string s => string s
  | list items => list (keptItems items)
  | object members => object (lastOfName (keptMembers members))

def keptItems : List Document → List Document
  | [] => []
  | item :: rest => item.kept :: keptItems rest

def keptMembers : List (String × Document) → List (String × Document)
  | [] => []
  | (name, d) :: rest => (name, d.kept) :: keptMembers rest

end

/-- Documents whose objects name each of their members once. -/
inductive HasDistinctNames : Document → Prop
  | scalar (v : Value) : HasDistinctNames (.scalar v)
  | string (s : String) : HasDistinctNames (.string s)
  | list (items : List Document) : (∀ item ∈ items, HasDistinctNames item) →
      HasDistinctNames (.list items)
  | object (members : List (String × Document)) : (members.map Prod.fst).Nodup →
      (∀ m ∈ members, HasDistinctNames m.2) → HasDistinctNames (.object members)

lemma map_entry_put (name : String) (d : Document) (members : List (String × Document)) :
    (put name d members).map entry = Entries.insert (members.map entry) (.str name) d.value := by
  induction members with
  | nil => rfl
  | cons m rest ih =>
    obtain ⟨name', d'⟩ := m
    have hequal : (Value.str name').equal (.str name) = true ↔ name' = name := by
      rw [equal_of_text? (.str name') (.str name) name' rfl, beq_iff_eq]
      exact ⟨fun h => (Option.some.inj h).symm, fun h => congrArg some h.symm⟩
    rw [put, List.map_cons, entry, Entries.insert]
    by_cases h : name' = name
    · rw [if_pos h, if_pos (hequal.mpr h)]
      rfl
    · rw [if_neg h, if_neg (mt hequal.mp h), List.map_cons, ih]
      rfl

lemma mem_put (name : String) (d : Document) (members : List (String × Document))
    (m : String × Document) (h : m ∈ put name d members) : m = (name, d) ∨ m ∈ members := by
  induction members with
  | nil => exact .inl (List.mem_singleton.mp h)
  | cons m' rest ih =>
    obtain ⟨name', d'⟩ := m'
    rw [put] at h
    split at h
    · next heq =>
      subst heq
      exact (List.mem_cons.mp h).imp_right (List.mem_cons_of_mem _)
    · rcases List.mem_cons.mp h with rfl | h
      · exact .inr List.mem_cons_self
      · exact (ih h).imp_right (List.mem_cons_of_mem _)

lemma mem_names_put (name : String) (d : Document) (members : List (String × Document)) (n : String) :
    n ∈ (put name d members).map Prod.fst ↔ n = name ∨ n ∈ members.map Prod.fst := by
  induction members with
  | nil => simp [put]
  | cons m rest ih =>
    obtain ⟨name', d'⟩ := m
    rw [put]
    split
    · next heq =>
      subst heq
      simp
    · rw [List.map_cons, List.mem_cons, ih, List.map_cons, List.mem_cons]
      tauto

lemma nodup_put (name : String) (d : Document) (members : List (String × Document))
    (h : (members.map Prod.fst).Nodup) : ((put name d members).map Prod.fst).Nodup := by
  induction members with
  | nil => exact List.nodup_singleton _
  | cons m rest ih =>
    obtain ⟨name', d'⟩ := m
    rw [List.map_cons, List.nodup_cons] at h
    rw [put]
    split
    · rw [List.map_cons, List.nodup_cons]
      exact h
    · next hne =>
      rw [List.map_cons, List.nodup_cons, mem_names_put]
      exact ⟨not_or.mpr ⟨hne, h.1⟩, ih h.2⟩

/-- A fact about members that putting one more keeps holds of the last ones of each name, by induction
on the members from the back. -/
lemma lastOfName_induction {P : List (String × Document) → List (String × Document) → Prop}
    (hnil : P [] [])
    (hput : ∀ members kept m, P members kept → P (members ++ [m]) (put m.1 m.2 kept))
    (members : List (String × Document)) : P members (lastOfName members) := by
  induction members using List.reverseRecOn with
  | nil => exact hnil
  | append_singleton members m ih =>
    unfold lastOfName at ih ⊢
    rw [List.foldl_append]
    exact hput members _ m ih

lemma nodup_lastOfName (members : List (String × Document)) :
    ((lastOfName members).map Prod.fst).Nodup :=
  lastOfName_induction (P := fun _ kept => (kept.map Prod.fst).Nodup) List.nodup_nil
    (fun _ _ m h => nodup_put m.1 m.2 _ h) members

lemma mem_names_lastOfName (members : List (String × Document)) (n : String) :
    n ∈ (lastOfName members).map Prod.fst ↔ n ∈ members.map Prod.fst := by
  refine lastOfName_induction
    (P := fun members kept => n ∈ kept.map Prod.fst ↔ n ∈ members.map Prod.fst) Iff.rfl ?_ members
  intro members kept m h
  rw [mem_names_put, h, List.map_append, List.mem_append, List.map_singleton, List.mem_singleton]
  exact or_comm

lemma mem_of_mem_lastOfName (members : List (String × Document)) :
    ∀ m ∈ lastOfName members, m ∈ members := by
  refine lastOfName_induction (P := fun members kept => ∀ m ∈ kept, m ∈ members) (by simp) ?_ members
  intro members kept m h m' hm'
  rcases mem_put m.1 m.2 kept m' hm' with rfl | hm'
  · exact List.mem_append_right _ List.mem_cons_self
  · exact List.mem_append_left _ (h m' hm')

/-- The mapping that an object is read as has an entry for the last member of each name. -/
lemma ofPairs_entries (members : List (String × Document)) :
    Entries.ofPairs (members.map entry) = (lastOfName members).map entry := by
  refine lastOfName_induction
    (P := fun members kept => Entries.ofPairs (members.map entry) = kept.map entry) rfl ?_ members
  rintro members kept ⟨name, d⟩ h
  rw [ofPairs_concat, h, map_entry_put]

lemma value_object (members : List (String × Document)) :
    (object members).value = .dict ((lastOfName members).map entry) := by
  rw [value, memberValues_eq_map, ofPairs_entries]

@[simp] lemma keptItems_eq_map (items : List Document) : keptItems items = items.map kept := by
  induction items with
  | nil => rfl
  | cons item rest ih => rw [keptItems, ih, List.map_cons]

@[simp] lemma keptMembers_eq_map (members : List (String × Document)) :
    keptMembers members = members.map fun m => (m.1, m.2.kept) := by
  induction members with
  | nil => rfl
  | cons m rest ih => rw [keptMembers, ih, List.map_cons]

lemma hasDistinctNames_lastOfName (members : List (String × Document))
    (h : ∀ m ∈ members, HasDistinctNames m.2) : HasDistinctNames (.object (lastOfName members)) :=
  .object _ (nodup_lastOfName members) fun m hm => h m (mem_of_mem_lastOfName members m hm)

mutual

/-- What is kept of a document has no two members of one name in any object. -/
lemma hasDistinctNames_kept (d : Document) : HasDistinctNames d.kept := by
  match d with
  | .scalar v => exact .scalar v
  | .string s => exact .string s
  | .list items =>
    rw [kept]
    exact .list _ (hasDistinctNames_keptItems items)
  | .object members =>
    rw [kept]
    exact hasDistinctNames_lastOfName _ (hasDistinctNames_keptMembers members)

lemma hasDistinctNames_keptItems (items : List Document) :
    ∀ item ∈ keptItems items, HasDistinctNames item := by
  match items with
  | [] => simp
  | item :: rest =>
    rw [keptItems, List.forall_mem_cons]
    exact ⟨hasDistinctNames_kept item, hasDistinctNames_keptItems rest⟩

lemma hasDistinctNames_keptMembers (members : List (String × Document)) :
    ∀ m ∈ keptMembers members, HasDistinctNames m.2 := by
  match members with
  | [] => simp
  | (name, d) :: rest =>
    rw [keptMembers, List.forall_mem_cons]
    exact ⟨hasDistinctNames_kept d, hasDistinctNames_keptMembers rest⟩

end

lemma ofPairs_of_distinct (members : List (String × Document)) (h : (members.map Prod.fst).Nodup) :
    Entries.ofPairs (members.map entry) = members.map entry := by
  have hpairs := ofPairs_of_nodup (members.map fun m => (m.1, m.2.value)) (by rwa [List.map_map])
  rw [List.map_map] at hpairs
  exact hpairs

mutual

/-- A document is read as what is kept of it. -/
lemma value_kept (d : Document) : d.kept.value = d.value := by
  match d with
  | .scalar v => rfl
  | .string s => rfl
  | .list items => rw [kept, value, value, itemValues_keptItems]
  | .object members =>
    rw [kept, value, memberValues_eq_map, ofPairs_of_distinct _ (nodup_lastOfName _),
      ← ofPairs_entries, ← memberValues_eq_map, memberValues_keptMembers, value]

lemma itemValues_keptItems (items : List Document) : itemValues (keptItems items) = itemValues items := by
  match items with
  | [] => rfl
  | item :: rest => rw [keptItems, itemValues, itemValues, value_kept item, itemValues_keptItems rest]

lemma memberValues_keptMembers (members : List (String × Document)) :
    memberValues (keptMembers members) = memberValues members := by
  match members with
  | [] => rfl
  | (name, d) :: rest =>
    rw [keptMembers, memberValues, memberValues, value_kept d, memberValues_keptMembers rest]

end

end Document

end Rulebook.Proofs
