import Mathlib
import Rulebook.Json.Codec
import Rulebook.Proofs.Json.Scalar
import Rulebook.Proofs.Outcome
import Rulebook.Proofs.Value.Sorting

/-!
# What a written value reads as

`reading` is the value that the text of a value stands for: sequences of every kind are lists, names
are texts and the token for no value has its written form. Whatever is written, in any layout with
blank indentation, reads back as that value.
-/

namespace Rulebook.Proofs
open Json

/-- The name of a member as a text. -/
def nameText (key : Value) : String :=
  match memberName none key with
  | .ok name => String.ofList name
  | .error _ => ""

/-- Members in the order in which a layout writes them. -/
def ordered {α : Type} (layout : Layout) (members : List (Value × α)) : List (Value × α) :=
  if layout.sorted then
    match sortBy (fun a b => Value.before a.1 b.1) members with
    | .ok sorted => sorted
    | .error _ => members
  else members

mutual

/-- What the text of a value reads as. -/
def reading (layout : Layout) : Value → Value
  | .list items => .list (readings layout items)
  | .tuple items => .list (readings layout items)
  | .node tag payload => .list [reading layout tag, reading layout payload]
  | .dict entries => .dict (Entries.ofPairs
      ((ordered layout (memberReadings layout entries)).map fun (key, v) => (.str (nameText key), v)))
  | .undefined => if layout.emptyObject then .dict [] else .str "Undefined"
  | .member (.str s) => .str s
  | v => v

/-- What the texts of items read as. -/
def readings (layout : Layout) : List Value → List Value
  | [] => []
  | item :: rest => reading layout item :: readings layout rest

/-- The keys of a mapping with what the texts of its values read as. -/
def memberReadings (layout : Layout) : Entries → List (Value × Value)
  | [] => []
  | (key, v) :: rest => (key, reading layout v) :: memberReadings layout rest

end

@[simp] lemma readings_eq_map (layout : Layout) (items : List Value) :
    readings layout items = items.map (reading layout) := by
  induction items with
  | nil => rfl
  | cons item rest ih => rw [readings, ih, List.map_cons]

@[simp] lemma memberReadings_eq_map (layout : Layout) (entries : Entries) :
    memberReadings layout entries = entries.map fun e => (e.1, reading layout e.2) := by
  induction entries with
  | nil => rfl
  | cons e rest ih => rw [memberReadings, ih, List.map_cons]

lemma ordered_map {α β : Type} (layout : Layout) (f : α → β) (members : List (Value × α)) :
    ordered layout (members.map fun e => (e.1, f e.2)) =
      (ordered layout members).map fun e => (e.1, f e.2) := by
  unfold ordered
  split
  · rw [sortBy_map]
    cases sortBy (fun a b : Value × α => Value.before a.1 b.1) members <;> rfl
  · rfl

lemma sortBy_of_orderMembers (layout : Layout) (members result : List (Value × Written))
    (hsorted : layout.sorted = true) (h : orderMembers layout members = .ok result) :
    sortBy (fun a b : Value × Written => a.1.before b.1) members = .ok result := by
  unfold orderMembers at h
  rw [if_pos hsorted] at h
  exact ok_of_mapError.mp h

lemma ordered_of_orderMembers (layout : Layout) (members result : List (Value × Written))
    (h : orderMembers layout members = .ok result) : ordered layout members = result := by
  unfold ordered
  split
  · next hsorted => rw [sortBy_of_orderMembers layout members result hsorted h]
  · next hunsorted =>
    unfold orderMembers at h
    rw [if_neg hunsorted] at h
    exact Except.ok.inj h

/-- A layout that indents with blanks only. -/
def IsBlankLayout (layout : Layout) : Prop :=
  ∀ indent, layout.indent = some indent → ∀ c ∈ indent, isSpace c = true

/-! ## Runs of the reader -/

/-- The state after reading a text from an offset on. -/
def run (limit : Option Nat) (s : State) (offset : Nat) (cs : List Char) : Except Flaw State :=
  (scanFrom 0 offset cs).foldlM (step limit) s

section Runs

variable {limit : Option Nat}

lemma run_spaces (s : State) (offset : Nat) (cs rest : List Char)
    (h : ∀ c ∈ cs, isSpace c = true) :
    run limit s offset (cs ++ rest) = run limit s (offset + cs.length) rest := by
  unfold run
  rw [scanFrom_spaces cs rest offset h]

lemma run_lexes (s s' : State) (t : Token) (offset : Nat) (text rest : List Char)
    (h : Lexes text t) (hrest : Ends rest) (hstep : ∀ o, step limit s (o, t) = .ok s') :
    run limit s offset (text ++ rest) = run limit s' (offset + text.length) rest := by
  unfold run
  rw [h offset rest hrest, List.foldlM_cons, hstep]
  rfl

lemma run_mark (s s' : State) (c : Char) (offset : Nat) (rest : List Char)
    (hs : isSpace c = false) (hc : isMark c = true)
    (hstep : ∀ o, step limit s (o, .mark c) = .ok s') :
    run limit s offset (c :: rest) = run limit s' (offset + 1) rest := by
  unfold run
  rw [scanFrom, if_neg (by simp [hs])]
  unfold token
  rw [if_pos hc]
  dsimp only
  rw [List.foldlM_cons, hstep]
  rfl

/-- A state in which a value may start, with the frames that are open then. -/
inductive ExpectsValue : State → List Frame → Prop
  | value (frames : List Frame) : ExpectsValue (.value frames) frames
  | firstItem (frames : List Frame) : ExpectsValue (.firstItem frames) (.list [] :: frames)

/-- A state in which the name of a member may start, with the members before it. -/
inductive ExpectsName (frames : List Frame) : Entries → State → Prop
  | name (before : Entries) : ExpectsName frames before (.name before frames)
  | firstName : ExpectsName frames [] (.firstName frames)

/-- A text that is read as a value wherever one may start. -/
def Reads (limit : Option Nat) (text : List Char) (v : Value) : Prop :=
  ∀ s frames offset rest, ExpectsValue s frames → Ends rest →
    run limit s offset (text ++ rest) = run limit (.complete v frames) (offset + text.length) rest

lemma longInteger?_none (v : Value) : longInteger? none v = none := by
  cases v <;> rfl

lemma startValue_scalar (frames : List Frame) (offset : Nat) (v : Value)
    (h : longInteger? limit v = none) :
    startValue limit frames offset (.scalar v) = .ok (.complete v frames) := by
  rw [startValue, h]

lemma reads_scalar (text : List Char) (v : Value) (h : Lexes text (.scalar v))
    (hshort : longInteger? limit v = none) : Reads limit text v := by
  intro s frames offset rest hs hrest
  apply run_lexes s _ _ offset text rest h hrest
  intro o
  cases hs <;> exact startValue_scalar _ o v hshort

lemma reads_int (n : Int) (h : IsShort limit n) : Reads limit (integerText n) (.int n) := by
  refine reads_scalar _ _ (lexes_integerText n) ?_
  rw [longInteger?, (exceeded?_eq_none_iff limit n).mpr h]
  rfl

lemma reads_string (text : List Char) (s : String) (h : Lexes text (.string s)) :
    Reads limit text (.str s) := by
  intro st frames offset rest hs hrest
  apply run_lexes st _ _ offset text rest h hrest
  intro o
  cases hs <;> rfl

/-! ## Pieces between brackets -/

section Pieces

variable {α β : Type} (expects : β → State → Prop) (add : β → α → β) (closing : Char)
  (done : β → State)

/-- A piece that takes a state expecting it to one that a comma lets expect the next piece, and that
the closing bracket completes. -/
def ReadsPiece (limit : Option Nat) (piece : List Char) (a : α) : Prop :=
  ∀ b s offset rest, expects b s → Ends rest → ∃ s',
    run limit s offset (piece ++ rest) = run limit s' (offset + piece.length) rest ∧
    (∃ next, (∀ o, step limit s' (o, .mark ',') = .ok next) ∧ expects (add b a) next) ∧
    ∀ o, step limit s' (o, .mark closing) = .ok (done (add b a))

lemma run_pieces (gap trail : List Char) (hgap : ∀ c ∈ gap, isSpace c = true)
    (htrail : ∀ c ∈ trail, isSpace c = true) (hs : isSpace closing = false)
    (hc : isMark closing = true) (pieces : List (List Char × α)) (hne : pieces ≠ [])
    (h : ∀ p ∈ pieces, ReadsPiece expects add closing done limit p.1 p.2) (b : β) (s : State)
    (offset : Nat) (rest : List Char) (hb : expects b s) :
    run limit s offset (((pieces.map Prod.fst).intersperse (',' :: gap)).flatten ++
      (trail ++ closing :: rest)) =
    run limit (done (pieces.foldl (fun b p => add b p.2) b))
      (offset + ((pieces.map Prod.fst).intersperse (',' :: gap)).flatten.length +
        trail.length + 1) rest := by
  induction pieces generalizing b s offset with
  | nil => exact absurd rfl hne
  | cons p pieces ih =>
    have hp := h p List.mem_cons_self
    cases pieces with
    | nil =>
      have hends : Ends (trail ++ closing :: rest) := by
        cases trail with
        | nil => exact ends_cons_of_mark closing rest hc
        | cons c more => exact ends_cons_of_space c _ (htrail c List.mem_cons_self)
      obtain ⟨s', hrun, -, hclose⟩ := hp b s offset _ hb hends
      simp only [List.map_cons, List.map_nil, List.intersperse_singleton, List.flatten_cons,
        List.flatten_nil, List.append_nil, List.foldl_cons, List.foldl_nil]
      rw [hrun, run_spaces _ _ _ _ htrail, run_mark _ _ closing _ rest hs hc hclose]
    | cons q more =>
      have hends (tail : List Char) : Ends (',' :: tail) := ends_cons_of_mark _ _ (by decide)
      obtain ⟨s', hrun, ⟨next, hcomma, hnext⟩, -⟩ := hp b s offset _ hb (hends _)
      have hih := ih (by simp) (fun x hx => h x (List.mem_cons_of_mem _ hx)) (add b p.2) next
        (offset + p.1.length + 1 + gap.length) hnext
      simp only [List.map_cons, List.intersperse_cons_cons, List.flatten_cons, List.append_assoc,
        List.cons_append, List.foldl_cons] at hih ⊢
      rw [hrun, run_mark _ _ ',' _ _ (by decide) (by decide) hcomma, run_spaces _ _ _ _ hgap, hih]
      congr 1
      simp only [List.length_append, List.length_cons]
      omega

end Pieces

lemma isSpace_newLine (indent : List Char) (depth : Nat) (h : ∀ c ∈ indent, isSpace c = true) :
    ∀ c ∈ newLine indent depth, isSpace c = true := by
  intro c hc
  unfold newLine at hc
  rcases List.mem_cons.mp hc with rfl | hc
  · decide
  · obtain ⟨l, hl, hcl⟩ := List.mem_flatten.mp hc
    rw [List.eq_of_mem_replicate hl] at hcl
    exact h c hcl

/-- Pieces between brackets stand between blanks, with a comma and blanks after each but the
last. -/
lemma block_eq (layout : Layout) (hlayout : IsBlankLayout layout) (depth : Nat)
    (opening closing : Char) (pieces : List (List Char)) (hne : pieces ≠ []) :
    ∃ lead gap trail : List Char, (∀ c ∈ lead, isSpace c = true) ∧ (∀ c ∈ gap, isSpace c = true) ∧
      (∀ c ∈ trail, isSpace c = true) ∧
      block layout depth opening closing pieces =
        opening :: (lead ++ ((pieces.intersperse (',' :: gap)).flatten ++ (trail ++ [closing]))) := by
  unfold block
  rw [if_neg (by simpa using hne)]
  cases hi : layout.indent with
  | none =>
    refine ⟨[], [' '], [], by simp, ?_, by simp, by simp⟩
    intro c hc
    rw [List.mem_singleton.mp hc]
    decide
  | some indent =>
    have hspace := hlayout indent hi
    exact ⟨newLine indent (depth + 1), newLine indent (depth + 1), newLine indent depth,
      isSpace_newLine _ _ hspace, isSpace_newLine _ _ hspace, isSpace_newLine _ _ hspace, by simp⟩

lemma run_block {α β : Type} (expects : β → State → Prop) (add : β → α → β) (opening closing : Char)
    (done : β → State) (layout : Layout) (hlayout : IsBlankLayout layout) (depth : Nat)
    (ho : isSpace opening = false) (ho' : isMark opening = true) (hc : isSpace closing = false)
    (hc' : isMark closing = true) (pieces : List (List Char × α))
    (h : ∀ p ∈ pieces, ReadsPiece expects add closing done limit p.1 p.2) (b : β) (s first : State)
    (hopen : ∀ o, step limit s (o, .mark opening) = .ok first) (hfirst : expects b first)
    (hempty : ∀ o, step limit first (o, .mark closing) = .ok (done b)) (offset : Nat)
    (rest : List Char) :
    run limit s offset (block layout depth opening closing (pieces.map Prod.fst) ++ rest) =
      run limit (done (pieces.foldl (fun b p => add b p.2) b))
        (offset + (block layout depth opening closing (pieces.map Prod.fst)).length) rest := by
  cases pieces with
  | nil =>
    change run limit s offset (opening :: closing :: rest) = _
    rw [run_mark _ _ opening _ _ ho ho' hopen, run_mark _ _ closing _ _ hc hc' hempty]
    rfl
  | cons p more =>
    obtain ⟨lead, gap, trail, hlead, hgap, htrail, hblock⟩ :=
      block_eq layout hlayout depth opening closing ((p :: more).map Prod.fst) (by simp)
    rw [hblock]
    simp only [List.cons_append, List.append_assoc, List.nil_append]
    rw [run_mark _ _ opening _ _ ho ho' hopen, run_spaces _ _ _ _ hlead,
      run_pieces expects add closing done gap trail hgap htrail hc hc' (p :: more) (by simp) h b
        first _ rest hfirst]
    congr 1
    simp only [List.length_append, List.length_cons, List.length_nil]
    omega

lemma reads_list (layout : Layout) (hlayout : IsBlankLayout layout) (depth : Nat)
    (pieces : List (List Char × Value)) (h : ∀ p ∈ pieces, Reads limit p.1 p.2) :
    Reads limit (block layout depth '[' ']' (pieces.map Prod.fst)) (.list (pieces.map Prod.snd)) := by
  intro s frames offset rest hs _
  have hpieces : ∀ p ∈ pieces, ReadsPiece (fun before s => ExpectsValue s (.list before :: frames))
      (fun before v => v :: before) ']' (fun before => .complete (.list before.reverse) frames)
      limit p.1 p.2 := by
    intro p hp before s offset rest hs hrest
    exact ⟨_, h p hp s _ offset rest hs hrest, ⟨.value _, fun _ => rfl, .value _⟩, fun _ => rfl⟩
  have hfold (vs before : List Value) (ps : List (List Char × Value)) (hps : ps.map Prod.snd = vs) :
      ps.foldl (fun before p => p.2 :: before) before = vs.reverse ++ before := by
    induction ps generalizing vs before with
    | nil =>
      subst hps
      rfl
    | cons p ps ih =>
      subst hps
      rw [List.foldl_cons, ih _ _ rfl]
      simp
  have hrun := run_block _ _ '[' ']' _ layout hlayout depth (by decide) (by decide) (by decide)
    (by decide) pieces hpieces [] s (.firstItem frames) (by intro o; cases hs <;> rfl)
    (.firstItem frames) (fun _ => rfl) offset rest
  rw [hrun, hfold _ [] pieces rfl]
  simp

/-- The text of a member. -/
def memberPiece (ascii : Bool) (name value : List Char) : List Char :=
  quotedString ascii name ++ ':' :: ' ' :: value

lemma reads_object (layout : Layout) (hlayout : IsBlankLayout layout) (depth : Nat)
    (members : List (List Char × List Char × Value)) (h : ∀ m ∈ members, Reads limit m.2.1 m.2.2) :
    Reads limit (block layout depth '\x7b' '\x7d'
        (members.map fun m => memberPiece layout.ascii m.1 m.2.1))
      (.dict (Entries.ofPairs (members.map fun m => (.str (String.ofList m.1), m.2.2)))) := by
  intro s frames offset rest hs _
  let pieces := members.map fun m =>
    (memberPiece layout.ascii m.1 m.2.1, (Value.str (String.ofList m.1), m.2.2))
  have hpieces : ∀ p ∈ pieces, ReadsPiece (ExpectsName frames)
      (fun before (e : Value × Value) => before.insert e.1 e.2) '\x7d'
      (fun before => .complete (.dict before) frames) limit p.1 p.2 := by
    intro p hp before s offset rest hs hrest
    obtain ⟨⟨name, text, v⟩, hm, rfl⟩ := List.mem_map.mp hp
    refine ⟨.complete v (.object before (String.ofList name) :: frames), ?_,
      ⟨.name (before.insert (.str (String.ofList name)) v) frames, fun _ => rfl, .name _⟩,
      fun _ => rfl⟩
    have hname := lexes_quotedString layout.ascii name
    have hvalue := h _ hm (.value (.object before (String.ofList name) :: frames)) _
      (offset + (quotedString layout.ascii name).length + 1 + 1) rest (.value _) hrest
    have hspace := @run_spaces limit (.value (.object before (String.ofList name) :: frames))
      (offset + (quotedString layout.ascii name).length + 1) [' '] (text ++ rest) (by simp [isSpace])
    dsimp only [memberPiece] at hvalue ⊢
    simp only [List.append_assoc, List.cons_append]
    rw [run_lexes s (.colon before (String.ofList name) frames) _ offset _ (':' :: ' ' :: (text ++ rest))
      hname (ends_cons_of_mark _ _ (by decide)) (by intro o; cases hs <;> rfl),
      run_mark _ (.value (.object before (String.ofList name) :: frames)) ':' _ _ (by decide)
        (by decide) (fun _ => rfl)]
    refine (hspace.trans hvalue).trans ?_
    congr 1
    simp only [List.length_append, List.length_cons]
    omega
  have hrun := run_block _ _ '\x7b' '\x7d' _ layout hlayout depth (by decide) (by decide)
    (by decide) (by decide) pieces hpieces [] s (.firstName frames)
    (by intro o; cases hs <;> rfl) .firstName (fun _ => rfl) offset rest
  have hfst : pieces.map Prod.fst = members.map fun m => memberPiece layout.ascii m.1 m.2.1 := by
    simp [pieces]
  have hfold : pieces.foldl (fun before p => Entries.insert before p.2.1 p.2.2) [] =
      Entries.ofPairs (members.map fun m => (.str (String.ofList m.1), m.2.2)) := by
    simp only [pieces, Entries.ofPairs, List.foldl_map]
  rw [hfst, hfold] at hrun
  exact hrun

end Runs

/-! ## Whole values -/

/-- The pieces of an object are the members in the order of the layout, each name with the text of
its value. -/
lemma memberText_pieces (layout : Layout) (members : List (Value × Written)) (pieces : List (List Char))
    (h : members.mapM (memberText layout) = .ok pieces) :
    ∃ named : List (List Char × List Char),
      pieces = named.map (fun m => memberPiece layout.ascii m.1 m.2) ∧
      List.Forall₂
        (fun (m : Value × Written) p => memberName layout.digits m.1 = .ok p.1 ∧ m.2 = .ok p.2)
        members named := by
  induction members generalizing pieces with
  | nil =>
    obtain rfl := Except.ok.inj h
    exact ⟨[], rfl, .nil⟩
  | cons m members ih =>
    rw [List.mapM_cons] at h
    obtain ⟨piece, hpiece, h⟩ := ok_of_bind h
    obtain ⟨rest, hrest, h⟩ := ok_of_bind h
    obtain rfl := Except.ok.inj h
    obtain ⟨named, rfl, hall⟩ := ih rest hrest
    unfold memberText at hpiece
    obtain ⟨name, hname, hpiece⟩ := ok_of_bind hpiece
    obtain ⟨text, htext, hpiece⟩ := ok_of_bind hpiece
    obtain rfl := Except.ok.inj hpiece
    exact ⟨(name, text) :: named, rfl, .cons ⟨hname, htext⟩ hall⟩

lemma writeMembers_eq_map (layout : Layout) (depth : Nat) (entries : Entries) :
    writeMembers layout depth entries = entries.map fun e => (e.1, write layout depth e.2) := by
  induction entries with
  | nil => rfl
  | cons e rest ih => rw [writeMembers, ih, List.map_cons]

lemma ordered_perm {α : Type} (layout : Layout) (members : List (Value × α)) :
    (ordered layout members).Perm members := by
  unfold ordered
  split
  · cases h : sortBy (fun a b : Value × α => Value.before a.1 b.1) members with
    | error e => exact List.Perm.refl _
    | ok sorted => exact sortBy_perm _ _ _ h
  · exact List.Perm.refl _

lemma mem_of_mem_ordered {α : Type} (layout : Layout) (members : List (Value × α))
    (e : Value × α) (h : e ∈ ordered layout members) : e ∈ members :=
  (ordered_perm layout members).mem_iff.mp h

/-- A name that a limit allows is the same without a limit. -/
lemma nameText_of_memberName (limit : Option Nat) (key : Value) (name : List Char)
    (h : memberName limit key = .ok name) : nameText key = String.ofList name := by
  have hfree : memberName none key = .ok name := by
    cases key with
    | member value => cases value <;> exact h
    | int n =>
      have hname := ((limitedText_ok limit n name).mp h).2
      exact (limitedText_ok none n name).mpr ⟨isShort_none n, hname⟩
    | _ => exact h
  rw [nameText, hfree]

lemma readings_of_named (layout : Layout) (depth : Nat) (sorted : Entries)
    (named : List (List Char × List Char))
    (hvalues : ∀ e ∈ sorted, ∀ t, write layout depth e.2 = .ok t →
      Reads layout.digits t (reading layout e.2))
    (hall : List.Forall₂
      (fun e p => memberName layout.digits e.1 = .ok p.1 ∧ write layout depth e.2 = .ok p.2)
      sorted named) :
    ∃ read : List (List Char × List Char × Value),
      (∀ m ∈ read, Reads layout.digits m.2.1 m.2.2) ∧ named = read.map (fun m => (m.1, m.2.1)) ∧
      sorted.map (fun e => (Value.str (nameText e.1), reading layout e.2)) =
        read.map fun m => (.str (String.ofList m.1), m.2.2) := by
  induction hall with
  | nil => exact ⟨[], by simp, rfl, rfl⟩
  | @cons e p sorted named hm _ ih =>
    obtain ⟨read, hread, hnamed, heq⟩ := ih fun x hx => hvalues x (List.mem_cons_of_mem _ hx)
    refine ⟨(p.1, p.2, reading layout e.2) :: read, ?_, ?_, ?_⟩
    · intro m hmm
      rcases List.mem_cons.mp hmm with rfl | hmm
      · exact hvalues e List.mem_cons_self p.2 hm.2
      · exact hread m hmm
    · rw [List.map_cons, ← hnamed]
    · rw [List.map_cons, List.map_cons, heq, nameText_of_memberName layout.digits e.1 p.1 hm.1]

lemma reads_dict (layout : Layout) (hlayout : IsBlankLayout layout) (depth : Nat) (entries : Entries)
    (text : List Char)
    (hvalues : ∀ e ∈ entries, ∀ t, write layout (depth + 1) e.2 = .ok t →
      Reads layout.digits t (reading layout e.2))
    (h : write layout depth (.dict entries) = .ok text) :
    Reads layout.digits text (reading layout (.dict entries)) := by
  rw [write] at h
  obtain ⟨members, hmembers, h⟩ := ok_of_bind h
  obtain ⟨pieces, hpieces, h⟩ := ok_of_bind h
  obtain rfl := Except.ok.inj h
  obtain ⟨named, rfl, hall⟩ := memberText_pieces layout members pieces hpieces
  have horder := ordered_of_orderMembers layout _ _ hmembers
  rw [writeMembers_eq_map, ordered_map] at horder
  subst horder
  rw [List.forall₂_map_left_iff] at hall
  obtain ⟨read, hread, rfl, heq⟩ := readings_of_named layout (depth + 1) _ named
    (fun e he => hvalues e (mem_of_mem_ordered layout entries e he)) hall
  rw [reading, memberReadings_eq_map, ordered_map, List.map_map, List.map_map]
  change Reads layout.digits _ (.dict (Entries.ofPairs ((ordered layout entries).map
    fun e => (Value.str (nameText e.1), reading layout e.2))))
  rw [heq]
  exact reads_object layout hlayout depth read hread

mutual

/-- Whatever is written reads back. -/
theorem reads_write (layout : Layout) (hlayout : IsBlankLayout layout) (depth : Nat) (v : Value)
    (text : List Char) (h : write layout depth v = .ok text) :
    Reads layout.digits text (reading layout v) := by
  match v with
  | .null =>
    obtain rfl := Except.ok.inj h
    exact reads_scalar _ _ (lexes_word ("null".toList, .null) (by simp [words])) rfl
  | .bool b =>
    obtain rfl := Except.ok.inj h
    cases b with
    | true => exact reads_scalar _ _ (lexes_word ("true".toList, .bool true) (by simp [words])) rfl
    | false => exact reads_scalar _ _ (lexes_word ("false".toList, .bool false) (by simp [words])) rfl
  | .int n =>
    obtain ⟨hshort, rfl⟩ := (limitedText_ok layout.digits n text).mp h
    exact reads_int n hshort
  | .float x =>
    obtain rfl := Except.ok.inj h
    exact reads_scalar _ _ (lexes_floatText x) rfl
  | .str s =>
    obtain rfl := Except.ok.inj h
    have hlex := lexes_quotedString layout.ascii s.toList
    rw [String.ofList_toList] at hlex
    exact reads_string _ _ hlex
  | .member (.str s) =>
    obtain rfl := Except.ok.inj h
    have hlex := lexes_quotedString layout.ascii s.toList
    rw [String.ofList_toList] at hlex
    exact reads_string _ _ hlex
  | .list items | .tuple items =>
    rw [write] at h
    obtain ⟨pieces, hpieces, h⟩ := ok_of_bind h
    obtain rfl := Except.ok.inj h
    obtain ⟨pairs, rfl, hreadings, hreads⟩ := reads_writeItems layout hlayout _ items pieces hpieces
    rw [reading, ← hreadings]
    exact reads_list layout hlayout depth pairs hreads
  | .node tag payload =>
    rw [write] at h
    obtain ⟨tagText, htag, h⟩ := ok_of_bind h
    obtain ⟨payloadText, hpayload, h⟩ := ok_of_bind h
    obtain rfl := Except.ok.inj h
    have h1 := reads_write layout hlayout _ tag tagText htag
    have h2 := reads_write layout hlayout _ payload payloadText hpayload
    exact reads_list layout hlayout depth
      [(tagText, reading layout tag), (payloadText, reading layout payload)] (by
        intro p hp
        rcases List.mem_cons.mp hp with rfl | hp
        · exact h1
        · obtain rfl := List.mem_singleton.mp hp
          exact h2)
  | .dict entries =>
    exact reads_dict layout hlayout depth entries text
      (reads_writeEntries layout hlayout (depth + 1) entries) h
  | .undefined =>
    obtain rfl := Except.ok.inj h
    rw [reading]
    cases layout.emptyObject with
    | true =>
      have hread := @reads_object layout.digits layout hlayout depth [] (by simp)
      simpa [block, Entries.ofPairs] using hread
    | false =>
      have hlex := lexes_quotedString layout.ascii "Undefined".toList
      exact reads_string _ _ hlex
  | .bytes _ | .set _ | .timestamp _ | .rule _ | .brokenRule _ | .constant _ | .inert => cases h
  | .member .null | .member (.bool _) | .member (.int _) | .member (.float _) | .member (.bytes _)
  | .member (.list _) | .member (.tuple _) | .member (.dict _) | .member (.set _)
  | .member (.timestamp _) | .member .undefined | .member (.node ..) | .member (.rule _)
  | .member (.brokenRule _) | .member (.member _) | .member (.constant _) | .member .inert => cases h

theorem reads_writeItems (layout : Layout) (hlayout : IsBlankLayout layout) (depth : Nat)
    (items : List Value) (pieces : List (List Char)) (h : writeItems layout depth items = .ok pieces) :
    ∃ pairs : List (List Char × Value), pieces = pairs.map Prod.fst ∧
      pairs.map Prod.snd = readings layout items ∧ ∀ p ∈ pairs, Reads layout.digits p.1 p.2 := by
  match items with
  | [] =>
    obtain rfl := Except.ok.inj h
    exact ⟨[], rfl, rfl, by simp⟩
  | item :: rest =>
    rw [writeItems] at h
    obtain ⟨piece, hpiece, h⟩ := ok_of_bind h
    obtain ⟨more, hmore, h⟩ := ok_of_bind h
    obtain rfl := Except.ok.inj h
    have hitem := reads_write layout hlayout depth item piece hpiece
    obtain ⟨pairs, rfl, hreadings, hreads⟩ := reads_writeItems layout hlayout depth rest more hmore
    refine ⟨(piece, reading layout item) :: pairs, rfl, ?_, ?_⟩
    · rw [List.map_cons, hreadings, readings]
    · intro p hp
      rcases List.mem_cons.mp hp with rfl | hp
      · exact hitem
      · exact hreads p hp

theorem reads_writeEntries (layout : Layout) (hlayout : IsBlankLayout layout) (depth : Nat)
    (entries : Entries) : ∀ e ∈ entries, ∀ t, write layout depth e.2 = .ok t →
      Reads layout.digits t (reading layout e.2) := by
  match entries with
  | [] => simp
  | (key, v) :: rest =>
    intro e he t ht
    rcases List.mem_cons.mp he with rfl | he
    · exact reads_write layout hlayout depth v t ht
    · exact reads_writeEntries layout hlayout depth rest e he t ht

end

/-- The text of a value reads as that value. -/
theorem read_write (layout : Layout) (hlayout : IsBlankLayout layout) (v : Value) (text : List Char)
    (h : write layout 0 v = .ok text) :
    Json.read layout.digits text = .ok (reading layout v) := by
  have hrun := reads_write layout hlayout 0 v text h (.value []) [] 0 [] (.value []) ends_nil
  rw [List.append_nil] at hrun
  unfold Json.read
  change run layout.digits (.value []) 0 text >>= _ = _
  rw [hrun]
  rfl

end Rulebook.Proofs
