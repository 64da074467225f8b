import Mathlib
import Rulebook.Proofs.Json.Encodable
import Rulebook.Proofs.Pipeline.Pairs
import Rulebook.Proofs.Pipeline.RoundTrip

/-!
# Options and what they are used for

Options change by calls that may be refused, each of which gives some settings anew. What a call is
checked for is less than what a codec needs of the options that come out of it.
-/

namespace Rulebook.Proofs
open Json

/-! ## Given settings -/

/-- Settings as a call gives them, each under its name. -/
abbrev Settings := List (String × Value)

/-- The value that is given last under a name, or else the one before. -/
def latest (given : Settings) (name : String) (before : Value) : Value :=
  (given.reverse.lookup name).getD before

lemma latest_append (given more : Settings) (name : String) (before : Value) :
    latest (given ++ more) name before = latest more name (latest given name before) := by
  unfold latest
  rw [List.reverse_append, List.lookup_append]
  cases more.reverse.lookup name <;> rfl

/-- The options with the settings that are given, of which nothing is checked. -/
def withGiven (o : Options) (given : Settings) : Options where
  strictMode := latest given "strict_mode" o.strictMode
  indent := latest given "indent" o.indent
  ensureAscii := latest given "ensure_ascii" o.ensureAscii
  sortKeys := latest given "sort_keys" o.sortKeys
  undefinedEncoding := latest given "undefined_encoding" o.undefinedEncoding

lemma withGiven_append (o : Options) (given more : Settings) :
    withGiven o (given ++ more) = withGiven (withGiven o given) more := by
  simp only [withGiven, latest_append]

/-- The names of the options. -/
def optionNames : List String := ({} : Options).fields.map Prod.fst

lemma set_eq_ok_iff (o o' : Options) (name : String) (v : Value) :
    o.set name v = .ok o' ↔ name ∈ optionNames ∧ o' = withGiven o [(name, v)] := by
  by_cases hname : name ∈ optionNames
  · simp only [optionNames, Options.fields, List.map_cons, List.map_nil, List.mem_cons,
      List.not_mem_nil, or_false] at hname
    have hset : o.set name v = .ok (withGiven o [(name, v)]) := by
      rcases hname with rfl | rfl | rfl | rfl | rfl <;> rfl
    rw [hset, Except.ok.injEq, eq_comm]
    simp [optionNames, Options.fields, hname]
  · have hset : o.set name v = .error (.unknownOption name) := by
      simp only [optionNames, Options.fields, List.map_cons, List.map_nil, List.mem_cons,
        List.not_mem_nil, or_false, not_or] at hname
      unfold Options.set
      split <;> simp_all
    rw [hset]
    simp [hname]

lemma foldlM_set_eq_ok_iff (o o' : Options) (given : Settings) :
    given.foldlM (fun o (name, v) => o.set name v) o = .ok o' ↔
      (∀ s ∈ given, s.1 ∈ optionNames) ∧ o' = withGiven o given := by
  induction given generalizing o with
  | nil =>
    rw [List.foldlM_nil]
    exact ⟨fun h => ⟨by simp, (Except.ok.inj h).symm⟩, fun h => h.2 ▸ rfl⟩
  | cons s rest ih =>
    rw [List.foldlM_cons, List.forall_mem_cons, ← List.singleton_append, withGiven_append]
    constructor
    · intro h
      obtain ⟨next, hnext, h⟩ := ok_of_bind h
      obtain ⟨hname, rfl⟩ := (set_eq_ok_iff o next s.1 s.2).mp hnext
      obtain ⟨hrest, heq⟩ := (ih _).mp h
      exact ⟨⟨hname, hrest⟩, heq⟩
    · rintro ⟨⟨hname, hrest⟩, heq⟩
      have hset := (set_eq_ok_iff o _ s.1 s.2).mpr ⟨hname, rfl⟩
      dsimp only
      rw [hset, ok_bind, (ih _).mpr ⟨hrest, heq⟩]

/-! ## Checked options -/

/-- An indentation that passes the check: none, or a number that is not below zero. -/
inductive AllowedIndent : Value → Prop
  | none : AllowedIndent .null
  | truth (b : Bool) : AllowedIndent (.bool b)
  | count (n : Int) : 0 ≤ n → AllowedIndent (.int n)
  | float (x : Binary64) : x.orderInt? 0 ≠ some .lt → AllowedIndent (.float x)

/-- An encoding of the token for no value that passes the check. -/
def AllowedEncoding (encoding : Value) : Prop :=
  encoding.text? = some "string" ∨ encoding.text? = some "empty_object"

/-- What the check of options makes sure of. -/
structure IsChecked (o : Options) : Prop where
  indent : AllowedIndent o.indent
  encoding : AllowedEncoding o.undefinedEncoding

lemma allowedIndent_iff (indent : Value) :
    AllowedIndent indent ↔
      indent = .null ∨ ∃ n, indent.number? = some n ∧ n.order? (.int 0) ≠ some .lt := by
  constructor
  · intro h
    cases h with
    | none => exact .inl rfl
    | truth b => exact .inr ⟨_, rfl, by cases b <;> decide⟩
    | count n hn =>
      refine .inr ⟨_, rfl, ?_⟩
      rw [Number.order?, ne_eq, Option.some.injEq, compare_lt_iff_lt]
      omega
    | float x hx => exact .inr ⟨_, rfl, hx⟩
  · rintro (rfl | ⟨n, hn, horder⟩)
    · exact .none
    · cases indent with
      | bool b => exact .truth b
      | int n =>
        obtain rfl := Option.some.inj hn
        rw [Number.order?, ne_eq, Option.some.injEq, compare_lt_iff_lt] at horder
        exact .count n (by omega)
      | float x =>
        obtain rfl := Option.some.inj hn
        exact .float x horder
      | _ => cases hn

lemma contains_encodings (encoding : Value) :
    (∃ s, encoding.text? = some s ∧ Options.encodings.contains s = true) ↔ AllowedEncoding encoding := by
  unfold AllowedEncoding Options.encodings
  cases encoding.text? <;> simp

/-- The check of the encoding, which comes after the one of the indentation. -/
def encodingChecked (o : Options) : Except OptionsFault Options :=
  match o.undefinedEncoding.text? with
  | some s =>
    if Options.encodings.contains s then .ok o else .error (.unknownEncoding o.undefinedEncoding)
  | none => .error (.unknownEncoding o.undefinedEncoding)

lemma encodingChecked_eq_ok_iff (o o' : Options) :
    encodingChecked o = .ok o' ↔ AllowedEncoding o.undefinedEncoding ∧ o' = o := by
  rw [← contains_encodings]
  unfold encodingChecked
  cases o.undefinedEncoding.text? with
  | none => simp
  | some s => by_cases h : Options.encodings.contains s = true <;> simp_all [eq_comm]

lemma checked_of_allowed (o : Options) (h : AllowedIndent o.indent) :
    o.checked = encodingChecked o := by
  rw [allowedIndent_iff] at h
  unfold Options.checked
  dsimp only
  split
  · rfl
  · next hnull =>
    obtain ⟨n, hn, horder⟩ := h.resolve_left hnull
    rw [hn]
    exact if_neg horder

lemma checked_of_not_allowed (o : Options) (h : ¬AllowedIndent o.indent) :
    ∃ fault, o.checked = .error fault := by
  rw [allowedIndent_iff, not_or, not_exists] at h
  unfold Options.checked
  dsimp only
  split
  · next hnull => exact absurd hnull h.1
  · split
    · exact ⟨_, rfl⟩
    · next n hn =>
      rw [if_pos (by_contra fun horder => h.2 n ⟨hn, horder⟩)]
      exact ⟨_, rfl⟩

lemma checked_eq_ok_iff (o o' : Options) : o.checked = .ok o' ↔ IsChecked o ∧ o' = o := by
  by_cases hindent : AllowedIndent o.indent
  · rw [checked_of_allowed o hindent, encodingChecked_eq_ok_iff]
    exact and_congr_left' ⟨fun h => ⟨hindent, h⟩, fun h => h.encoding⟩
  · obtain ⟨fault, hfault⟩ := checked_of_not_allowed o hindent
    rw [hfault]
    exact iff_of_false (by simp) fun h => hindent h.1.indent

/-- A call is accepted when all names are names of options and the settings pass the check; then the
options have what is given and keep the rest. -/
lemma updated_eq_ok_iff (o o' : Options) (given : Settings) :
    o.updated given = .ok o' ↔
      (∀ s ∈ given, s.1 ∈ optionNames) ∧ IsChecked o' ∧ o' = withGiven o given := by
  unfold Options.updated
  constructor
  · intro h
    obtain ⟨next, hnext, h⟩ := ok_of_bind h
    obtain ⟨hnames, rfl⟩ := (foldlM_set_eq_ok_iff o next given).mp hnext
    obtain ⟨hchecked, rfl⟩ := (checked_eq_ok_iff _ o').mp h
    exact ⟨hnames, hchecked, rfl⟩
  · rintro ⟨hnames, hchecked, rfl⟩
    rw [(foldlM_set_eq_ok_iff o _ given).mpr ⟨hnames, rfl⟩, ok_bind]
    exact (checked_eq_ok_iff _ _).mpr ⟨hchecked, rfl⟩

/-! ## Calls one after another -/

/-- The options in use after calls; a call that fails leaves those in use that were. -/
def inUse (o : Options) : List Settings → Options
  | [] => o
  | given :: rest =>
    match o.updated given with
    | .ok o' => inUse o' rest
    | .error _ => inUse o rest

/-- All settings of the calls that do not fail, in order. -/
def accepted (o : Options) : List Settings → Settings
  | [] => []
  | given :: rest =>
    match o.updated given with
    | .ok o' => given ++ accepted o' rest
    | .error _ => accepted o rest

/-- Calls leave the options checked, with the settings accepted last. -/
lemma inUse_spec (o : Options) (ho : IsChecked o) (calls : List Settings) :
    IsChecked (inUse o calls) ∧ inUse o calls = withGiven o (accepted o calls) := by
  induction calls generalizing o with
  | nil => exact ⟨ho, rfl⟩
  | cons given rest ih =>
    rw [inUse, accepted]
    cases hcall : o.updated given with
    | error fault => exact ih o ho
    | ok o' =>
      -- The check of one call is all that the next one needs to know.
      obtain ⟨-, ho', rfl⟩ := (updated_eq_ok_iff o o' given).mp hcall
      obtain ⟨hchecked, heq⟩ := ih _ ho'
      exact ⟨hchecked, by rw [withGiven_append]; exact heq⟩

/-! ## Layouts -/

/-- An indentation that passes the check is one that can be used, or a fraction, or a count that does not
fit an index. -/
lemma indentation_of_allowedIndent (c : Codec) (h : AllowedIndent c.indent) :
    (IsIndentation c.indent ∧ ∃ indent, c.indentation = .ok indent) ∨
      ((∃ x, c.indent = .float x) ∧ c.indentation = .error (.unusableIndent "float")) ∨
      (∃ n : Int, c.indent = .int n ∧ 2 ^ 63 ≤ n) ∧ c.indentation = .error .hugeIndent := by
  have usable (h : IsIndentation c.indent) :
      IsIndentation c.indent ∧ ∃ indent, c.indentation = .ok indent := by
    obtain ⟨indent, hindent, -⟩ := indentation_of_isCount c (isCount_of_isIndentation _ h)
    exact ⟨h, indent, hindent⟩
  obtain ⟨indent, ascii, sorted, encoding, digits⟩ := c
  cases h with
  | none => exact .inl (usable (.inl rfl))
  | truth b => exact .inl (usable (.inr (.inl ⟨b, rfl⟩)))
  | count n hn =>
    by_cases hsize : n < 2 ^ 63
    · exact .inl (usable (.inr (.inr ⟨n, rfl, hn, hsize⟩)))
    · refine .inr (.inr ⟨⟨n, rfl, by omega⟩, ?_⟩)
      change Codec.blanks n = _
      unfold Codec.blanks
      rw [if_pos (by omega)]
  | float x _ => exact .inr (.inl ⟨⟨x, rfl⟩, rfl⟩)

lemma not_isIndentation_float (x : Binary64) : ¬IsIndentation (.float x) := by
  rintro (h | ⟨b, h⟩ | ⟨n, h, -⟩) <;> cases h

lemma not_isIndentation_huge (n : Int) (hn : 2 ^ 63 ≤ n) : ¬IsIndentation (.int n) := by
  rintro (h | ⟨b, h⟩ | ⟨m, h, -, hsize⟩)
  · cases h
  · cases h
  · obtain rfl := Value.int.inj h
    omega

lemma indentation_isOk_iff (c : Codec) (h : AllowedIndent c.indent) :
    (∃ indent, c.indentation = .ok indent) ↔ IsIndentation c.indent := by
  rcases indentation_of_allowedIndent c h with ⟨husable, hok⟩ | ⟨⟨x, hx⟩, herror⟩ |
    ⟨⟨n, hn, hsize⟩, herror⟩
  · exact iff_of_true hok husable
  · rw [herror, hx]
    exact iff_of_false (by simp) (not_isIndentation_float x)
  · rw [herror, hn]
    exact iff_of_false (by simp) (not_isIndentation_huge n hsize)

/-- Why options do not write what the default codec encodes. -/
inductive LayoutFault (o : Options) : WritingFault → Prop
  | fraction (x : Binary64) : o.indent = .float x → LayoutFault o (.unusableIndent "float")
  | huge (n : Int) : o.indent = .int n → 2 ^ 63 ≤ n → LayoutFault o .hugeIndent
  | names (u : Unordered) : o.sortKeys.isTrue = true → LayoutFault o (.unordered u)

lemma encodable_of_encode (v : Value) (text : String) (h : ({} : Codec).encode v = .ok text) :
    Encodable ({} : Codec).digits false v :=
  ((encode_isOk_iff {} v).mp ⟨text, h⟩).1

lemma encode_checked_isOk_iff (o : Options) (ho : IsChecked o) (v : Value)
    (hv : Encodable o.jsonCodec.digits false v) :
    (∃ text, o.jsonCodec.encode v = .ok text) ↔
      (v.text?.isSome = true ∨ IsIndentation o.indent) ∧
        (o.sortKeys.isTrue = true →
          ∀ entries, Occurs (.dict entries) v → AreSortable (entries.map Prod.fst)) := by
  have hsorted : Encodable o.jsonCodec.digits o.sortKeys.isTrue v ↔ (o.sortKeys.isTrue = true →
      ∀ entries, Occurs (.dict entries) v → AreSortable (entries.map Prod.fst)) := by
    cases o.sortKeys.isTrue with
    | false => simpa using hv
    | true => simp [encodable_sorted_iff, hv]
  calc (∃ text, o.jsonCodec.encode v = .ok text)
      ↔ Encodable o.jsonCodec.digits o.sortKeys.isTrue v ∧
          (v.text?.isSome = true ∨ ∃ indent, o.jsonCodec.indentation = .ok indent) :=
        encode_isOk_iff o.jsonCodec v
    _ ↔ Encodable o.jsonCodec.digits o.sortKeys.isTrue v ∧
          (v.text?.isSome = true ∨ IsIndentation o.indent) := by
        rw [indentation_isOk_iff o.jsonCodec ho.indent]
        rfl
    _ ↔ _ := by rw [hsorted, and_comm]

lemma layoutFault_of_encode (o : Options) (ho : IsChecked o) (v : Value)
    (hv : Encodable o.jsonCodec.digits false v) (fault : WritingFault) (h : o.jsonCodec.encode v = .error fault) : LayoutFault o fault := by
  unfold Codec.encode at h
  cases htext : v.text? with
  | some s =>
    rw [htext] at h
    cases h
  | none =>
    rw [htext] at h
    dsimp only at h
    rcases indentation_of_allowedIndent o.jsonCodec ho.indent with ⟨-, indent, hindent⟩ |
      ⟨⟨x, hx⟩, herror⟩ | ⟨⟨n, hn, hsize⟩, herror⟩
    · rw [hindent, ok_bind] at h
      obtain ⟨hsorted, u, rfl⟩ := failsByOrder_bind
        (failsByOrder_write (o.jsonCodec.layout indent) v hv 0) (fun _ _ => failsByOrder_ok _ _)
        fault h
      exact .names u hsorted
    · rw [herror] at h
      obtain rfl := Except.error.inj h
      exact .fraction x hx
    · rw [herror] at h
      obtain rfl := Except.error.inj h
      exact .huge n hn hsize

/-- The options that nothing is given for pass their check. -/
lemma isChecked_default : IsChecked {} := ⟨.none, .inl rfl⟩

/-- Options that have been made and then changed by calls, of which a refused one changes nothing. Every
setting is the one given last, and the options are checked; a call is accepted exactly if it names options
only and what it leads to passes the check. They write what the default codec encodes exactly if the
indentation is none, a truth value or a count that fits an index, and with sorting if all names in one
mapping can be sorted. Every fault is due to one of these conditions. -/
theorem encode_after_calls (init : Settings) (made : Options) (calls : List Settings)
    (hmade : ({} : Options).updated init = .ok made) :
    (inUse made calls).fields = ({} : Options).fields.map (fun (name, default) =>
        (name, latest (init ++ accepted made calls) name default)) ∧
      IsChecked (inUse made calls) ∧
      (∀ given, (∃ next, (inUse made calls).updated given = .ok next) ↔
        (∀ s ∈ given, s.1 ∈ optionNames) ∧ IsChecked (withGiven (inUse made calls) given)) ∧
      ∀ v text, ({} : Codec).encode v = .ok text →
        ((∃ written, (inUse made calls).jsonCodec.encode v = .ok written) ↔
          (v.text?.isSome = true ∨ IsIndentation (inUse made calls).indent) ∧
            ((inUse made calls).sortKeys.isTrue = true →
              ∀ entries, Occurs (.dict entries) v → AreSortable (entries.map Prod.fst))) ∧
        ∀ fault, (inUse made calls).jsonCodec.encode v = .error fault →
          LayoutFault (inUse made calls) fault := by
  obtain ⟨-, hchecked, hinit⟩ := (updated_eq_ok_iff {} made init).mp hmade
  obtain ⟨huse, hlatest⟩ := inUse_spec made hchecked calls
  refine ⟨?_, huse, fun given => ?_, fun v text hv => ?_⟩
  · rw [hlatest, hinit, ← withGiven_append, ← hinit]
    rfl
  · constructor
    · rintro ⟨next, hnext⟩
      obtain ⟨hnames, hnext, rfl⟩ := (updated_eq_ok_iff _ next given).mp hnext
      exact ⟨hnames, hnext⟩
    · rintro ⟨hnames, hnext⟩
      exact ⟨_, (updated_eq_ok_iff _ _ given).mpr ⟨hnames, hnext, rfl⟩⟩
  · have hencodable := encodable_of_encode v text hv
    exact ⟨encode_checked_isOk_iff _ huse v hencodable, layoutFault_of_encode _ huse v hencodable⟩

/-! ## An indentation by a fraction -/

/-- Two blanks and a half. -/
def fraction : Binary64 := .ofRatio false 5 2

/-- The record of a set without rules. -/
def setRecord : Value := .dict [(.str "type", .str "set"), (.str "rules", .list [])]

lemma dump_setNode (o : Options) :
    ({ options := o } : Pipeline).dump (.node (.str "set") (.list [])) =
      (o.jsonCodec.encode setRecord).mapError .jsonWriting := by
  have hrecord : ({ options := o } : Pipeline).serialize (.node (.str "set") (.list [])) =
      .ok setRecord := by
    have hnode := ofNode_emptySet (.node (.str "set") (.list [])) (.str "set") rfl (by decide +kernel)
    exact congrArg (Except.mapError Fault.record) hnode
  unfold Pipeline.dump
  rw [hrecord]
  rfl

lemma areSortable_setRecord (entries : Entries) (h : Occurs (.dict entries) setRecord) :
    AreSortable (entries.map Prod.fst) := by
  have hsorted := (encode_isOk_iff { sortKeys := .bool true } setRecord).mp ⟨_, rfl⟩
  exact sortable_of_encodable setRecord hsorted.1 entries h

/-- A number of blanks that is no whole number passes the check, and then no record can be written. -/
theorem not_encode_fraction :
    let o : Options := { indent := .float fraction }
    ({} : Options).updated [("indent", .float fraction)] = .ok o ∧
      o.indent ≠ .null ∧ (∀ n, o.indent ≠ .int n) ∧
      (∃ text, ({} : Codec).encode setRecord = .ok text) ∧
      o.jsonCodec.encode setRecord = .error (.unusableIndent "float") ∧
      (∃ text, ({} : Pipeline).dump (.node (.str "set") (.list [])) = .ok text) ∧
      ({ options := o } : Pipeline).dump (.node (.str "set") (.list [])) =
        .error (.jsonWriting (.unusableIndent "float")) :=
  ⟨rfl, by simp, by simp, ⟨_, rfl⟩, rfl, ⟨_, dump_setNode {}⟩, dump_setNode _⟩

/-- Calls of which the first and the last are refused. -/
def fractionCalls : List Settings :=
  [[("sort_keys", .bool true), ("indent", .int (-1))],
    [("indent", .float fraction), ("sort_keys", .int 1)], [("width", .int 4)]]

/-- What is given last decides: a fraction leaves nothing to write, and another count of blanks mends
it. -/
theorem encode_after_calls_fraction :
    ∃ made, ({} : Options).updated [("indent", .int 2)] = .ok made ∧
      (inUse made fractionCalls).fields =
        [("strict_mode", .bool false), ("indent", .float fraction), ("ensure_ascii", .bool false),
          ("sort_keys", .int 1), ("undefined_encoding", .str "string")] ∧
      (¬∃ text, (inUse made fractionCalls).jsonCodec.encode setRecord = .ok text) ∧
      ∃ text, (inUse made (fractionCalls ++ [[("indent", .int 4)]])).jsonCodec.encode setRecord =
        .ok text := by
  refine ⟨{ indent := .int 2 }, rfl, ?_⟩
  obtain ⟨hfields, -, -, hwritten⟩ := encode_after_calls [("indent", .int 2)] { indent := .int 2 }
    fractionCalls rfl
  obtain ⟨-, -, -, hmended⟩ := encode_after_calls [("indent", .int 2)] { indent := .int 2 }
    (fractionCalls ++ [[("indent", .int 4)]]) rfl
  refine ⟨hfields, fun h => ?_, (hmended setRecord _ rfl).1.mpr
    ⟨.inr ?_, fun _ => areSortable_setRecord⟩⟩
  · rcases ((hwritten setRecord _ rfl).1.mp h).1 with htext | hindent
    · cases htext
    · exact not_isIndentation_float fraction hindent
  · exact .inr (.inr ⟨4, rfl, by decide⟩)

end Rulebook.Proofs
