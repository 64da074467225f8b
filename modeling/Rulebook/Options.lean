import Rulebook.Json.Codec

/-!
Options of a pipeline. They are immutable: an update makes new options, and options are made only
if the indentation is no negative number and the undefined encoding is one of the two known ones.
Every other setting may be any value.
-/

namespace Rulebook

/-- The options of a pipeline. -/
structure Options where
  strictMode : Value := .bool false
  indent : Value := .null
  ensureAscii : Value := .bool false
  sortKeys : Value := .bool false
  undefinedEncoding : Value := .str "string"

/-- Why options cannot be made. -/
inductive OptionsFault where
  | negativeIndent (indent : Value)
  | unknownEncoding (encoding : Value)
  /-- The indentation is neither null nor a number. -/
  | unusableIndent
  | unknownOption (name : String)

namespace OptionsFault

/-- The wording of a fault; those that have none are told by their kind. -/
def message? : OptionsFault → Option String
  | negativeIndent indent => some s!"indent must be non-negative or None, got {indent.sentence}"
  | unknownEncoding encoding =>
    some s!"undefined_encoding must be one of ('string', 'empty_object'), got {encoding.quoted}"
  | _ => none

end OptionsFault

namespace Options

/-- The forms that the `undefined` token can take in a text. -/
def encodings : List String := ["string", "empty_object"]

/-- Checks the options; the indentation is looked at first. -/
def checked (o : Options) : Except OptionsFault Options :=
  let encodingChecked : Except OptionsFault Options :=
    match o.undefinedEncoding.text? with
    | some s =>
      if encodings.contains s then .ok o else .error (.unknownEncoding o.undefinedEncoding)
    | none => .error (.unknownEncoding o.undefinedEncoding)
  match o.indent with
  | .null => encodingChecked
  | indent =>
    match indent.number? with
    | none => .error .unusableIndent
    | some n =>
      if n.order? (.int 0) = some .lt then .error (.negativeIndent indent) else encodingChecked

def set (o : Options) (name : String) (v : Value) : Except OptionsFault Options :=
  match name with
  | "strict_mode" => .ok { o with strictMode := v }
  | "indent" => .ok { o with indent := v }
  | "ensure_ascii" => .ok { o with ensureAscii := v }
  | "sort_keys" => .ok { o with sortKeys := v }
  | "undefined_encoding" => .ok { o with undefinedEncoding := v }
  | name => .error (.unknownOption name)

/-- The options with some of them changed. -/
def updated (o : Options) (changes : List (String × Value)) : Except OptionsFault Options := do
  let o ← changes.foldlM (fun o (name, v) => o.set name v) o
  o.checked

/-- The options with their names, in order. -/
def fields (o : Options) : List (String × Value) :=
  [("strict_mode", o.strictMode), ("indent", o.indent), ("ensure_ascii", o.ensureAscii),
    ("sort_keys", o.sortKeys), ("undefined_encoding", o.undefinedEncoding)]

def equal (a b : Options) : Bool :=
  Value.alikeItems false (a.fields.map (·.2)) (b.fields.map (·.2))

/-- Options as messages show them. -/
def shown (o : Options) : String :=
  let settings := o.fields.map fun (name, v) => s!"{name}={v.quoted}"
  let settings := String.intercalate ", " settings
  s!"SerializationOptions({settings})"

def jsonCodec (o : Options) : Json.Codec where
  indent := o.indent
  ensureAscii := o.ensureAscii
  sortKeys := o.sortKeys
  undefinedEncoding := o.undefinedEncoding

end Options
end Rulebook
