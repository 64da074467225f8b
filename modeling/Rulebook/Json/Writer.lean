import Rulebook.Json.Token
import Rulebook.Value.Order
import Rulebook.Text.Quoted
import Rulebook.Number.Numeral

/-!
Writing JSON. A layout fixes the indentation, which characters are escaped, the order of members,
the form of the `undefined` token, and how long integers may be. Sequences of every kind are lists; a
member's name may be a text, a number, a truth value or null.
-/

namespace Rulebook.Json

/-- How a JSON text is laid out. -/
structure Layout where
  /-- What one level of indentation adds to a line; `none` keeps everything on one line. -/
  indent : Option (List Char)
  /-- Escape every character outside ASCII. -/
  ascii : Bool
  /-- Sort the members of objects by name. -/
  sorted : Bool
  /-- Write the `undefined` token as an empty object, not as a text. -/
  emptyObject : Bool
  /-- The number of digits that an integer may have, if there is one. -/
  digits : Option Nat

/-- Why a value cannot be written. -/
inductive WritingFault where
  | notSerializable (kind : String)
  | unusableName (kind : String)
  | unordered (u : Unordered)
  /-- The indentation is no count and no text. -/
  | unusableIndent (kind : String)
  /-- The indentation is no machine-sized count. -/
  | hugeIndent
  /-- An integer has more digits than the limit. -/
  | longInteger (limit : Nat)

def WritingFault.message : WritingFault → String
  | notSerializable kind => s!"Object of type {kind} is not JSON serializable"
  | unusableName kind => s!"keys must be str, int, float, bool or None, not {kind}"
  | unordered u => u.message
  | unusableIndent kind => s!"can't multiply sequence by non-int of type '{kind}'"
  | hugeIndent => "cannot fit 'int' into an index-sized integer"
  | longInteger limit =>
    s!"Exceeds the limit ({limit} digits) for integer string conversion; " ++
      "use sys.set_int_max_str_digits() to increase the limit"

/-- A text written so far, or why there is none. -/
abbrev Written := Except WritingFault (List Char)

def unitEscape (u : Nat) : List Char := '\\' :: 'u' :: Text.hexDigits 4 u

/-- The escape of a character outside the printable ASCII ones, by one code unit or two. -/
def codeEscapes (n : Nat) : List Char :=
  if n < 0x10000 then unitEscape n
  else unitEscape (0xD800 + (n - 0x10000) / 0x400) ++ unitEscape (0xDC00 + (n - 0x10000) % 0x400)

/-- A character inside a string. -/
def stringChar (ascii : Bool) (c : Char) : List Char :=
  if c = '"' then ['\\', '"']
  else if c = '\\' then ['\\', '\\']
  else if c = '\n' then ['\\', 'n']
  else if c = '\r' then ['\\', 'r']
  else if c = '\t' then ['\\', 't']
  else if c = '\x08' then ['\\', 'b']
  else if c = '\x0c' then ['\\', 'f']
  else if c.toNat < 32 ∨ (ascii ∧ 126 < c.toNat) then codeEscapes c.toNat
  else [c]

def quotedString (ascii : Bool) (cs : List Char) : List Char :=
  '"' :: cs.flatMap (stringChar ascii) ++ ['"']

/-- A number that need not be finite. -/
def floatText (x : Binary64) : List Char :=
  match x with
  | .nan => "NaN".toList
  | .infinite negative => if negative then "-Infinity".toList else "Infinity".toList
  | .finite .. => x.text

/-- An integer of no more digits than the limit. -/
def limitedText (limit : Option Nat) (n : Int) : Written :=
  match exceeded? limit n with
  | some limit => .error (.longInteger limit)
  | none => .ok (integerText n)

/-- The name that a key gives to a member. -/
def memberName (limit : Option Nat) : Value → Written
  | .str s | .member (.str s) => .ok s.toList
  | .float x => .ok (floatText x)
  | .bool b => .ok (if b then "true".toList else "false".toList)
  | .null => .ok "null".toList
  | .int n => limitedText limit n
  | v => .error (.unusableName v.kind)

def newLine (indent : List Char) (depth : Nat) : List Char :=
  '\n' :: (List.replicate depth indent).flatten

/-- Pieces between brackets, at a depth of indentation. -/
def block (layout : Layout) (depth : Nat) (opening closing : Char) (pieces : List (List Char)) :
    List Char :=
  if pieces.isEmpty then [opening, closing]
  else
    match layout.indent with
    | none => opening :: (pieces.intersperse [',', ' ']).flatten ++ [closing]
    | some indent =>
      let line := newLine indent (depth + 1)
      opening :: line ++ (pieces.intersperse (',' :: line)).flatten ++
        newLine indent depth ++ [closing]

/-- A member of an object, once its value is written. -/
def memberText (layout : Layout) (member : Value × Written) : Written := do
  let name ← memberName layout.digits member.1
  let value ← member.2
  pure (quotedString layout.ascii name ++ ':' :: ' ' :: value)

/-- Orders members by name if the layout says so. -/
def orderMembers (layout : Layout) (members : List (Value × Written)) :
    Except WritingFault (List (Value × Written)) :=
  if layout.sorted then
    (sortBy (fun a b => Value.before a.1 b.1) members).mapError .unordered
  else .ok members

mutual

/-- Writes a value at a depth of indentation. -/
def write (layout : Layout) (depth : Nat) : Value → Written
  | .null => .ok "null".toList
  | .bool b => .ok (if b then "true".toList else "false".toList)
  | .int n => limitedText layout.digits n
  | .float x => .ok (floatText x)
  | .str s => .ok (quotedString layout.ascii s.toList)
  | .member (.str s) => .ok (quotedString layout.ascii s.toList)
  | .list items => do
    let pieces ← writeItems layout (depth + 1) items
    pure (block layout depth '[' ']' pieces)
  | .tuple items => do
    let pieces ← writeItems layout (depth + 1) items
    pure (block layout depth '[' ']' pieces)
  | .node tag payload => do
    let tag ← write layout (depth + 1) tag
    let payload ← write layout (depth + 1) payload
    pure (block layout depth '[' ']' [tag, payload])
  | .dict entries => do
    let members ← orderMembers layout (writeMembers layout (depth + 1) entries)
    let pieces ← members.mapM (memberText layout)
    pure (block layout depth '\x7b' '\x7d' pieces)
  | .undefined =>
    .ok (if layout.emptyObject then ['\x7b', '\x7d']
      else quotedString layout.ascii "Undefined".toList)
  | v => .error (.notSerializable v.kind)

def writeItems (layout : Layout) (depth : Nat) : List Value → Except WritingFault (List (List Char))
  | [] => .ok []
  | item :: rest => do
    let piece ← write layout depth item
    let pieces ← writeItems layout depth rest
    pure (piece :: pieces)

/-- Writes the values of a mapping, each with its key. -/
def writeMembers (layout : Layout) (depth : Nat) : Entries → List (Value × Written)
  | [] => []
  | (key, value) :: rest => (key, write layout depth value) :: writeMembers layout depth rest

end

end Rulebook.Json
