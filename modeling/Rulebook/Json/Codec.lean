import Rulebook.Json.Reader
import Rulebook.Json.Writer
import Rulebook.Text.Encoding
import Rulebook.Value.Shown

/-!
The JSON codec. Its settings are values as a program passes them, and are looked at only when a
text is written: any undefined encoding but `empty_object` acts as a text, an indentation may be a
count or the indentation itself. Where it runs, integers may have a limited number of digits in a
text.
-/

namespace Rulebook.Json

/-- The settings of a codec. -/
structure Codec where
  indent : Value := .null
  ensureAscii : Value := .bool false
  sortKeys : Value := .bool false
  undefinedEncoding : Value := .str "string"
  /-- The number of digits that an integer may have in a text, which is no setting of its own. -/
  digits : Option Nat := some 4300

/-- Why a text, or a value in place of one, cannot be read. -/
inductive ReadingFault where
  | malformed (flaw : Flaw) (text : List Char)
  | undecodable (fault : Text.DecodingFault)
  | notText (kind : String)

def ReadingFault.message : ReadingFault → String
  | malformed flaw text => flaw.message text
  | undecodable fault => fault.message
  | notText kind => s!"the JSON object must be str, bytes or bytearray, not {kind}"

namespace Codec

/-- So many blanks, of which a negative number is none. -/
def blanks (n : Int) : Except WritingFault (Option (List Char)) :=
  if n < -0x8000000000000000 ∨ 0x8000000000000000 ≤ n then .error .hugeIndent
  else .ok (some (List.replicate n.toNat ' '))

def indentation (c : Codec) : Except WritingFault (Option (List Char)) :=
  match c.indent with
  | .null => .ok none
  | .str s | .member (.str s) => .ok (some s.toList)
  | .bool b => blanks (if b then 1 else 0)
  | .int n => blanks n
  | v => .error (.unusableIndent v.kind)

/-- Whether the `undefined` token is written as an empty object. -/
def writesEmptyObject (encoding : Value) : Bool := encoding.text? = some "empty_object"

/-- The layout of a codec with a given indentation. -/
def layout (c : Codec) (indent : Option (List Char)) : Layout where
  indent := indent
  ascii := c.ensureAscii.isTrue
  sorted := c.sortKeys.isTrue
  emptyObject := writesEmptyObject c.undefinedEncoding
  digits := c.digits

/-- Writes a value. A text on its own needs no indentation, so a bad one is not noticed. -/
def encode (c : Codec) (v : Value) : Except WritingFault String :=
  match v.text? with
  | some s => .ok (String.ofList (quotedString c.ensureAscii.isTrue s.toList))
  | none => do
    let indent ← c.indentation
    let text ← write (c.layout indent) 0 v
    pure (String.ofList text)

/-- Reads octets as a text. Half of a surrogate pair on its own is no character, but stands for one
until the text has been read. -/
def decodeOctets (c : Codec) (octets : List UInt8) : Except ReadingFault Value := do
  let units ← (Text.decode octets).mapError .undecodable
  let text := units.map (·.getD '\uFFFD')
  let v ← (read c.digits text).mapError fun flaw => .malformed flaw text
  if units.all Option.isSome then pure v else throw (.malformed ⟨.loneHalf, 0⟩ text)

/-- Reads a text, or a text as octets. -/
def decode (c : Codec) (v : Value) : Except ReadingFault Value :=
  match v.text?, v with
  | some s, _ => (readUnmarked c.digits s.toList).mapError fun flaw => .malformed flaw s.toList
  | none, .bytes octets => c.decodeOctets octets
  | none, v => .error (.notText v.kind)

/-- A codec as messages show it. -/
def shown (c : Codec) : String :=
  s!"JsonCodec(indent={c.indent.quoted}, ensure_ascii={c.ensureAscii.quoted}, " ++
    s!"sort_keys={c.sortKeys.quoted}, undefined_encoding={c.undefinedEncoding.quoted})"

end Codec
end Rulebook.Json
