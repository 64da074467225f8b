import Rulebook.Text.Encoding
import Rulebook.Yaml.Data
import Rulebook.Yaml.Library
import Rulebook.Yaml.Meaning
import Rulebook.Yaml.Writer

/-!
A library for YAML. It writes plain data in block style, with characters outside ASCII as they are,
and reads documents without nodes that hold themselves. Codecs leave the library open: this one is
there to run them with.
-/

namespace Rulebook.Yaml

/-- Reads a text that holds at most one document; a text without one is null. -/
def read (text : List Char) : Except Fault Value :=
  if text.all isReadable then do
    match ← Node.ofTokens? (scan text) with
    | some node => node.value
    | none => pure .null
  else .error .malformed

/-- The encoding of octets, which a byte order mark tells. -/
def encodingOf : List UInt8 → Text.Encoding
  | 0xFF :: 0xFE :: _ => .utf16 false
  | 0xFE :: 0xFF :: _ => .utf16 true
  | _ => .utf8

/-- Reads a text, or a text as octets. -/
def decode (v : Value) : Except Fault Value :=
  match v.text?, v with
  | some s, _ => read s.toList
  | none, .bytes octets =>
    match Text.decodeStrictly? (encodingOf octets) octets with
    | some text => read text
    | none => .error .malformed
  | none, _ => .error .notText

namespace Library

/-- The library of this reader and this writer. -/
def standard : Library where
  dump settings v :=
    match valueNode? settings.sortKeys.isTrue v with
    | some node => .ok (String.ofList node.text)
    | none => .error (.own "cannot represent an object")
  load v := (decode v).mapError Fault.failure

end Library
end Rulebook.Yaml
