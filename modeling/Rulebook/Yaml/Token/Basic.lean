import Rulebook.Yaml.Fault

/-!
The tokens of a YAML text. The indentation of block collections has become tokens of its own: a
start, and an end that all block collections share.
-/

namespace Rulebook.Yaml

/-- What a directive says. -/
inductive Directive where
  | version (major : Nat)
  /-- What a handle stands for in tags. -/
  | tagHandle (handle replacement : List Char)
  | other

inductive Token where
  | streamEnd
  | directive (d : Directive)
  | documentStart
  | documentEnd
  | sequenceStart
  | mappingStart
  /-- A block collection ends. -/
  | blockEnd
  | listOpen
  | listClose
  | mapOpen
  | mapClose
  /-- A dash, before an item of a block sequence. -/
  | dash
  | comma
  /-- A key follows, with a question mark before it or without. -/
  | key
  /-- A colon, before the value under a key. -/
  | value
  | anchor (name : List Char)
  | reference (name : List Char)
  /-- A tag: a handle, unless it is written out in full, and what follows the handle. -/
  | tag (handle : Option (List Char)) (suffix : List Char)
  | scalar (text : List Char) (plain : Bool)
  /-- No token can be read here. -/
  | flaw (fault : Fault)

end Rulebook.Yaml
