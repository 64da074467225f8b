import Rulebook.Value.Basic

/-!
What codecs know of YAML. A library writes values and reads texts. What it cannot write or read it
tells by an error of its own kinds, but it may fail in other ways as well.
-/

namespace Rulebook.Yaml

/-- What a library fails with. -/
inductive Failure where
  /-- An error of the kinds that the library has for it. -/
  | own (text : String)
  /-- Any other error, by its kind and, where it is known, its text. -/
  | other (kind : String) (text : Option String)

/-- What a library is told about the text that it writes. -/
structure DumpSettings where
  /-- Whether the entries of mappings are sorted by key, as a condition. -/
  sortKeys : Value
  /-- Leave characters outside ASCII as they are where they can be read. -/
  allowUnicode : Bool
  /-- Write collections between brackets. -/
  defaultFlowStyle : Bool

/-- A library that writes and reads YAML. -/
structure Library where
  dump : DumpSettings → Value → Except Failure String
  load : Value → Except Failure Value

end Rulebook.Yaml
