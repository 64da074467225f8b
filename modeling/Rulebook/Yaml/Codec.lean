import Rulebook.Pipeline
import Rulebook.Value.Plain
import Rulebook.Yaml.Library

/-!
The YAML codec. It leaves writing and reading to a library, which is given plain values. Its settings
are values as a program passes them; they are looked at only when a text is written.
-/

namespace Rulebook.Yaml

/-- The settings of a codec. -/
structure Codec where
  undefinedEncoding : Value := .str "string"
  sortKeys : Value := .bool false

/-- The fault of a pipeline that a failure comes to, where `report` makes one of an error of the
library's own kinds. Other errors are let through. -/
def Failure.fault (report : String → Rulebook.Fault) : Failure → Rulebook.Fault
  | own text => report text
  | other kind text => .escaped kind text

namespace Codec

/-- Whether the `undefined` token is written as an empty object. -/
def writesEmptyObject (c : Codec) : Bool := Json.Codec.writesEmptyObject c.undefinedEncoding

/-- What the library is given in place of a value. -/
def toPlain (c : Codec) (v : Value) : Value := plain c.writesEmptyObject v

def dumpSettings (c : Codec) : DumpSettings where
  sortKeys := c.sortKeys
  allowUnicode := true
  defaultFlowStyle := false

/-- The codec as a part of a pipeline. -/
def textCodec (c : Codec) (lib : Library) : TextCodec where
  name := "yaml"
  encode v := (lib.dump c.dumpSettings (c.toPlain v)).mapError (·.fault .yamlWriting)
  decode v := (lib.load v).mapError (·.fault .yamlReading)

end Codec
end Rulebook.Yaml
