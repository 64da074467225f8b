import Rulebook.Record.Fault
import Rulebook.Json.Codec

/-!
The faults of a pipeline, from the text to the rules and back.
-/

namespace Rulebook

/-- Why a pipeline has no result. -/
inductive Fault where
  | record (fault : RecordFault)
  | jsonReading (fault : Json.ReadingFault)
  | jsonWriting (fault : Json.WritingFault)
  /-- A library finds that a text is not YAML, and says why. -/
  | yamlReading (text : String)
  /-- A library finds no form for a value in YAML, and says why. -/
  | yamlWriting (text : String)
  /-- An error of a library that a codec lets through, by its kind and its text. -/
  | escaped (kind : String) (text : Option String)
  /-- A compiler refuses a tree. -/
  | compiler (reason : String) (tree : Value)

end Rulebook
