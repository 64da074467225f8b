import Mathlib
import Rulebook.Report
import Rulebook.Yaml.Standard
import Rulebook.Yaml.Codec
import Rulebook.Proofs.Outcome
import Rulebook.Proofs.Record.Faults

/-!
# Errors of a YAML library that are not reported

A YAML codec reports the errors that its library has for malformed texts. Any other error of the library
is let through, and loading passes it on. The JSON codec reports whatever goes wrong.
-/

namespace Rulebook.Proofs
open Yaml

section Loading

variable (p : Pipeline) (text : Value)

end Loading

section Codecs

variable (lib : Library) (c : Codec) (text : Value)

end Codecs

/-! ## A day that does not exist -/

end Rulebook.Proofs
