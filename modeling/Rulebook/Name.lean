import Rulebook.Value.Shown
import Rulebook.Text.Lowercase
import Rulebook.Text.Blank

/-!
Canonical names. Type tags and record keys are told apart by their canonical name only: blanks at
the ends and the case of letters do not count, and a constant counts as the value it names.
-/

namespace Rulebook

def canonical (cs : List Char) : List Char := Text.lowercase (Text.trim cs)

/-- The canonical name of a value that serves as a type tag or as a key. -/
def Value.name : Value → String
  | .member v => String.ofList (canonical v.plain)
  | .constant text => String.ofList (canonical text.toList)
  | v => String.ofList (canonical v.plain)

end Rulebook
