import Rulebook.Value.Shown
import Rulebook.Text.Blank
import Rulebook.Text.Uppercase

/-!
Levels of a log. A level is a number, and the usual ones have names. A truth value counts as a
number, and is still shown as a truth value.
-/

namespace Rulebook.Log

/-- How grave a record is. -/
inductive Severity where
  | debug
  | warning
deriving DecidableEq

namespace Severity

/-- The number of a severity. -/
def value : Severity → Int
  | debug => 10
  | warning => 30

def name : Severity → String
  | debug => "DEBUG"
  | warning => "WARNING"

end Severity

/-- From which severity on records count. -/
inductive Level where
  | number (n : Int)
  | flag (b : Bool)
deriving DecidableEq

namespace Level

/-- The number of a level. -/
def value : Level → Int
  | number n => n
  | flag b => if b then 1 else 0

def asValue : Level → Value
  | number n => .int n
  | flag b => .bool b

def shown (l : Level) : String := l.asValue.sentence

def names : List (String × Int) :=
  [("CRITICAL", 50), ("FATAL", 50), ("ERROR", 40), ("WARN", 30), ("WARNING", 30), ("INFO", 20),
    ("DEBUG", 10), ("NOTSET", 0)]

/-- The level that a value names. A number is one, and a name counts without the blanks around it
and whatever its case. -/
def ofValue? : Value → Option Level
  | .int n => some (.number n)
  | .bool b => some (.flag b)
  | v => (names.lookup (String.ofList (Text.uppercase (Text.trim v.plain)))).map .number

def fault (v : Value) : String := s!"Unknown log level: {v.quoted}"

end Level
end Rulebook.Log
