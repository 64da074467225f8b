import Rulebook.Value.Shown
import Rulebook.Yaml.Library

/-!
What is wrong with a YAML text. Most faults are one: the text is not YAML, or a part of it has no
meaning under its tag. A scalar whose form is right and whose value does not exist, such as a date
in a thirteenth month, is a fault of its own kind.
-/

namespace Rulebook.Yaml

/-- Why a text cannot be read. -/
inductive Fault where
  /-- The text is not YAML, or a tag does not suit what it stands at. -/
  | malformed
  /-- Neither a text nor octets. -/
  | notText
  | invalidInteger (base : Nat) (text : List Char)
  | invalidFloat (text : List Char)
  /-- A number without a digit, nor any other character. -/
  | emptyNumber
  /-- A truth value that is none of the words. -/
  | unknownWord
  | notTimestamp
  /-- A timestamp whose tag stands at a mapping. -/
  | timestampMapping
  | yearOutOfRange (year : Nat)
  | monthOutOfRange
  | dayOutOfRange
  | hourOutOfRange
  | minuteOutOfRange
  | secondOutOfRange
  | offsetOutOfRange (minutes : Int)
  /-- An escape with a code that is no code point. -/
  | codeOutOfRange
  /-- An escape with a code that is no machine integer. -/
  | codeTooLarge
  /-- A number in sixties with too many places. -/
  | placeTooLarge

/-- The wording of a fault; those that have none are told by their kind. -/
def Fault.message? : Fault → Option String
  | invalidInteger base text =>
    some s!"invalid literal for int() with base {base}: {String.ofList (Text.quoted text)}"
  | invalidFloat text =>
    some s!"could not convert string to float: {String.ofList (Text.quoted text)}"
  | yearOutOfRange year => some s!"year {year} is out of range"
  | monthOutOfRange => some "month must be in 1..12"
  | dayOutOfRange => some "day is out of range for month"
  | hourOutOfRange => some "hour must be in 0..23"
  | minuteOutOfRange => some "minute must be in 0..59"
  | secondOutOfRange => some "second must be in 0..59"
  | offsetOutOfRange minutes =>
    let day := "timedelta(hours=24)"
    some (s!"offset must be a timedelta strictly between -{day} and {day}, " ++
      s!"not {String.ofList (durationShown minutes)}.")
  | codeOutOfRange => some "chr() arg not in range(0x110000)"
  | codeTooLarge => some "Python int too large to convert to C int"
  | placeTooLarge => some "int too large to convert to float"
  | _ => none

/-- The failure of a library that a fault comes to. -/
def Fault.failure (f : Fault) : Failure :=
  match f with
  | malformed => .own "the text is not YAML"
  | notText | notTimestamp => .other "AttributeError" none
  | emptyNumber => .other "IndexError" none
  | unknownWord => .other "KeyError" none
  | timestampMapping => .other "TypeError" none
  | codeTooLarge | placeTooLarge => .other "OverflowError" f.message?
  | _ => .other "ValueError" f.message?

end Rulebook.Yaml
