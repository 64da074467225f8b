/-!
What is wrong with a JSON text, and where: a flaw has the offset of a character, counted from the
front of the text, and is worded with its line and column. An integer with too many digits is worded
without its place. A string with half a surrogate pair is no text here, and is refused where a text
has no other flaw.
-/

namespace Rulebook.Json

/-- Why a text is not JSON. -/
inductive Problem where
  | expectedValue
  | expectedName
  | expectedColon
  | expectedComma
  | extraData
  | unterminatedString
  | controlCharacter
  | invalidEscape
  | invalidCodeEscape
  | byteOrderMark
  /-- An integer has more digits than the limit. -/
  | longInteger (limit digits : Nat)
  /-- A string is no text, since it has half of a surrogate pair. -/
  | loneHalf
deriving DecidableEq

/-- The wording of a problem. -/
def Problem.message : Problem → String
  | expectedValue => "Expecting value"
  | expectedName => "Expecting property name enclosed in double quotes"
  | expectedColon => "Expecting ':' delimiter"
  | expectedComma => "Expecting ',' delimiter"
  | extraData => "Extra data"
  | unterminatedString => "Unterminated string starting at"
  | controlCharacter => "Invalid control character at"
  | invalidEscape => "Invalid \\escape"
  | invalidCodeEscape => "Invalid \\uXXXX escape"
  | byteOrderMark => "Unexpected UTF-8 BOM (decode using utf-8-sig)"
  | longInteger limit digits =>
    s!"Exceeds the limit ({limit} digits) for integer string conversion: value has {digits} digits; "
      ++ "use sys.set_int_max_str_digits() to increase the limit"
  | loneHalf => "Half of a surrogate pair"

/-- A problem at an offset. -/
structure Flaw where
  problem : Problem
  offset : Nat
deriving DecidableEq

/-- The line of an offset, counted from one. -/
def lineOf (text : List Char) (offset : Nat) : Nat := (text.take offset).count '\n' + 1

/-- The column of an offset, counted from one. -/
def columnOf (text : List Char) (offset : Nat) : Nat :=
  ((text.take offset).reverse.takeWhile (· != '\n')).length + 1

def Flaw.message (f : Flaw) (text : List Char) : String :=
  match f.problem with
  | .longInteger .. => f.problem.message
  | problem =>
    let place := s!"line {lineOf text f.offset} column {columnOf text f.offset} (char {f.offset})"
    s!"{problem.message}: {place}"

end Rulebook.Json
