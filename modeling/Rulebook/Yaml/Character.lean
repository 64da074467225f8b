/-!
Classes of characters in YAML. A line break is one of five characters, of which a carriage return
and a line feed together are one break; all but the two separators U+2028 and U+2029 are read as a
line feed.
-/

namespace Rulebook.Yaml

/-- Whether a character may stand in a text. -/
def isReadable (c : Char) : Bool :=
  let n := c.toNat
  c = '\t' || c = '\n' || c = '\r' || c = '\x85' || (0x20 ≤ n && n ≤ 0x7E) ||
    (0xA0 ≤ n && n ≤ 0xD7FF) || (0xE000 ≤ n && n ≤ 0xFFFD) || 0x10000 ≤ n

/-- Whether a character ends a line. -/
def isBreak (c : Char) : Bool :=
  c = '\n' || c = '\r' || c = '\x85' || c = '\u2028' || c = '\u2029'

/-- Whether a character is a blank, a tab or the end of a line. -/
def isWhite (c : Char) : Bool := c = ' ' || c = '\t' || isBreak c

/-- Whether a text starts with a blank, a tab or the end of a line, or is over. -/
def startsWhite (cs : List Char) : Bool := cs.head?.all isWhite

/-- Whether a text starts with the end of a line, or is over. -/
def startsBreak (cs : List Char) : Bool := cs.head?.all isBreak

/-- Whether a text starts with a blank or the end of a line, or is over. -/
def startsBlank (cs : List Char) : Bool := cs.head?.all fun c => c = ' ' || isBreak c

/-- The character that a line break is read as. -/
def breakChar (c : Char) : Char := if c = '\u2028' ∨ c = '\u2029' then c else '\n'

/-- How many characters the line break at the front of a text takes. -/
def breakWidth : List Char → Nat
  | '\r' :: '\n' :: _ => 2
  | _ => 1

/-- Whether a line starts with a document separator. -/
def startsSeparator (cs : List Char) : Bool :=
  (['-', '-', '-'].isPrefixOf cs || ['.', '.', '.'].isPrefixOf cs) && startsWhite (cs.drop 3)

/-- Whether a character may stand in the name of an anchor, a directive or a tag handle. -/
def isNameChar (c : Char) : Bool := c.isAlphanum || c = '-' || c = '_'

end Rulebook.Yaml
