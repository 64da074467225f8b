import Rulebook.Yaml.Node

/-!
Styles of scalars. A scalar is written plain if its form suggests its tag and nothing in it means
something else; else between apostrophes, and between double quotes if it holds something that only
an escape can write or a blank beside a line break.
-/

namespace Rulebook.Yaml

/-- Whether a character ends a line when it is written. A carriage return does not: it is
escaped. -/
def isWrittenBreak (c : Char) : Bool := c = '\n' || c = '\x85' || c = '\u2028' || c = '\u2029'

/-- Whether a character can be written outside double quotes. -/
def isWritable (c : Char) : Bool :=
  let n := c.toNat
  c = '\n' || c = '\x85' || (0x20 ≤ n && n ≤ 0x7E) ||
    (((0xA0 ≤ n && n ≤ 0xD7FF) || (0xE000 ≤ n && n ≤ 0xFFFD) ||
      (0x10000 ≤ n && n < 0x10FFFF)) && c ≠ '\uFEFF')

/-- The characters that start no plain scalar, whatever follows. -/
def leadingMarks : List Char :=
  ['#', ',', '[', ']', '\x7b', '\x7d', '&', '*', '!', '|', '>', '\'', '"', '%', '@', '\x60']

/-- Whether something behind the first character keeps a text from being plain: a colon before a
blank, or a number sign behind one. -/
def holdsIndicator : Char → List Char → Bool
  | _, [] => false
  | before, c :: rest =>
    (c = ':' && startsWhite rest) || (c = '#' && isWhite before) || holdsIndicator c rest

/-- Whether indicators keep a text from being plain. -/
def isIndicated : List Char → Bool
  | [] => false
  | c :: rest =>
    ['-', '-', '-'].isPrefixOf (c :: rest) || ['.', '.', '.'].isPrefixOf (c :: rest) ||
      leadingMarks.contains c || ((c = '?' || c = ':' || c = '-') && startsWhite rest) ||
      holdsIndicator c rest

/-- Whether a blank stands directly before a line break, or directly behind one. -/
def holdsBlankBesideBreak : List Char → Bool
  | a :: b :: rest =>
    (a = ' ' && isWrittenBreak b) || (isWrittenBreak a && b = ' ') ||
      holdsBlankBesideBreak (b :: rest)
  | _ => false

/-- Whether a text starts or ends with a blank or a line break. -/
def hasLooseEnd (cs : List Char) : Bool :=
  let loose (c : Char) := c = ' ' || isWrittenBreak c
  cs.head?.any loose || cs.getLast?.any loose

/-- Whether a text goes over several lines. -/
def isMultiline (cs : List Char) : Bool := cs.any isWrittenBreak

/-- Whether a text can stand between apostrophes. -/
def allowsApostrophes (cs : List Char) : Bool := cs.all isWritable && !holdsBlankBesideBreak cs

/-- Whether a text can stand without marks around it. -/
def allowsPlain (cs : List Char) : Bool :=
  allowsApostrophes cs && !isMultiline cs && !hasLooseEnd cs && !isIndicated cs

/-- How a scalar is written. -/
inductive Style where
  | plain
  | apostrophes
  | doubleQuotes
deriving DecidableEq

/-- The style of a scalar. -/
def styleOf (tag : Tag) (cs : List Char) : Style :=
  if resolve cs = tag ∧ allowsPlain cs then .plain
  else if allowsApostrophes cs then .apostrophes
  else .doubleQuotes

end Rulebook.Yaml
