import Rulebook.Yaml.Scalar.Folding

/-!
Plain scalars, which have no marks around them. A plain scalar ends before a comment, a colon that
is followed by a blank, a tab, a line of smaller indentation or a document separator; inside
brackets it also ends before a comma, a question mark or a bracket. The blanks and line breaks
behind it are taken with it and do not belong to its text.
-/

namespace Rulebook.Yaml

/-- The characters that end a plain scalar inside brackets. -/
def bracketMarks : List Char := [',', '?', '[', ']', '\x7b', '\x7d']

/-- Whether a word ends before the character `c`. -/
def endsWord (inBrackets : Bool) (c : Char) (rest : List Char) : Bool :=
  let colonEnds := startsWhite rest ||
    (inBrackets && rest.head?.any [',', '[', ']', '\x7b', '\x7d'].contains)
  c = '\t' || (c = ':' && colonEnds) || (inBrackets && bracketMarks.contains c)

/-- What has been met since the last word of a plain scalar. -/
inductive WordGap where
  | nothing
  | blanks
  /-- A line break, and the column that has been reached on the line. -/
  | line (column : Nat)

namespace WordGap

def addBlank : WordGap → WordGap
  | line column => line (column + 1)
  | _ => blanks

/-- Whether the scalar ends before the character `c`, which is no blank, for the sake of the gap
before it. -/
def ends (inBrackets : Bool) (indent : Nat) (c : Char) : WordGap → Bool
  | nothing => false
  | blanks => c = '#'
  | line column => c = '#' || (!inBrackets && decide (column < indent))

end WordGap

/-- The pieces of a plain scalar and of the gap behind it, and how many characters they take. The
first `skip` characters belong to a piece already read; continued lines are indented by at least
`indent`. -/
def plainPieces (inBrackets : Bool) (indent : Nat) :
    Nat → WordGap → List Char → List Piece × Nat
  | _, _, [] => ([], 0)
  | skip + 1, gap, _ :: rest =>
    let (ps, n) := plainPieces inBrackets indent skip gap rest
    (ps, n + 1)
  | 0, gap, c :: rest =>
    if c = ' ' then
      let (ps, n) := plainPieces inBrackets indent 0 gap.addBlank rest
      (.blank c :: ps, n + 1)
    else if isBreak c then
      let width := breakWidth (c :: rest)
      if startsSeparator (rest.drop (width - 1)) then ([.newline (breakChar c)], width)
      else
        let (ps, n) := plainPieces inBrackets indent (width - 1) (.line 0) rest
        (.newline (breakChar c) :: ps, n + 1)
    else if gap.ends inBrackets indent c || endsWord inBrackets c rest then ([], 0)
    else
      let (ps, n) := plainPieces inBrackets indent 0 .nothing rest
      (.char c :: ps, n + 1)

/-- Whether a piece is a character that stands for itself. -/
def Piece.isChar : Piece → Bool
  | .char _ => true
  | _ => false

/-- A plain scalar as it has been read. -/
structure PlainScalar where
  text : List Char
  /-- How many characters it takes, with the gap behind it. -/
  width : Nat
  /-- Whether the gap behind it goes past the end of a line. -/
  crossesLine : Bool

/-- Reads the plain scalar at the front of a text. -/
def plainScalar (inBrackets : Bool) (indent : Nat) (cs : List Char) : PlainScalar :=
  let (ps, width) := plainPieces inBrackets indent 0 .nothing cs
  let gap := ps.reverse.takeWhile (!·.isChar)
  { text := folded .empty (ps.take (ps.length - gap.length))
    width := width
    crossesLine := gap.any fun
      | .newline _ => true
      | _ => false }

end Rulebook.Yaml
