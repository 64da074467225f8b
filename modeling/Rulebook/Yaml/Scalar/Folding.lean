import Rulebook.Yaml.Character

/-!
Folding. A scalar on the page is a sequence of pieces: characters that stand for themselves, and
blanks and line breaks, which fold. Blanks at either side of a line break are dropped; a single
break becomes a blank, and of several breaks the first one is dropped.
-/

namespace Rulebook.Yaml

inductive Piece where
  | char (c : Char)
  | blank (c : Char)
  | newline (c : Char)
  /-- A line break that an escape takes out of the text. -/
  | hidden
deriving DecidableEq

/-- What has been met since the last character that stands for itself. -/
inductive Gap where
  | blanks (cs : List Char)
  /-- The first line break, unless it was hidden, and those behind it. -/
  | breaks (first : Option Char) (more : List Char)

namespace Gap

/-- The gap that holds nothing. -/
def empty : Gap := blanks []

def addBlank (c : Char) : Gap → Gap
  | blanks cs => blanks (cs ++ [c])
  | gap => gap

/-- A gap with one more line break. -/
def addBreak (c : Char) : Gap → Gap
  | blanks _ => breaks (some c) []
  | breaks first more => breaks first (more ++ [c])

def text : Gap → List Char
  | blanks cs => cs
  | breaks none more => more
  | breaks (some first) more =>
    if first ≠ '\n' then first :: more else if more.isEmpty then [' '] else more

end Gap

/-- The text of pieces that stand behind a gap. -/
def folded : Gap → List Piece → List Char
  | gap, [] => gap.text
  | gap, .char c :: rest => gap.text ++ c :: folded .empty rest
  | gap, .blank c :: rest => folded (gap.addBlank c) rest
  | gap, .newline c :: rest => folded (gap.addBreak c) rest
  | gap, .hidden :: rest => gap.text ++ folded (.breaks none []) rest

end Rulebook.Yaml
