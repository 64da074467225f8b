import Rulebook.Text.Ranges

/-!
Blank characters, and trimming. The class holds the Unicode white space characters and the four
separators U+001C to U+001F; it leaves out U+200B and U+FEFF.
-/

namespace Rulebook.Text

def blankRanges : List (Nat × Nat) := [
    (9, 13), (28, 32), (133, 133), (160, 160), (5760, 5760), (8192, 8202), (8232, 8233),
    (8239, 8239), (8287, 8287), (12288, 12288)]

/-- Whether a character is trimmed off the ends of a name. -/
def isBlank (c : Char) : Bool := inRanges blankRanges c.toNat

/-- The text without the blanks at its end. -/
def trimRight (cs : List Char) : List Char := (cs.reverse.dropWhile isBlank).reverse

/-- The text without the blanks at its ends. -/
def trim (cs : List Char) : List Char := trimRight (cs.dropWhile isBlank)

end Rulebook.Text
