import Rulebook.Text.Hexadecimal
import Rulebook.Yaml.Fault
import Rulebook.Yaml.Scalar.Folding

/-!
Quoted scalars. Between apostrophes everything stands for itself, and an apostrophe is written
twice; between double quotes a backslash starts an escape. Lines fold in both.
-/

namespace Rulebook.Yaml

/-- The characters that stand for another one after a backslash. -/
def shortEscapes : List (Char × Char) :=
  [('0', '\x00'), ('a', '\x07'), ('b', '\x08'), ('t', '\t'), ('\t', '\t'), ('n', '\n'),
    ('v', '\x0b'), ('f', '\x0c'), ('r', '\r'), ('e', '\x1b'), (' ', ' '), ('"', '"'),
    ('\\', '\\'), ('/', '/'), ('N', '\x85'), ('_', '\xa0'), ('L', '\u2028'), ('P', '\u2029')]

/-- How many hexadecimal digits follow a letter after a backslash. -/
def codeLengths : List (Char × Nat) := [('x', 2), ('u', 4), ('U', 8)]

/-- The character of a code; a surrogate is replaced. -/
def codeChar (n : Nat) : Except Fault Char :=
  if 0x80000000 ≤ n then .error .codeTooLarge
  else if 0x110000 ≤ n then .error .codeOutOfRange
  else .ok (if 0xD800 ≤ n ∧ n ≤ 0xDFFF then '\uFFFD' else Char.ofNat n)

/-- The line break at the front of a text, and how many characters it takes. No document separator
may stand behind it. -/
def breakPiece (piece : Piece) (cs : List Char) : Except Fault (Piece × Nat) :=
  let width := breakWidth cs
  if startsSeparator (cs.drop width) then .error .malformed else .ok (piece, width)

/-- The escape of which the text after the backslash is given, and how many characters it takes
with the backslash. -/
def escapePiece : List Char → Except Fault (Piece × Nat)
  | [] => .error .malformed
  | e :: rest =>
    match shortEscapes.lookup e, codeLengths.lookup e with
    | some c, _ => .ok (.char c, 2)
    | none, some length =>
      match (rest.take length).mapM Text.hexValue? with
      | some digits =>
        if digits.length < length then .error .malformed
        else (codeChar (digits.foldl (fun n d => 16 * n + d) 0)).map fun c =>
          (.char c, length + 2)
      | none => .error .malformed
    | none, none =>
      if isBreak e then (breakPiece .hidden (e :: rest)).map fun (p, width) => (p, width + 1)
      else .error .malformed

/-- The piece at the front of a text, and how many characters it takes; the closing mark is none. -/
def quotedPiece (mark c : Char) (rest : List Char) : Except Fault (Option Piece × Nat) :=
  let some' (r : Except Fault (Piece × Nat)) := r.map fun (p, width) => (some p, width)
  if isBreak c then some' (breakPiece (.newline (breakChar c)) (c :: rest))
  else if c = ' ' ∨ c = '\t' then .ok (some (.blank c), 1)
  else if c = mark then
    if mark = '\'' ∧ rest.head? = some mark then .ok (some (.char mark), 2) else .ok (none, 1)
  else if mark = '"' ∧ c = '\\' then some' (escapePiece rest)
  else .ok (some (.char c), 1)

/-- The pieces of a text up to the closing mark, and how many characters they take with the mark.
The first `skip` characters belong to a piece already read. -/
def quotedPieces (mark : Char) : Nat → List Char → Except Fault (List Piece × Nat)
  | _, [] => .error .malformed
  | skip + 1, _ :: rest => (quotedPieces mark skip rest).map fun (ps, n) => (ps, n + 1)
  | 0, c :: rest =>
    match quotedPiece mark c rest with
    | .error fault => .error fault
    | .ok (none, _) => .ok ([], 1)
    | .ok (some p, width) =>
      (quotedPieces mark (width - 1) rest).map fun (ps, n) => (p :: ps, n + 1)

/-- Reads a quoted scalar, of which the text after the opening mark is given: its text, and how
many characters it takes after that mark. -/
def quotedScalar (mark : Char) (cs : List Char) : Except Fault (List Char × Nat) :=
  (quotedPieces mark 0 cs).map fun (ps, n) => (folded .empty ps, n)

end Rulebook.Yaml
