import Rulebook.Yaml.Character

/-!
Block scalars: indented lines behind a header. The header tells whether lines fold, what becomes of
the line breaks at the end, and how far the lines are indented; without a number the first line that
is not blank decides.
-/

namespace Rulebook.Yaml

/-- What becomes of the line breaks at the end of a block scalar. -/
inductive Chomping where
  /-- All are dropped. -/
  | strip
  /-- The first one is kept. -/
  | clip
  /-- All are kept. -/
  | keep
deriving DecidableEq

/-- What the header of a block scalar tells after its first character. -/
structure BlockHeader where
  chomping : Chomping := .clip
  increment : Option Nat := none

/-- The number of an indentation, from one to nine. -/
def incrementOf? (c : Char) : Option Nat :=
  if c.isDigit ∧ c ≠ '0' then some (c.toNat - '0'.toNat) else none

/-- The chomping that a sign asks for. -/
def chompingOf? (c : Char) : Option Chomping :=
  if c = '+' then some .keep else if c = '-' then some .strip else none

/-- The signs of a header, and how many characters they take. A sign and a number may stand in
either order; what else stands there is left. -/
def headerSigns : List Char → BlockHeader × Nat
  | a :: b :: _ =>
    match chompingOf? a, incrementOf? a, chompingOf? b, incrementOf? b with
    | some chomping, _, _, some n => (⟨chomping, some n⟩, 2)
    | some chomping, _, _, none => (⟨chomping, none⟩, 1)
    | none, some n, some chomping, _ => (⟨chomping, some n⟩, 2)
    | none, some n, none, _ => (⟨.clip, some n⟩, 1)
    | none, none, _, _ => ({}, 0)
  | [a] =>
    match chompingOf? a, incrementOf? a with
    | some chomping, _ => (⟨chomping, none⟩, 1)
    | none, some n => (⟨.clip, some n⟩, 1)
    | none, none => ({}, 0)
  | [] => ({}, 0)

/-- How many characters blanks and a comment take at the front of a text. -/
def commentWidth (cs : List Char) : Nat :=
  let blanks := (cs.takeWhile (· = ' ')).length
  match cs.drop blanks with
  | '#' :: rest => blanks + 1 + (rest.takeWhile (!isBreak ·)).length
  | _ => blanks

/-- The header at the front of a text, after its first character, and how many characters its line
takes with the line break. -/
def blockHeader? (cs : List Char) : Option (BlockHeader × Nat) :=
  let (header, signs) := headerSigns cs
  let rest := cs.drop signs
  let comment := commentWidth rest
  let tail := rest.drop comment
  if startsBlank rest && startsBreak tail then
    some (header, signs + comment + (if tail.isEmpty then 0 else breakWidth tail))
  else none

/-- A line of a text. -/
structure Line where
  text : List Char
  /-- The line break behind it, which the last line lacks. -/
  lineBreak : Option Char
  /-- How many characters it takes with the line break. -/
  width : Nat

namespace Line

/-- Puts a character in front of a line. -/
def cons (c : Char) (l : Line) : Line := ⟨c :: l.text, l.lineBreak, l.width + 1⟩

/-- How many blanks stand at the front of a line. -/
def blanks (l : Line) : Nat := (l.text.takeWhile (· = ' ')).length

/-- Whether a line holds blanks only, and has an end. -/
def isBlank (l : Line) : Bool := l.text.all (· = ' ') && l.lineBreak.isSome

end Line

/-- The lines of a text, of which the first `skip` characters belong to a line break already
read. -/
def linesFrom : Nat → List Char → List Line
  | _, [] => [⟨[], none, 0⟩]
  | skip + 1, _ :: rest => linesFrom skip rest
  | 0, c :: rest =>
    if isBreak c then
      let width := breakWidth (c :: rest)
      ⟨[], some (breakChar c), width⟩ :: linesFrom (width - 1) rest
    else
      match linesFrom 0 rest with
      | line :: lines => line.cons c :: lines
      | [] => [⟨[c], none, 1⟩]

/-- The indentation that the first line with content tells: that of the line itself, or of a longer
blank line before it. -/
def detectedIndent : List Line → Nat
  | [] => 0
  | line :: rest => if line.isBlank then max line.text.length (detectedIndent rest) else line.blanks

/-- Whether a text starts with a character that is neither a blank nor a tab. -/
def startsSolid (cs : List Char) : Bool := cs.head?.all fun c => c ≠ ' ' && c ≠ '\t'

def lineJoint (fold : Bool) (previous : Line) (breaks : List Char) (next : List Char) : List Char :=
  let joint := previous.lineBreak.toList
  if fold && previous.lineBreak == some '\n' && startsSolid previous.text && startsSolid next then
    if breaks.isEmpty then [' '] else []
  else joint

def chomped (chomping : Chomping) (lineBreak breaks : List Char) : List Char :=
  match chomping with
  | .strip => []
  | .clip => lineBreak
  | .keep => lineBreak ++ breaks

/-- The text of the lines of a block scalar that are indented by `indent`, behind a previous line
and the breaks of blank lines, and how many characters it takes. -/
def blockText (fold : Bool) (chomping : Chomping) (indent : Nat) :
    Option Line → List Char → List Line → List Char × Nat
  | previous, breaks, [] => (chomped chomping (previous.elim [] (·.lineBreak.toList)) breaks, 0)
  | previous, breaks, line :: rest =>
    if line.isBlank && decide (line.text.length ≤ indent) then
      let (text, n) :=
        blockText fold chomping indent previous (breaks ++ line.lineBreak.toList) rest
      (text, n + line.width)
    else if indent ≤ line.blanks ∧ indent < line.text.length then
      let content : Line := { line with text := line.text.drop indent }
      let joint := previous.elim [] fun p => lineJoint fold p breaks content.text
      let (text, n) := blockText fold chomping indent (some content) [] rest
      (joint ++ breaks ++ content.text ++ text, n + line.width)
    else
      (chomped chomping (previous.elim [] (·.lineBreak.toList)) breaks, min line.blanks indent)

/-- Reads a block scalar, of which the text after its first character is given: its text, and how
many characters it takes after that one. Its lines are indented by `least` at least. -/
def blockScalar? (fold : Bool) (least : Nat) (cs : List Char) : Option (List Char × Nat) :=
  (blockHeader? cs).map fun (header, width) =>
    let lines := linesFrom 0 (cs.drop width)
    let least := max least 1
    let indent := match header.increment with
      | some n => least + n - 1
      | none => max least (detectedIndent lines)
    let (text, n) := blockText fold header.chomping indent none [] lines
    (text, width + n)

end Rulebook.Yaml
