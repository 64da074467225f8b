import Rulebook.Yaml.Style

/-!
Writing nodes. Collections are written in blocks, two columns for each level; a sequence under a
key is indented no more than its key. A scalar takes one line, however long, unless it holds line
breaks. A document that is a plain scalar has a mark behind it, for the scalar could go on.
-/

namespace Rulebook.Yaml

/-- A line break and the blanks of an indentation. -/
def newLine (indent : Nat) : List Char := '\n' :: List.replicate indent ' '

/-- The line breaks of a text between apostrophes, and the indentation behind them. A line feed
would fold to a blank, so one more is written in front. -/
def writtenBreaks (indent : Nat) (breaks : List Char) : List Char :=
  (if breaks.head? = some '\n' then ['\n'] else []) ++ breaks ++ List.replicate indent ' '

/-- A text between apostrophes, of which the line breaks before it are given. -/
def apostropheText (indent : Nat) : List Char → List Char → List Char
  | breaks, [] => if breaks.isEmpty then [] else writtenBreaks indent breaks
  | breaks, c :: rest =>
    if isWrittenBreak c then apostropheText indent (breaks ++ [c]) rest
    else
      (if breaks.isEmpty then [] else writtenBreaks indent breaks) ++
        (if c = '\'' then ['\'', '\''] else [c]) ++ apostropheText indent [] rest

/-- The letters that stand for a character behind a backslash. -/
def writtenEscapes : List (Char × Char) :=
  [('\x00', '0'), ('\x07', 'a'), ('\x08', 'b'), ('\t', 't'), ('\n', 'n'), ('\x0b', 'v'),
    ('\x0c', 'f'), ('\r', 'r'), ('\x1b', 'e'), ('"', '"'), ('\\', '\\'), ('\x85', 'N'),
    ('\xa0', '_'), ('\u2028', 'L'), ('\u2029', 'P')]

/-- Whether a character between double quotes stands for itself. -/
def isBare (c : Char) : Bool :=
  let n := c.toNat
  !(['"', '\\', '\x85', '\u2028', '\u2029', '\uFEFF'].contains c) &&
    ((0x20 ≤ n && n ≤ 0x7E) || (0xA0 ≤ n && n ≤ 0xD7FF) || (0xE000 ≤ n && n ≤ 0xFFFD))

/-- The escape of a code: two, four or eight digits in upper case. -/
def codeEscape (n : Nat) : List Char :=
  let digits (width : Nat) := (Text.hexDigits width n).map Char.toUpper
  if n ≤ 0xFF then 'x' :: digits 2
  else if n ≤ 0xFFFF then 'u' :: digits 4
  else 'U' :: digits 8

/-- A character between double quotes. -/
def quotedChar (c : Char) : List Char :=
  if isBare c then [c]
  else
    match writtenEscapes.lookup c with
    | some e => ['\\', e]
    | none => '\\' :: codeEscape c.toNat

/-- A text in a style, with the indentation of its further lines. -/
def styled (indent : Nat) (style : Style) (cs : List Char) : List Char :=
  match style with
  | .plain => cs
  | .apostrophes => '\'' :: apostropheText indent [] cs ++ ['\'']
  | .doubleQuotes => '"' :: cs.flatMap quotedChar ++ ['"']

/-- How many characters a tag takes, with two exclamation marks in front of its name. -/
def tagWidth (tag : Tag) : Nat :=
  ((tagNames.find? fun (_, tag') => tag' = tag).elim 0 fun (name, _) => name.length) + 2

/-- Whether a key stands on the line of its value: it is short, and a scalar of one line that is
not empty, or an empty collection. -/
def Node.isSimpleKey : Node → Bool
  | .scalar tag cs =>
    !cs.isEmpty && !isMultiline cs && decide (cs.length + tagWidth tag < 128)
  | .sequence _ items => items.isEmpty
  | .mapping _ entries => entries.isEmpty

/-- What stands to the left of a node. -/
inductive Left where
  /-- Nothing but the indentation. -/
  | margin
  /-- A dash, a question mark or a colon at the front of a line. -/
  | mark
  /-- A key and its colon. -/
  | key
deriving DecidableEq

/-- How far the block of a sequence is indented, in a collection that is indented by `indent`. -/
def sequenceIndent (indent : Nat) : Left → Nat
  | .margin | .key => indent
  | .mark => indent + 2

/-- How far the block of a mapping is indented, in a collection that is indented by `indent`. -/
def mappingIndent (indent : Nat) : Left → Nat
  | .margin => indent
  | .mark | .key => indent + 2

/-- A node that takes no line of its own. -/
def inline (left : Left) (cs : List Char) : List Char :=
  if left = .margin then cs else ' ' :: cs

/-- The lines of a block that is indented by `indent`. -/
def block (left : Left) (indent : Nat) (pieces : List (List Char)) : List Char :=
  let lines := (pieces.intersperse (newLine indent)).flatten
  match left with
  | .margin => lines
  | .mark => ' ' :: lines
  | .key => newLine indent ++ lines

mutual

/-- Writes a node in a collection that is indented by `indent`. -/
def Node.write (indent : Nat) (left : Left) : Node → List Char
  | .scalar tag cs => inline left (styled (indent + 2) (styleOf tag cs) cs)
  | .sequence _ [] => inline left ['[', ']']
  | .sequence _ (item :: rest) =>
    let inner := sequenceIndent indent left
    block left inner (writeItems inner (item :: rest))
  | .mapping _ [] => inline left ['\x7b', '\x7d']
  | .mapping _ (entry :: rest) =>
    let inner := mappingIndent indent left
    block left inner (writeEntries inner (entry :: rest))

/-- Writes the items of a sequence. -/
def writeItems (indent : Nat) : List Node → List (List Char)
  | [] => []
  | item :: rest => ('-' :: item.write indent .mark) :: writeItems indent rest

/-- Writes the entries of a mapping. -/
def writeEntries (indent : Nat) : List (Node × Node) → List (List Char)
  | [] => []
  | (key, value) :: rest =>
    (if key.isSimpleKey then key.write indent .margin ++ ':' :: value.write indent .key
      else '?' :: key.write indent .mark ++ newLine indent ++ ':' :: value.write indent .mark) ::
      writeEntries indent rest

end

/-- Whether a node is written as a plain scalar. -/
def Node.isPlain : Node → Bool
  | .scalar tag cs => styleOf tag cs = .plain
  | _ => false

/-- Writes a node as a whole text. -/
def Node.text (node : Node) : List Char :=
  node.write 0 .margin ++ '\n' :: (if node.isPlain then ['.', '.', '.', '\n'] else [])

end Rulebook.Yaml
