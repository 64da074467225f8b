import Rulebook.Yaml.Scalar.Plain
import Rulebook.Yaml.Scalar.Quoted
import Rulebook.Yaml.Token.Word

/-!
Scanning. A key of a mapping is told from other nodes only by the colon behind it, which must follow
on the same line and within 1024 characters. The scanner therefore remembers, on every level of
brackets, the place where a key may have begun, and puts the token for a key there when it meets the
colon. A text that cannot be scanned to its end gives the tokens that are certain by then, and a
flaw.
-/

namespace Rulebook.Yaml

/-- A place in a text, and what is left of the text there. -/
structure Cursor where
  rest : List Char
  offset : Nat := 0
  line : Nat := 0
  column : Nat := 0

namespace Cursor

/-- The place behind one more character. A byte order mark takes no column. -/
def next (c : Cursor) : Cursor :=
  match c.rest with
  | [] => c
  | ch :: rest =>
    if isBreak ch && !(ch == '\r' && rest.head? == some '\n') then
      ⟨rest, c.offset + 1, c.line + 1, 0⟩
    else ⟨rest, c.offset + 1, c.line, if ch = '\uFEFF' then c.column else c.column + 1⟩

/-- The place behind so many more characters. -/
def advance : Nat → Cursor → Cursor
  | 0, c => c
  | n + 1, c => advance n c.next

end Cursor

/-- A place where a key may have begun. -/
structure KeyPlace where
  /-- How many tokens stand before it. -/
  index : Nat
  /-- Nothing but a key can stand there. -/
  required : Bool
  offset : Nat
  line : Nat
  column : Nat

/-- Whether no colon at the cursor can belong to a key that began at a place. -/
def KeyPlace.isStale (c : Cursor) (p : KeyPlace) : Bool :=
  p.line != c.line || decide (1024 < c.offset - p.offset)

/-- The state of scanning. -/
structure Scanner where
  cursor : Cursor
  /-- The tokens so far, the latest first. -/
  tokens : List Token := []
  /-- The columns of the open block collections, innermost first. -/
  blocks : List Nat := []
  /-- Whether a key, or an item of a block sequence, may begin here. -/
  keyAllowed : Bool := true
  /-- Where a key may have begun, inside the innermost brackets. -/
  place : Option KeyPlace := none
  /-- Where keys may have begun around each of the open brackets, innermost first. -/
  outer : List (Option KeyPlace) := []

namespace Scanner

/-- Whether brackets are open. -/
def inBrackets (s : Scanner) : Bool := !s.outer.isEmpty

/-- The least indentation of a scalar that goes on over several lines. -/
def scalarIndent (s : Scanner) : Nat := s.blocks.head?.elim 0 (· + 1)

/-- Gives up the places too far back for a key. -/
def dropStale (s : Scanner) : Except Fault Scanner :=
  let places := s.place :: s.outer
  if places.any (·.any fun p => p.required && p.isStale s.cursor) then .error .malformed
  else
    let fresh (place : Option KeyPlace) := place.filter (!·.isStale s.cursor)
    .ok { s with place := fresh s.place, outer := s.outer.map fresh }

/-- Gives up the place where a key may have begun inside the innermost brackets. -/
def forget (s : Scanner) : Except Fault Scanner :=
  if s.place.any (·.required) then .error .malformed else .ok { s with place := none }

/-- Notes that a key may begin here. -/
def remember (s : Scanner) : Except Fault Scanner :=
  if s.keyAllowed then do
    let s ← s.forget
    let c := s.cursor
    let required := !s.inBrackets && s.blocks.head? == some c.column
    pure { s with place := some ⟨s.tokens.length, required, c.offset, c.line, c.column⟩ }
  else pure s

/-- Puts a token behind the first `index` ones. -/
def insert (s : Scanner) (index : Nat) (t : Token) : Scanner :=
  let later := s.tokens.length - index
  { s with tokens := s.tokens.take later ++ t :: s.tokens.drop later }

/-- Opens a block collection at a column, unless one is open there, with its start behind the first
`index` tokens. -/
def openBlock (s : Scanner) (column index : Nat) (start : Token) : Scanner :=
  if s.blocks.head?.all (· < column) then
    { s.insert index start with blocks := column :: s.blocks }
  else s

/-- Closes the innermost block collections whose columns are as told. Inside brackets indentation
does not count. -/
def closeBlocks (s : Scanner) (isClosed : Nat → Bool) : Scanner :=
  if s.inBrackets then s
  else
    let closed := s.blocks.takeWhile isClosed
    { s with
      blocks := s.blocks.dropWhile isClosed
      tokens := closed.map (fun _ => .blockEnd) ++ s.tokens }

/-- Takes so many characters as a token. -/
def take (s : Scanner) (width : Nat) (t : Token) : Scanner :=
  { s with cursor := s.cursor.advance width, tokens := t :: s.tokens }

/-- Takes a token, or fails where there is none; `rest` is what the token leaves of the text. -/
def takeTo (s : Scanner) : Option (Token × List Char) → Except Fault Scanner
  | some (t, rest) => .ok (s.take (s.cursor.rest.length - rest.length) t)
  | none => .error .malformed

/-- A token that stands between the parts of a document, and ends all block collections. -/
def boundary (s : Scanner) : Except Fault Scanner := do
  let s ← (s.closeBlocks fun _ => true).forget
  pure { s with keyAllowed := false }

def openBracket (s : Scanner) (t : Token) : Except Fault Scanner := do
  let s ← s.remember
  pure { s.take 1 t with outer := s.place :: s.outer, place := none, keyAllowed := true }

/-- A bracket closes. -/
def closeBracket (s : Scanner) (t : Token) : Except Fault Scanner := do
  let s ← s.forget
  pure { s.take 1 t with
    outer := s.outer.drop 1, place := s.outer.head?.join, keyAllowed := false }

def comma (s : Scanner) : Except Fault Scanner := do
  let s ← s.forget
  pure { s.take 1 .comma with keyAllowed := true }

/-- A dash before an item of a block sequence. -/
def dash (s : Scanner) : Except Fault Scanner := do
  if s.inBrackets then
    let s ← s.forget
    pure { s.take 1 .dash with keyAllowed := true }
  else if s.keyAllowed then
    let s ← (s.openBlock s.cursor.column s.tokens.length .sequenceStart).forget
    pure { s.take 1 .dash with keyAllowed := true }
  else .error .malformed

/-- A question mark before a key. -/
def key (s : Scanner) : Except Fault Scanner := do
  if s.inBrackets then
    let s ← s.forget
    pure { s.take 1 .key with keyAllowed := false }
  else if s.keyAllowed then
    let s ← (s.openBlock s.cursor.column s.tokens.length .mappingStart).forget
    pure { s.take 1 .key with keyAllowed := true }
  else .error .malformed

/-- A colon before a value. -/
def value (s : Scanner) : Except Fault Scanner :=
  match s.place with
  | some p =>
    let s := { s.insert p.index .key with place := none, keyAllowed := false }
    let s := if s.inBrackets then s else s.openBlock p.column p.index .mappingStart
    .ok (s.take 1 .value)
  | none =>
    if s.inBrackets then .ok { s.take 1 .value with keyAllowed := false }
    else if s.keyAllowed then
      .ok ((s.openBlock s.cursor.column s.tokens.length .mappingStart).take 1 .value)
    else .error .malformed

/-- A token behind which no key can begin, and which may itself begin one. -/
def word (s : Scanner) (t : Option (Token × List Char)) : Except Fault Scanner := do
  let s ← s.remember
  { s with keyAllowed := false }.takeTo t

/-- A quoted scalar. -/
def quoted (s : Scanner) (mark : Char) (rest : List Char) : Except Fault Scanner := do
  let s ← s.remember
  let (text, width) ← quotedScalar mark rest
  pure { s.take (width + 1) (.scalar text false) with keyAllowed := false }

/-- A block scalar. -/
def block (s : Scanner) (fold : Bool) (rest : List Char) : Except Fault Scanner := do
  let s ← s.forget
  match blockScalar? fold s.scalarIndent rest with
  | some (text, width) => pure { s.take (width + 1) (.scalar text false) with keyAllowed := true }
  | none => .error .malformed

/-- A plain scalar. A key may begin behind it once a line has ended. -/
def plain (s : Scanner) : Except Fault Scanner := do
  let s ← s.remember
  let scalar := plainScalar s.inBrackets s.scalarIndent s.cursor.rest
  pure { s.take scalar.width (.scalar scalar.text true) with keyAllowed := scalar.crossesLine }

/-- The characters that start no plain scalar. -/
def indicators : List Char :=
  ['-', '?', ':', ',', '[', ']', '\x7b', '\x7d', '#', '&', '*', '!', '|', '>', '\'', '"', '%', '@',
    '\x60']

/-- Whether a plain scalar starts with the character `c`. -/
def startsPlain (inBrackets : Bool) (c : Char) (rest : List Char) : Bool :=
  if c = '-' then !startsWhite rest
  else if c = '?' ∨ c = ':' then !inBrackets && !startsWhite rest
  else !isWhite c && !indicators.contains c

/-- Scans the token that starts with the character `c`. -/
def token (s : Scanner) (c : Char) (rest : List Char) : Except Fault Scanner :=
  let spaced := s.inBrackets || startsWhite rest
  if c = '%' ∧ s.cursor.column = 0 then do
    let s ← s.boundary
    s.takeTo (directive? rest)
  else if s.cursor.column = 0 ∧ startsSeparator (c :: rest) then do
    let s ← s.boundary
    pure (s.take 3 (if c = '-' then .documentStart else .documentEnd))
  else
    match c with
    | '[' => s.openBracket .listOpen
    | '\x7b' => s.openBracket .mapOpen
    | ']' => s.closeBracket .listClose
    | '\x7d' => s.closeBracket .mapClose
    | ',' => s.comma
    | '*' => s.word ((anchorName? rest).map fun (name, rest) => (.reference name, rest))
    | '&' => s.word ((anchorName? rest).map fun (name, rest) => (.anchor name, rest))
    | '!' => s.word (tag? rest)
    | '\'' | '"' => s.quoted c rest
    | c =>
      if c = '-' ∧ startsWhite rest then s.dash
      else if c = '?' ∧ spaced then s.key
      else if c = ':' ∧ spaced then s.value
      else if (c = '|' ∨ c = '>') ∧ !s.inBrackets then s.block (c = '>') rest
      else if startsPlain s.inBrackets c rest then s.plain
      else .error .malformed

/-- How many characters the blanks, comments and line breaks at the front of a text take, and
whether a line ends there. -/
def gapWidth : Bool → List Char → Nat × Bool
  | _, [] => (0, false)
  | inComment, c :: rest =>
    if isBreak c then ((gapWidth false rest).1 + 1, true)
    else if inComment || c = ' ' || c = '#' then
      let (n, crosses) := gapWidth (inComment || c = '#') rest
      (n + 1, crosses)
    else (0, false)

/-- Goes to the next token. -/
def skipGap (s : Scanner) : Scanner :=
  let start := if s.cursor.offset = 0 ∧ s.cursor.rest.head? = some '\uFEFF' then s.cursor.next
    else s.cursor
  let (n, crosses) := gapWidth false start.rest
  { s with
    cursor := start.advance n
    keyAllowed := s.keyAllowed || (crosses && !s.inBrackets) }

/-- Scans to the next token and past it, or to the end of the text. -/
def step (s : Scanner) : Except Fault Scanner := do
  let s ← s.skipGap.dropStale
  let s := s.closeBlocks fun column => s.cursor.column < column
  match s.cursor.rest with
  | [] => do
    let s ← s.boundary
    pure (s.take 0 .streamEnd)
  | c :: rest => s.token c rest

/-- How many tokens are certain: those before every place where a key may have begun. -/
def certain (s : Scanner) : Nat :=
  ((s.place :: s.outer).filterMap id).foldl (fun n p => min n p.index) s.tokens.length

/-- The tokens of the rest of a text behind those scanned. -/
def run (s : Scanner) : List Token :=
  match s.dropStale with
  | .error fault => (.flaw fault :: s.tokens).reverse
  | .ok s' =>
    match s'.step with
    | .error fault => s'.tokens.reverse.take s'.certain ++ [.flaw fault]
    | .ok next =>
      if next.cursor.rest.length < s.cursor.rest.length ∧ next.tokens.head?.any isLast = false then
        run next
      else next.tokens.reverse
termination_by s.cursor.rest.length
where
  /-- Whether a token is the last one of a text. -/
  isLast : Token → Bool
    | .streamEnd => true
    | _ => false

end Scanner

def scan (text : List Char) : List Token := ({ cursor := { rest := text } } : Scanner).run

end Rulebook.Yaml
