import Rulebook.Text.Encoding
import Rulebook.Yaml.Scalar.Block
import Rulebook.Yaml.Token.Basic

/-!
Tokens that can be read without regard to their place: names of anchors, tags and directives. Each
reader is given the text behind the first character of the token, and gives the token and what is
left of the text.
-/

namespace Rulebook.Yaml

/-- The name at the front of a text, which must not be empty, and what is left. -/
def name? (cs : List Char) : Option (List Char × List Char) :=
  let name := cs.takeWhile isNameChar
  if name.isEmpty then none else some (name, cs.dropWhile isNameChar)

/-- The name of an anchor, and what is left. -/
def anchorName? (cs : List Char) : Option (List Char × List Char) :=
  let closers := ['?', ':', ',', ']', '\x7d', '%', '@', '\x60']
  (name? cs).filter fun (_, rest) => startsWhite rest || rest.head?.any closers.contains

/-- A part of the text behind a tag handle. -/
inductive UriPart where
  | char (c : Char)
  /-- An octet, written as a percent sign and two hexadecimal digits. -/
  | octet (b : UInt8)

/-- Whether a character may stand in a tag. -/
def isUriChar (c : Char) : Bool :=
  c.isAlphanum || "-;/?:@&=+$,_.!~*'()[]".toList.contains c

/-- The parts of a tag at the front of a text, and what is left. The first `skip` characters belong
to an octet already read. -/
def uriParts? : Nat → List Char → Option (List UriPart × List Char)
  | _, [] => some ([], [])
  | skip + 1, _ :: rest => uriParts? skip rest
  | 0, '%' :: rest => do
    let high ← rest.head?.bind Text.hexValue?
    let low ← rest[1]?.bind Text.hexValue?
    let (parts, rest) ← uriParts? 2 rest
    pure (.octet (UInt8.ofNat (16 * high + low)) :: parts, rest)
  | 0, c :: rest =>
    if isUriChar c then (uriParts? 0 rest).map fun (parts, rest) => (.char c :: parts, rest)
    else some ([], c :: rest)

/-- The text of parts behind some octets; octets that follow one another are read together. -/
def uriText? : List UInt8 → List UriPart → Option (List Char)
  | octets, [] => Text.decodeStrictly? .utf8 octets
  | octets, .octet b :: rest => uriText? (octets ++ [b]) rest
  | octets, .char c :: rest => do
    let front ← Text.decodeStrictly? .utf8 octets
    let text ← uriText? [] rest
    pure (front ++ c :: text)

/-- The text of a tag at the front of a text, which must not be empty, and what is left. -/
def uri? (cs : List Char) : Option (List Char × List Char) := do
  let (parts, rest) ← uriParts? 0 cs
  if parts.isEmpty then none
  else (uriText? [] parts).map (·, rest)

/-- The tag handle whose first character, an exclamation mark, has been read, and what is left: the
mark alone before a blank, else a name between two marks. -/
def tagHandle? (cs : List Char) : Option (List Char × List Char) :=
  if cs.head? = some ' ' then some (['!'], cs)
  else
    match cs.dropWhile isNameChar with
    | '!' :: rest => some ('!' :: cs.takeWhile isNameChar ++ ['!'], rest)
    | _ => none

/-- A tag, and what is left. -/
def tag? (cs : List Char) : Option (Token × List Char) :=
  let tag : Option (Token × List Char) :=
    match cs with
    | '<' :: cs => do
      let (suffix, rest) ← uri? cs
      if rest.head? = some '>' then some (.tag none suffix, rest.drop 1) else none
    | cs =>
      if startsWhite cs then some (.tag none ['!'], cs)
      else do
        let word := cs.takeWhile fun c => c ≠ ' ' && !isBreak c
        let (handle, rest) ← if word.contains '!' then tagHandle? cs else some (['!'], cs)
        let (suffix, rest) ← uri? rest
        pure (.tag (some handle) suffix, rest)
  tag.filter fun (_, rest) => startsBlank rest

/-- The number at the front of a text, and what is left. -/
def number? (cs : List Char) : Option (Nat × List Char) :=
  let digits := cs.takeWhile Char.isDigit
  if digits.isEmpty then none
  else some (Nat.ofDigitChars 10 digits 0, cs.dropWhile Char.isDigit)

/-- What is left of a text behind blanks. -/
def afterBlanks (cs : List Char) : List Char := cs.dropWhile (· = ' ')

/-- What a directive of a name says, and what is left. -/
def directiveValue? (name cs : List Char) : Option (Directive × List Char) :=
  if name = "YAML".toList then do
    let (major, rest) ← number? (afterBlanks cs)
    if rest.head? = some '.' then
      let (_, rest) ← number? (rest.drop 1)
      if startsBlank rest then some (.version major, rest) else none
    else none
  else if name = "TAG".toList then
    match afterBlanks cs with
    | '!' :: cs => do
      let (handle, rest) ← tagHandle? cs
      if rest.head? = some ' ' then
        let (replacement, rest) ← uri? (afterBlanks rest)
        if startsBlank rest then some (.tagHandle handle replacement, rest) else none
      else none
    | _ => none
  else some (.other, cs.dropWhile (!isBreak ·))

/-- A directive, and what is left behind its line. -/
def directive? (cs : List Char) : Option (Token × List Char) := do
  let (name, rest) ← name? cs
  if startsBlank rest then
    let (d, rest) ← directiveValue? name rest
    let rest := rest.drop (commentWidth rest)
    if startsBreak rest then some (.directive d, rest.drop (breakWidth rest)) else none
  else none

end Rulebook.Yaml
