import Rulebook.Json.Flaw
import Rulebook.Text.Hexadecimal
import Rulebook.Value.Basic

/-!
The tokens of a JSON text. `scan` gives the tokens with their offsets; it ends at the first
character that starts none, with a token that says so, since only the place where that token is
met decides what is wrong with the text.
-/

namespace Rulebook.Json

/-- A lexical unit. -/
inductive Token where
  /-- A bracket, a brace, a colon or a comma. -/
  | mark (c : Char)
  | string (s : String)
  /-- A string with half of a surrogate pair, which is no text. -/
  | halved
  /-- A number or one of the words. -/
  | scalar (v : Value)
  /-- A string that is flawed. -/
  | badString (flaw : Flaw)
  /-- A character that starts no token. -/
  | junk

/-- Blanks between tokens. -/
def isSpace (c : Char) : Bool := c = ' ' ∨ c = '\t' ∨ c = '\n' ∨ c = '\r'

/-- Four hexadecimal digits that do not end the text. -/
def codeUnit? : List Char → Option Nat
  | a :: b :: c :: d :: _ :: _ => do
    let a ← Text.hexValue? a
    let b ← Text.hexValue? b
    let c ← Text.hexValue? c
    let d ← Text.hexValue? d
    pure (a * 4096 + b * 256 + c * 16 + d)
  | _ => none

/-- Whether a code unit is the first half of a surrogate pair. -/
def isHighSurrogate (u : Nat) : Bool := 0xD800 ≤ u && u ≤ 0xDBFF

/-- Whether a code unit is the second half of a surrogate pair. -/
def isLowSurrogate (u : Nat) : Bool := 0xDC00 ≤ u && u ≤ 0xDFFF

/-- The character of a surrogate pair. -/
def pairChar (high low : Nat) : Char :=
  Char.ofNat (0x10000 + (high - 0xD800) * 0x400 + (low - 0xDC00))

/-- The character of a code unit on its own, which half of a pair does not have. -/
def unitChar (u : Nat) : Option Char :=
  if isHighSurrogate u ∨ isLowSurrogate u then none else some (Char.ofNat u)

/-- The character of an escape with a code, after its `u`, if it has one, and how many characters the
escape takes from the backslash on. A flaw is told by its distance from the backslash. -/
def codeEscape (cs : List Char) : Except (Problem × Nat) (Option Char × Nat) :=
  match codeUnit? cs with
  | none => .error (.invalidCodeEscape, 1)
  | some high =>
    match isHighSurrogate high, cs.drop 4 with
    | true, '\\' :: 'u' :: more =>
      if more.length < 5 then .ok (unitChar high, 6)
      else
        match codeUnit? more with
        | none => .error (.invalidCodeEscape, 7)
        | some low =>
          if isLowSurrogate low then .ok (some (pairChar high low), 12)
          else .ok (unitChar high, 6)
    | _, _ => .ok (unitChar high, 6)

/-- The characters that stand for another one after a backslash. -/
def shortEscapes : List (Char × Char) :=
  [('"', '"'), ('\\', '\\'), ('/', '/'), ('b', '\x08'), ('f', '\x0c'), ('n', '\n'), ('r', '\r'),
    ('t', '\t')]

/-- The character of an escape, of which the text after the backslash is given, and how many
characters the escape takes. -/
def escape : List Char → Except (Problem × Nat) (Option Char × Nat)
  | [] => .error (.unterminatedString, 0)
  | 'u' :: rest => codeEscape rest
  | c :: _ =>
    match shortEscapes.lookup c with
    | some c => .ok (some c, 2)
    | none => .error (.invalidEscape, 0)

/-- What stands in a string up to its closing quote, where half of a pair is no character, and the
offset behind the quote. -/
abbrev StringRead := Except Flaw (List (Option Char) × Nat)

/-- Puts a character in front of what stands in a string. -/
def prepend (c : Option Char) (r : StringRead) : StringRead :=
  r.map fun (cs, stop) => (c :: cs, stop)

/-- Reads a string up to its closing quote. The string starts at `start`; the first `skip` characters
belong to an escape already read. -/
def stringText (start : Nat) : Nat → Nat → List Char → StringRead
  | _, _, [] => .error ⟨.unterminatedString, start⟩
  | skip + 1, offset, _ :: rest => stringText start skip (offset + 1) rest
  | 0, offset, c :: rest =>
    if c = '"' then .ok ([], offset + 1)
    else if c = '\\' then
      match escape rest with
      | .error (.unterminatedString, _) => .error ⟨.unterminatedString, start⟩
      | .error (problem, distance) => .error ⟨problem, offset + distance⟩
      | .ok (c, count) => prepend c (stringText start (count - 1) (offset + 1) rest)
    else if c.toNat < 32 then .error ⟨.controlCharacter, offset⟩
    else prepend (some c) (stringText start 0 (offset + 1) rest)

/-- The digits of the whole part of a number: a zero alone, or digits that start with no zero. -/
def wholeDigits : List Char → List Char
  | '0' :: _ => ['0']
  | cs => cs.takeWhile Char.isDigit

/-- The digits of a fraction, which stand after a point. -/
def fractionDigits : List Char → List Char
  | '.' :: rest => rest.takeWhile Char.isDigit
  | _ => []

/-- The sign and the digits of an exponent, and how many characters it takes. -/
def exponentDigits : List Char → Bool × List Char × Nat
  | c :: rest =>
    if c = 'e' ∨ c = 'E' then
      let (negative, signs, digits) := match rest with
        | '-' :: more => (true, 1, more)
        | '+' :: more => (false, 1, more)
        | more => (false, 0, more)
      let digits := digits.takeWhile Char.isDigit
      if digits.isEmpty then (false, [], 0) else (negative, digits, 1 + signs + digits.length)
    else (false, [], 0)
  | [] => (false, [], 0)

/-- An unsigned number at the front of a text, and how many characters it takes. It is an integer
if it has neither a fraction nor an exponent. -/
def magnitude? (negative : Bool) (cs : List Char) : Option (Value × Nat) :=
  let whole := wholeDigits cs
  if whole.isEmpty then none
  else
    let rest := cs.drop whole.length
    let fraction := fractionDigits rest
    let fractionLength := if fraction.isEmpty then 0 else fraction.length + 1
    let (exponentNegative, exponent, exponentLength) := exponentDigits (rest.drop fractionLength)
    let length := whole.length + fractionLength + exponentLength
    if fraction.isEmpty ∧ exponent.isEmpty then
      let n : Int := Nat.ofDigitChars 10 whole 0
      some (.int (if negative then -n else n), length)
    else
      let power : Int := Nat.ofDigitChars 10 exponent 0
      let digits := Nat.ofDigitChars 10 (whole ++ fraction) 0
      some (.float (.ofDecimal negative digits
        ((if exponentNegative then -power else power) - fraction.length)), length)

/-- A number at the front of a text, and how many characters it takes. -/
def number? : List Char → Option (Value × Nat)
  | '-' :: rest => (magnitude? true rest).map fun (v, length) => (v, length + 1)
  | cs => magnitude? false cs

/-- The words of JSON, and the three that name the numbers without digits. -/
def words : List (List Char × Value) :=
  [("null".toList, .null), ("true".toList, .bool true), ("false".toList, .bool false),
    ("NaN".toList, .float .nan), ("Infinity".toList, .float (.infinite false)),
    ("-Infinity".toList, .float (.infinite true))]

/-- A word at the front of a text, and how many characters it takes. -/
def word? (cs : List Char) : Option (Value × Nat) :=
  (words.find? fun (word, _) => word.isPrefixOf cs).map fun (word, v) => (v, word.length)

/-- Whether a character is a mark. -/
def isMark (c : Char) : Bool := ['[', ']', '\x7b', '\x7d', ':', ','].contains c

/-- The token of a string. -/
def stringToken (cs : List (Option Char)) : Token :=
  match cs.mapM id with
  | some cs => .string (String.ofList cs)
  | none => .halved

/-- The token that starts at an offset with the character `c`, and how many characters it takes. -/
def token (offset : Nat) (c : Char) (rest : List Char) : Token × Nat :=
  if isMark c then (.mark c, 1)
  else if c = '"' then
    match stringText offset 0 (offset + 1) rest with
    | .ok (cs, stop) => (stringToken cs, stop - offset)
    | .error flaw => (.badString flaw, 0)
  else
    match word? (c :: rest) <|> number? (c :: rest) with
    | some (v, length) => (.scalar v, length)
    | none => (.junk, 0)

/-- The tokens of a text from an offset on, of which the first `skip` characters belong to a token
already read. -/
def scanFrom : Nat → Nat → List Char → List (Nat × Token)
  | _, _, [] => []
  | skip + 1, offset, _ :: rest => scanFrom skip (offset + 1) rest
  | 0, offset, c :: rest =>
    if isSpace c then scanFrom 0 (offset + 1) rest
    else
      match token offset c rest with
      | (t, 0) => [(offset, t)]
      | (t, length + 1) => (offset, t) :: scanFrom length (offset + 1) rest

def scan (text : List Char) : List (Nat × Token) := scanFrom 0 0 text

end Rulebook.Json
