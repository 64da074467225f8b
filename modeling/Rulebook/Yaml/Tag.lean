import Rulebook.Text.Hexadecimal
import Rulebook.Yaml.Scalar.Timestamp

/-!
Tags. A tag tells what a node stands for. A plain scalar without a tag takes the one that its form
suggests: `resolve` knows the forms of truth values, numbers, null and timestamps, and everything
else is a text.
-/

namespace Rulebook.Yaml

/-- The tags with a meaning, and all others as one. -/
inductive Tag where
  | null
  | bool
  | int
  | float
  | str
  | binary
  | timestamp
  /-- A sequence of pairs that stands for a mapping in a fixed order. -/
  | ordered
  | pairs
  | set
  | sequence
  | mapping
  /-- The key whose value is merged into a mapping. -/
  | merge
  /-- The key whose value stands for its whole mapping. -/
  | value
  | unknown
deriving DecidableEq

/-- What the tags with a meaning start with. -/
def standardTags : List Char := "tag:yaml.org,2002:".toList

def tagNames : List (String × Tag) :=
  [("null", .null), ("bool", .bool), ("int", .int), ("float", .float), ("str", .str),
    ("binary", .binary), ("timestamp", .timestamp), ("omap", .ordered), ("pairs", .pairs),
    ("set", .set), ("seq", .sequence), ("map", .mapping), ("merge", .merge), ("value", .value)]

/-- The tag that is written out as a text. -/
def Tag.ofText (cs : List Char) : Tag :=
  if standardTags.isPrefixOf cs then
    (tagNames.lookup (String.ofList (cs.drop standardTags.length))).getD .unknown
  else .unknown

section Forms

def truthWords : List String :=
  ["yes", "Yes", "YES", "no", "No", "NO", "true", "True", "TRUE", "false", "False", "FALSE",
    "on", "On", "ON", "off", "Off", "OFF"]

/-- The words of null; the empty text is one more. -/
def nullWords : List String := ["~", "null", "Null", "NULL"]

/-- The text without a sign at its front. -/
def unsigned : List Char → List Char
  | '-' :: rest | '+' :: rest => rest
  | cs => cs

/-- Whether a character is a digit or an underscore. -/
def isDigitOrBar (c : Char) : Bool := c.isDigit || c = '_'

/-- Whether a text is one or more times a colon with a number below sixty. -/
def sixtieths : List Char → Bool
  | ':' :: a :: rest =>
    a.isDigit && (rest.isEmpty || sixtieths rest ||
      match rest with
      | b :: more => decide (a ≤ '5') && b.isDigit && (more.isEmpty || sixtieths more)
      | [] => false)
  | _ => false

/-- Whether an unsigned text starts with a digit and goes on with digits and underscores up to a
number in sixties. -/
def isSexagesimal (cs : List Char) : Bool :=
  cs.head?.any (fun c => c.isDigit && c ≠ '0') && sixtieths (cs.dropWhile isDigitOrBar)

/-- Whether a text has the form of an integer. -/
def isInteger (cs : List Char) : Bool :=
  match unsigned cs with
  | '0' :: 'b' :: rest => !rest.isEmpty && rest.all fun c => c = '0' || c = '1' || c = '_'
  | '0' :: 'x' :: rest => !rest.isEmpty && rest.all fun c => (Text.hexValue? c).isSome || c = '_'
  | '0' :: rest => rest.all fun c => ('0' ≤ c && c ≤ '7') || c = '_'
  | c :: rest => c.isDigit && (rest.all isDigitOrBar || isSexagesimal (c :: rest))
  | [] => false

/-- Whether a text is empty or an exponent with a sign. -/
def isExponent : List Char → Bool
  | [] => true
  | e :: sign :: digits =>
    (e = 'e' || e = 'E') && (sign = '-' || sign = '+') && !digits.isEmpty &&
      digits.all Char.isDigit
  | _ => false

/-- Whether a text has the form of a number with a point. -/
def isFraction (cs : List Char) : Bool :=
  let pointed (rest : List Char) := isExponent (rest.dropWhile isDigitOrBar)
  let inSixties (rest : List Char) :=
    match rest.dropWhile (· ≠ '.') with
    | '.' :: fraction =>
      sixtieths (rest.takeWhile (· ≠ '.')) && fraction.all isDigitOrBar
    | _ => false
  let signed (cs : List Char) :=
    match cs with
    | '.' :: word => word ∈ ["inf".toList, "Inf".toList, "INF".toList]
    | c :: _ =>
      c.isDigit &&
        match cs.dropWhile isDigitOrBar with
        | '.' :: rest => pointed rest
        | rest => inSixties rest
    | [] => false
  signed (unsigned cs) ||
    match cs with
    | '.' :: c :: rest =>
      (c.isDigit && pointed rest) || (c :: rest) ∈ ["nan".toList, "NaN".toList, "NAN".toList]
    | _ => false

/-- Whether a text has the form of a date with two digits for month and day, or of a date with a
time of day. -/
def isTimestamp (cs : List Char) : Bool :=
  match Stamp.ofText? cs with
  | some s => s.time.isSome || cs.length == 10
  | none => false

/-- The tag that the form of a text suggests. -/
def formTag (cs : List Char) : Tag :=
  if nullWords.contains (String.ofList cs) then .null
  else if truthWords.contains (String.ofList cs) then .bool
  else if isInteger cs then .int
  else if isFraction cs then .float
  else if isTimestamp cs then .timestamp
  else if cs = ['<', '<'] then .merge
  else if cs = ['='] then .value
  else if cs = ['!'] ∨ cs = ['&'] ∨ cs = ['*'] then .unknown
  else .str

/-- The tag of a plain scalar. The empty text is null, and a line break at the end of a text does
not count. -/
def resolve (cs : List Char) : Tag :=
  if cs.isEmpty then .null
  else if cs = ['\n'] then .str
  else if cs.getLast? = some '\n' then formTag cs.dropLast
  else formTag cs

end Forms

end Rulebook.Yaml
