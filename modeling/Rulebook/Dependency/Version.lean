import Rulebook.Text.Blank

/-!
Versions of packages. A version has an epoch, the numbers of its release, and marks for releases
before, after and during the making of it; a local label tells builds of one version apart. Versions
are ordered by these parts, where zeros at the end of a release do not count.
-/

namespace Rulebook

/-- The marks of a release before the final one, in their order. -/
inductive Stage where
  | alpha
  | beta
  | candidate
deriving DecidableEq

namespace Stage

/-- The letter of a mark. -/
def letter : Stage → String
  | alpha => "a"
  | beta => "b"
  | candidate => "rc"

/-- The place of a mark in their order. -/
def rank : Stage → Nat
  | alpha => 0
  | beta => 1
  | candidate => 2

/-- The spellings of the marks; one that starts like another stands before it. -/
def spellings : List (String × Stage) :=
  [("alpha", alpha), ("a", alpha), ("beta", beta), ("b", beta), ("preview", candidate),
    ("pre", candidate), ("c", candidate), ("rc", candidate)]

end Stage

inductive LabelPart where
  | word (text : List Char)
  | number (n : Nat)
deriving DecidableEq

/-- A version of a package. -/
structure Version where
  epoch : Nat
  release : List Nat
  stage : Option (Stage × Nat)
  post : Option Nat
  dev : Option Nat
  label : Option (List LabelPart)

namespace Version

section Reading

/-- What is left of a text behind a word, if it starts with the word. -/
def afterWord? (word : String) (cs : List Char) : Option (List Char) :=
  if word.toList.isPrefixOf cs then some (cs.drop word.length) else none

/-- What is left of a text behind an optional separator. -/
def afterSeparator : List Char → List Char
  | c :: rest => if c = '-' ∨ c = '_' ∨ c = '.' then rest else c :: rest
  | [] => []

/-- The digits at the front of a text, and what is left. -/
def digits (cs : List Char) : List Char × List Char :=
  (cs.takeWhile Char.isDigit, cs.dropWhile Char.isDigit)

/-- The number at the front of a text, where no digits count as zero. -/
def numberOrZero (cs : List Char) : Nat × List Char :=
  (Nat.ofDigitChars 10 (digits cs).1 0, (digits cs).2)

/-- The number at the front of a text. -/
def number? (cs : List Char) : Option (Nat × List Char) :=
  if (digits cs).1.isEmpty then none else some (numberOrZero cs)

/-- A mark of one of some spellings with its number, and what is left. -/
def marked? {α : Type} (spellings : List (String × α)) (cs : List Char) :
    Option ((α × Nat) × List Char) :=
  let rest := afterSeparator cs
  spellings.findSome? fun (word, mark) =>
    (afterWord? word rest).map fun rest =>
      let (n, rest) := numberOrZero (afterSeparator rest)
      ((mark, n), rest)

/-- An optional part, and what is left. -/
def optional {α : Type} (part : List Char → Option (α × List Char)) (cs : List Char) :
    Option α × List Char :=
  match part cs with
  | some (a, rest) => (some a, rest)
  | none => (none, cs)

/-- The mark of a release after the final one, which may be a hyphen with a number. -/
def post? (cs : List Char) : Option (Nat × List Char) :=
  let hyphenated := match cs with
    | '-' :: rest => number? rest
    | _ => none
  hyphenated <|>
    (marked? [("post", ()), ("rev", ()), ("r", ())] cs).map fun ((_, n), rest) => (n, rest)

/-- The mark of a release in the making. -/
def dev? (cs : List Char) : Option (Nat × List Char) :=
  (marked? [("dev", ())] cs).map fun ((_, n), rest) => (n, rest)

/-- The numbers of a release behind its first one, and what is left. The first `skip` characters
belong to a number already read. -/
def furtherNumbers : Nat → List Char → List Nat × List Char
  | _, [] => ([], [])
  | skip + 1, _ :: rest => furtherNumbers skip rest
  | 0, c :: rest =>
    let number := (digits rest).1
    if c = '.' ∧ !number.isEmpty then
      let (numbers, left) := furtherNumbers number.length rest
      (Nat.ofDigitChars 10 number 0 :: numbers, left)
    else ([], c :: rest)

/-- The epoch, which an exclamation mark follows, and what is left; there is one of zero where none
is given. -/
def leadingEpoch (cs : List Char) : Nat × List Char :=
  match number? cs with
  | some (n, '!' :: rest) => (n, rest)
  | _ => (0, cs)

def labelPart? (cs : List Char) : Option LabelPart :=
  if cs.isEmpty || !cs.all Char.isAlphanum then none
  else if cs.all Char.isDigit then some (.number (Nat.ofDigitChars 10 cs 0))
  else some (.word cs)

/-- The local label that makes up the rest of a text behind a plus sign. -/
def label? (cs : List Char) : Option (Option (List LabelPart)) :=
  match cs with
  | [] => some none
  | '+' :: rest =>
    ((rest.splitOnP fun c => c = '-' || c = '_' || c = '.').mapM labelPart?).map some
  | _ => none

/-- The version that a text without blanks around it and in lower case names. -/
def ofPlain? (cs : List Char) : Option Version := do
  let cs := match cs with
    | 'v' :: rest => rest
    | cs => cs
  let (epoch, rest) := leadingEpoch cs
  let (first, rest) ← number? rest
  let (others, rest) := furtherNumbers 0 rest
  let (stage, rest) := optional (marked? Stage.spellings) rest
  let (post, rest) := optional post? rest
  let (dev, rest) := optional dev? rest
  let label ← label? rest
  pure ⟨epoch, first :: others, stage, post, dev, label⟩

/-- The letter that a character counts as: case does not matter, and a long s, an i with and without
its dot in the other case, and the sign for kelvin are letters too. -/
def plainLetter (c : Char) : Char :=
  if c = 'ſ' then 's'
  else if c = 'ı' ∨ c = 'İ' then 'i'
  else if c = '\u212a' then 'k'
  else c.toLower

/-- The version that a text names. Blanks around it and the case of letters do not count. -/
def ofText? (cs : List Char) : Option Version := ofPlain? ((Text.trim cs).map plainLetter)

end Reading

section Writing

/-- A number in decimal. -/
def decimal (n : Nat) : List Char := Nat.toDigits 10 n

/-- Texts with a point between them. -/
def pointed (parts : List (List Char)) : List Char := (parts.intersperse ['.']).flatten

/-- A version without its local label, in its normal form. -/
def publicText (v : Version) : List Char :=
  (if v.epoch = 0 then [] else decimal v.epoch ++ ['!']) ++ pointed (v.release.map decimal) ++
    (v.stage.elim [] fun (stage, n) => stage.letter.toList ++ decimal n) ++
    (v.post.elim [] fun n => ".post".toList ++ decimal n) ++
    (v.dev.elim [] fun n => ".dev".toList ++ decimal n)

def LabelPart.text : LabelPart → List Char
  | .word text => text
  | .number n => decimal n

/-- A version in its normal form. -/
def text (v : Version) : List Char :=
  v.publicText ++ v.label.elim [] fun parts => '+' :: pointed (parts.map LabelPart.text)

end Writing

section Comparing

/-- Compares two lists by their first difference; a list comes after its own beginnings. -/
def compareLists {α : Type} (compare : α → α → Ordering) : List α → List α → Ordering
  | [], [] => .eq
  | [], _ :: _ => .lt
  | _ :: _, [] => .gt
  | a :: as, b :: bs => (compare a b).then (compareLists compare as bs)

/-- Compares optional parts, where `absent` says how a part that is missing compares with one that
is there. -/
def compareOptional {α : Type} (absent : Ordering) (compare : α → α → Ordering) :
    Option α → Option α → Ordering
  | none, none => .eq
  | none, some _ => absent
  | some _, none => absent.swap
  | some a, some b => compare a b

/-- Compares parts of local labels: words come before numbers. -/
def compareLabelParts : LabelPart → LabelPart → Ordering
  | .word a, .word b => compareLists (fun c d => compare c.toNat d.toNat) a b
  | .word _, .number _ => .lt
  | .number _, .word _ => .gt
  | .number m, .number n => compare m n

/-- The numbers of a release without the zeros at its end. -/
def significant (release : List Nat) : List Nat := (release.reverse.dropWhile (· == 0)).reverse

/-- Whether a version comes before the marked ones of its release: it is in the making, and not on
the way from one of them to the next. -/
def isEarliest (v : Version) : Bool := v.stage.isNone && v.post.isNone && v.dev.isSome

/-- Compares versions by their stages. A release in the making comes first, and one without a mark
last. -/
def compareStages (v w : Version) : Ordering :=
  if v.isEarliest || w.isEarliest then compare w.isEarliest.toNat v.isEarliest.toNat
  else
    compareOptional .gt (fun a b => (compare a.1.rank b.1.rank).then (compare a.2 b.2))
      v.stage w.stage

/-- Compares the epochs and releases of two versions. -/
def compareBases (v w : Version) : Ordering :=
  (compare v.epoch w.epoch).then
    (compareLists compare (significant v.release) (significant w.release))

/-- Compares two versions up to their local labels. -/
def comparePublic (v w : Version) : Ordering :=
  (compareBases v w).then <| (compareStages v w).then <|
    (compareOptional .lt compare v.post w.post).then (compareOptional .gt compare v.dev w.dev)

/-- Compares two versions. -/
protected def compare (v w : Version) : Ordering :=
  (comparePublic v w).then (compareOptional .lt (compareLists compareLabelParts) v.label w.label)

/-- Whether a version comes before its release. -/
def isPrerelease (v : Version) : Bool := v.stage.isSome || v.dev.isSome

/-- Whether a version comes after its release. -/
def isPostrelease (v : Version) : Bool := v.post.isSome

end Comparing
end Version
end Rulebook
