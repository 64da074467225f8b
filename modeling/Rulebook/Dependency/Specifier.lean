import Rulebook.Dependency.Packaging
import Rulebook.Dependency.Version
import Rulebook.Text.Lowercase

/-!
Specifiers: the versions of a package that will do. A specifier is a list of clauses between commas,
and a version has to meet each of them. A version that comes before its release is ruled out unless
a clause that takes in its own version names one. With the versions they make up a library that
guards can run with; guards themselves leave the library open.
-/

namespace Rulebook

namespace Version

/-- Splits a number off the mark of a stage right behind it. -/
def splitMark (cs : List Char) : List (List Char) :=
  let (number, mark) := digits cs
  let isMark := !number.isEmpty && ["a", "b", "c", "rc"].any fun letter =>
    match afterWord? letter mark with
    | some n => !n.isEmpty && n.all Char.isDigit
    | none => false
  if isMark then [number, mark] else [cs]

/-- The segments of a version as text: its epoch, and then what stands between points. -/
def segments (cs : List Char) : List (List Char) :=
  let behind := (cs.reverse.takeWhile (· != '!')).reverse
  let epoch := cs.take (cs.length - behind.length - 1)
  (if epoch.isEmpty then ['0'] else epoch) :: (behind.splitOnP (· == '.')).flatMap splitMark

/-- The segments of a version in its normal form; a text that names no version stays as it is. -/
def normalSegments (cs : List Char) : List (List Char) :=
  segments (((ofText? cs).map publicText).getD cs)

/-- The numbers in front of the segments of a version. -/
def leadingNumbers (parts : List (List Char)) : List (List Char) :=
  parts.takeWhile fun part => !part.isEmpty && part.all Char.isDigit

/-- Whether the segments of a version begin with some segments, once its release has been filled up
with zeros. -/
def startsWith (v : Version) (start : List (List Char)) : Bool :=
  let parts := segments v.publicText
  let numbers := leadingNumbers parts
  let zeros := List.replicate ((leadingNumbers start).length - numbers.length) ['0']
  (numbers ++ zeros ++ parts.drop numbers.length).take start.length == start

/-- Whether a segment is a mark of a version. -/
def isSuffix (part : List Char) : Bool :=
  ["dev", "a", "b", "rc", "post"].any fun word => (afterWord? word part).isSome

/-- What the versions that are compatible with the named one start with: its release without the
last number. -/
def compatibleStart (cs : List Char) : List (List Char) :=
  match ((segments cs).takeWhile (!isSuffix ·)).dropLast with
  | epoch :: release => normalSegments (epoch ++ '!' :: pointed release)
  | [] => []

end Version

/-- The order that a clause asks for. -/
inductive Relation where
  | equal
  | different
  | atMost
  | atLeast
  | earlier
  | later
deriving DecidableEq

inductive Clause where
  | compared (relation : Relation) (bound : Version)
  /-- Versions that start with some segments. -/
  | within (start : List (List Char))
  /-- Versions that do not start with some segments. -/
  | outside (start : List (List Char))
  /-- Versions from a bound on that start with some segments. -/
  | compatible (bound : Version) (start : List (List Char))
  /-- The version whose normal form is a text. -/
  | verbatim (text : List Char)

/-- Why a version cannot be checked. -/
inductive VersionFault where
  | malformedVersion
  | malformedSpecifier
deriving DecidableEq

namespace Relation

/-- Whether a version stands in a relation to a bound. A bound without a local label says nothing
about labels, and marked versions of the release of a bound do not count as earlier or later. -/
def holds (relation : Relation) (v bound : Version) : Bool :=
  let same := match bound.label with
    | none => v.comparePublic bound == .eq
    | some _ => v.compare bound == .eq
  let sameBase := v.compareBases bound == .eq
  match relation with
  | equal => same
  | different => !same
  | atMost => v.comparePublic bound != .gt
  | atLeast => v.comparePublic bound != .lt
  | earlier => v.compare bound == .lt && !(v.isPrerelease && !bound.isPrerelease && sameBase)
  | later =>
    v.compare bound == .gt &&
      !((v.isPostrelease && !bound.isPostrelease || v.label.isSome) && sameBase)

end Relation

namespace Clause

def holds (v : Version) : Clause → Bool
  | compared relation bound => relation.holds v bound
  | within start => v.startsWith start
  | outside start => !v.startsWith start
  | compatible bound start => Relation.atLeast.holds v bound && v.startsWith start
  | verbatim text => v.text == Text.lowercase text

def namesPrerelease : Clause → Except VersionFault Bool
  | compared .different _ | compared .earlier _ | compared .later _ | within _ | outside _ =>
    .ok false
  | compared _ bound | compatible bound _ => .ok bound.isPrerelease
  | verbatim text =>
    match Version.ofText? text with
    | some v => .ok v.isPrerelease
    | none => .error .malformedVersion

/-- The version in a clause, without a local label. -/
def plainBound? (cs : List Char) : Option Version :=
  (Version.ofText? cs).filter (·.label.isNone)

/-- The version in a clause about releases that start alike: epoch and numbers alone. -/
def releaseBound? (cs : List Char) : Option Version :=
  (plainBound? cs).filter fun v => v.stage.isNone && v.post.isNone && v.dev.isNone

/-- The clause about equality, or its opposite. -/
def equality? (relation : Relation) (family : List (List Char) → Clause) (cs : List Char) :
    Option Clause :=
  match cs.reverse with
  | '*' :: '.' :: start =>
    if start.head?.any Char.isDigit then
      (releaseBound? start.reverse).map fun v => family (Version.segments v.publicText)
    else none
  | _ => (Version.ofText? cs).map (.compared relation)

/-- The clause about compatible versions, which needs two numbers at least. -/
def compatible? (cs : List Char) : Option Clause :=
  ((plainBound? cs).filter (2 ≤ ·.release.length)).map fun v =>
    .compatible v (Version.compatibleStart cs)

/-- The clause about a version as it is written. -/
def verbatim? (cs : List Char) : Option Clause :=
  if cs.any fun c => Text.isBlank c || c == ';' || c == ')' then none else some (.verbatim cs)

/-- The signs in front of a clause and how what follows them is read; one that starts like another
stands before it. -/
def signs : List (String × (List Char → Option Clause)) :=
  [("===", verbatim?), ("~=", compatible?), ("==", equality? .equal .within),
    ("!=", equality? .different .outside),
    ("<=", fun cs => (plainBound? cs).map (.compared .atMost)),
    (">=", fun cs => (plainBound? cs).map (.compared .atLeast)),
    ("<", fun cs => (plainBound? cs).map (.compared .earlier)),
    (">", fun cs => (plainBound? cs).map (.compared .later))]

/-- The clause that a text without blanks around it states. -/
def ofText? (cs : List Char) : Option Clause :=
  signs.findSome? fun (sign, read) =>
    (Version.afterWord? sign cs).bind fun rest => read (Text.trim rest)

end Clause

/-- The clauses that a version has to meet. -/
abbrev Specifier := List Clause

namespace Specifier

def ofText? (cs : List Char) : Option Specifier :=
  (((cs.splitOnP (· == ',')).map Text.trim).filter (!·.isEmpty)).mapM Clause.ofText?

/-- Whether some clause names a version before its release. -/
def namesPrerelease : Specifier → Except VersionFault Bool
  | [] => .ok false
  | clause :: rest => do
    if ← clause.namesPrerelease then pure true else namesPrerelease rest

def admits (s : Specifier) (v : Version) : Except VersionFault Bool := do
  let allowed ← s.namesPrerelease
  pure ((allowed || !v.isPrerelease) && s.all (Clause.holds v))

end Specifier

/-- These versions and specifiers as a library. -/
def Packaging.standard : Packaging where
  Version := Rulebook.Version
  Specifier := Rulebook.Specifier
  Fault := VersionFault
  version text := ((Version.ofText? text.toList).map Except.ok).getD (.error .malformedVersion)
  specifier text :=
    ((Specifier.ofText? text.toList).map Except.ok).getD (.error .malformedSpecifier)
  admits := Specifier.admits

end Rulebook
