import Rulebook.Text.Lowercase
import Rulebook.Yaml.Fault

/-!
Numbers as scalars. Underscores do not count. A number may be given in sixties, with colons between
its places; an integer may be given in base 2, 8 or 16.
-/

namespace Rulebook.Yaml

/-- A text without its underscores. -/
def withoutBars (cs : List Char) : List Char := cs.filter (· ≠ '_')

/-- Whether a number is negative, and its text without its sign; there must be some text. -/
def signed (cs : List Char) : Except Fault (Bool × List Char) :=
  match cs with
  | [] => .error .emptyNumber
  | '-' :: rest => .ok (true, rest)
  | '+' :: rest => .ok (false, rest)
  | cs => .ok (false, cs)

def places (cs : List Char) : List (List Char) := cs.splitOn ':'

def integerIn (base : Nat) (cs : List Char) : Except Fault Int :=
  match Numeral.integer? base cs with
  | some n => .ok n
  | none => .error (.invalidInteger base cs)

/-- An integer without its sign. -/
def magnitude (cs : List Char) : Except Fault Int :=
  match cs with
  | [] => .error .emptyNumber
  | ['0'] => .ok 0
  | '0' :: 'b' :: digits => integerIn 2 digits
  | '0' :: 'x' :: digits => integerIn 16 digits
  | '0' :: _ => integerIn 8 cs
  | cs =>
    if cs.contains ':' then
      ((places cs).mapM (integerIn 10)).map fun ds => ds.foldl (fun n d => n * 60 + d) 0
    else integerIn 10 cs

/-- The integer that a text stands for. -/
def integerOf (cs : List Char) : Except Fault Int := do
  let (negative, digits) ← signed (withoutBars cs)
  let n ← magnitude digits
  pure (if negative then -n else n)

def floatIn (cs : List Char) : Except Fault Binary64 :=
  match Numeral.float? cs with
  | some x => .ok x
  | none => .error (.invalidFloat cs)

/-- The binary64 number nearest to a power of sixty, which is a natural number; there is none if it
is too large. -/
def sixtyPower (k : Nat) : Except Fault Nat :=
  match (Binary64.ofRatio false (Nat.pow 60 k) 1).fraction? with
  | some (n, den) => .ok (n.toNat / den)
  | none => .error .placeTooLarge

/-- The sum of places in sixties, the last place first, where the first of them counts
`60 ^ k`. -/
def sixtySum : Nat → Binary64 → List Binary64 → Except Fault Binary64
  | _, sum, [] => .ok sum
  | k, sum, x :: rest => do
    let power ← sixtyPower k
    sixtySum (k + 1) (sum.add (x.scaleBy power)) rest

def floatOf (cs : List Char) : Except Fault Binary64 := do
  let (negative, digits) ← signed (Text.lowercase (withoutBars cs))
  let x ←
    if digits = ".inf".toList then pure (.infinite false)
    else if digits = ".nan".toList then pure .nan
    else if digits.contains ':' then do
      let xs ← (places digits).mapM floatIn
      sixtySum 0 (.ofRank false 0) xs.reverse
    else floatIn digits
  pure (if negative then x.neg else x)

end Rulebook.Yaml
