/-!
Binary64 numbers in exact arithmetic. A finite number is its sign and the rank of its magnitude
among the finite magnitudes, counted from zero; the rank determines the significand and the scale.
`ofRatio` rounds a quotient of natural numbers to the nearest number, a tie to the even one.
-/

namespace Rulebook

/-- How many magnitudes have one scale: `2 ^ 52`. -/
abbrev binade : Nat := 0x10000000000000

def finiteMagnitudes : Nat := 2047 * binade

/-- A binary64 number. All NaNs are one, for no operation tells them apart. -/
inductive Binary64 where
  | finite (negative : Bool) (rank : Fin finiteMagnitudes)
  | infinite (negative : Bool)
  | nan
deriving DecidableEq

namespace Binary64

/-- The significand of the magnitude of a rank, a number below `2 ^ 53`. -/
def significand (rank : Nat) : Nat :=
  if rank < binade then rank else binade + rank % binade

/-- The scale of the magnitude of a rank: it is its significand times `2 ^ scale`. -/
def scale (rank : Nat) : Int := (max (rank / binade) 1 : Nat) - 1075

/-- The number of a sign and a rank; a rank past the finite ones is infinite. -/
def ofRank (negative : Bool) (rank : Nat) : Binary64 :=
  if h : rank < finiteMagnitudes then .finite negative ⟨rank, h⟩ else .infinite negative

/-- The quotient rounded to the nearest natural number, a tie to the even one. -/
def roundedQuotient (num den : Nat) : Nat :=
  let q := num / den
  let twice := 2 * (num % den)
  if twice < den then q
  else if den < twice then q + 1
  else q + q % 2

/-- `num / den` with both sides multiplied out, so that the first is divided by `2 ^ e`. -/
def shifted (num den : Nat) (e : Int) : Nat × Nat :=
  if 0 ≤ e then (num, den * Nat.pow 2 e.toNat) else (num * Nat.pow 2 (-e).toNat, den)

/-- The greatest `e` with `2 ^ e ≤ num / den`, for positive `num` and `den`. -/
def binaryOrder (num den : Nat) : Int :=
  let e : Int := (Nat.log2 num : Int) - Nat.log2 den
  let (n, d) := shifted num den e
  if d ≤ n then e else e - 1

/-- The number nearest to `num / den`, a tie going to the even significand. -/
def ofRatio (negative : Bool) (num den : Nat) : Binary64 :=
  if num = 0 then ofRank negative 0
  else
    let scale := max (binaryOrder num den - 52) (-1074)
    let (n, d) := shifted num den scale
    ofRank negative ((scale + 1074).toNat * binade + roundedQuotient n d)

/-- The magnitude of a rank as a quotient. -/
def ratio (rank : Nat) : Nat × Nat := shifted (significand rank) 1 (-scale rank)

/-- The number with the other sign. -/
def neg : Binary64 → Binary64
  | .finite negative rank => .finite (!negative) rank
  | .infinite negative => .infinite (!negative)
  | .nan => .nan

/-- The value of a finite number, as a signed numerator and a denominator. -/
def fraction? : Binary64 → Option (Int × Nat)
  | .finite negative rank =>
    let (num, den) := ratio rank
    some (if negative then -(num : Int) else num, den)
  | _ => none

/-- How two numbers compare by value; nothing compares with a NaN. -/
def order? : Binary64 → Binary64 → Option Ordering
  | .nan, _ | _, .nan => none
  | .infinite a, .infinite b => some (compare b a)
  | .infinite a, .finite .. => some (if a then .lt else .gt)
  | .finite .., .infinite b => some (if b then .gt else .lt)
  | x@(.finite ..), y@(.finite ..) =>
    match x.fraction?, y.fraction? with
    | some (a, b), some (c, d) => some (compare (a * d) (c * b))
    | _, _ => none

/-- How a number compares with an integer, exactly. -/
def orderInt? : Binary64 → Int → Option Ordering
  | .nan, _ => none
  | .infinite negative, _ => some (if negative then .lt else .gt)
  | x@(.finite ..), n => x.fraction?.map fun (a, b) => compare a (n * b)

/-- The number nearest to a signed quotient; an exact zero takes the sign `zeroNegative`. -/
def ofFraction (zeroNegative : Bool) (num : Int) (den : Nat) : Binary64 :=
  if num = 0 then ofRank zeroNegative 0 else ofRatio (num < 0) num.natAbs den

/-- The sign bit; a NaN has none. -/
def isNegative : Binary64 → Bool
  | .finite negative _ | .infinite negative => negative
  | .nan => false

/-- The number nearest to the exact sum. -/
def add : Binary64 → Binary64 → Binary64
  | .nan, _ | _, .nan => .nan
  | .infinite a, .infinite b => if a = b then .infinite a else .nan
  | .infinite a, .finite .. => .infinite a
  | .finite .., .infinite b => .infinite b
  | x@(.finite ..), y@(.finite ..) =>
    match x.fraction?, y.fraction? with
    | some (a, b), some (c, d) =>
      ofFraction (x.isNegative && y.isNegative) (a * d + c * b) (b * d)
    | _, _ => .nan

/-- The number nearest to the exact product with a natural number. -/
def scaleBy (x : Binary64) (n : Nat) : Binary64 :=
  match x with
  | .nan => .nan
  | .infinite negative => if n = 0 then .nan else .infinite negative
  | .finite negative rank =>
    let (num, den) := ratio rank
    ofFraction negative ((if negative then -1 else 1) * (num * n : Nat)) den

end Binary64
end Rulebook
