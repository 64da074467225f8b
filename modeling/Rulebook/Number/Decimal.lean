import Rulebook.Number.Binary64

/-!
Binary64 numbers and decimal digits. `ofDecimal` reads `digits · 10 ^ exponent`, and `shortest`
finds the fewest digits that read back, the nearest ones where several of that length do.
-/

namespace Rulebook.Binary64

/-- How many decimal digits a natural number has. -/
def digitCount (n : Nat) : Nat := (Nat.toDigits 10 n).length

/-- `num / den` with both sides multiplied out, so that it is divided by `10 ^ e`. -/
def tenShifted (num den : Nat) (e : Int) : Nat × Nat :=
  if 0 ≤ e then (num, den * Nat.pow 10 e.toNat) else (num * Nat.pow 10 (-e).toNat, den)

/-- The number nearest to `digits * 10 ^ exponent`. Magnitudes far outside the range of finite
numbers are settled by their order, so that no huge power is computed. -/
def ofDecimal (negative : Bool) (digits : Nat) (exponent : Int) : Binary64 :=
  let order := digitCount digits + exponent
  if digits = 0 ∨ order < -330 then ofRank negative 0
  else if 320 < order then .infinite negative
  else
    let (num, den) := tenShifted digits 1 (-exponent)
    ofRatio negative num den

/-- The greatest `e` with `10 ^ e ≤ num / den`, for positive `num` and `den`. -/
def decimalOrder (num den : Nat) : Int :=
  let e : Int := (digitCount num : Int) - digitCount den
  let (n, d) := tenShifted num den e
  if d ≤ n then e else e - 1

/-- Whether `digits * 10 ^ exponent` reads as the number of a rank. -/
def readsAs (rank digits : Nat) (exponent : Int) : Bool :=
  ofDecimal false digits exponent = ofRank false rank

/-- Of the two multiples of `10 ^ exponent` around a magnitude, the nearest one that reads back. -/
def nearestReading? (rank : Nat) (exponent : Int) : Option Nat :=
  let (num, den) := ratio rank
  let (n, d) := tenShifted num den exponent
  let below := n / d
  match readsAs rank below exponent, readsAs rank (below + 1) exponent with
  | true, true => some (roundedQuotient n d)
  | true, false => some below
  | false, true => some (below + 1)
  | false, false => none

/-- All decimal digits of a magnitude: a power of two divides a power of ten. -/
def exactDecimal (rank : Nat) : Nat × Int :=
  let e := scale rank
  if 0 ≤ e then (significand rank * Nat.pow 2 e.toNat, 0)
  else (significand rank * Nat.pow 5 (-e).toNat, e)

/-- The fewest decimal digits that read as the magnitude of a rank, and their exponent. -/
def shortest (rank : Nat) : Nat × Int :=
  if rank = 0 then (0, 0)
  else
    let (num, den) := ratio rank
    let order := decimalOrder num den
    let found := (List.range 17).findSome? fun (i : Nat) =>
      (nearestReading? rank (order - i)).map fun digits => (digits, order - i)
    found.getD (exactDecimal rank)

end Rulebook.Binary64
