import Rulebook.Number.Decimal
import Rulebook.Text.Blank
import Rulebook.Text.Digit

/-!
Numbers as text. Integers are written in decimal. A finite binary64 number is written with the
fewest digits that read back: positionally from `10 ^ -4` up to `10 ^ 16`, with an exponent of a
sign and at least two digits outside, and never without a point or an exponent.
-/

namespace Rulebook

/-- An integer in decimal. -/
def integerText (n : Int) : List Char :=
  if n < 0 then '-' :: Nat.toDigits 10 n.natAbs else Nat.toDigits 10 n.natAbs

/-- The number of digits that a text may have for an integer, if an integer has more of them. There
need not be such a number. -/
def exceeded? (limit : Option Nat) (n : Int) : Option Nat :=
  limit.filter fun digits => decide (Nat.pow 10 digits ≤ n.natAbs)

namespace Binary64

/-- The digits with the point after the first `point` of them. -/
def positional (digits : List Char) (point : Int) : List Char :=
  if point ≤ 0 then '0' :: '.' :: List.replicate (-point).toNat '0' ++ digits
  else if digits.length ≤ point.toNat then
    digits ++ List.replicate (point.toNat - digits.length) '0' ++ ['.', '0']
  else digits.take point.toNat ++ '.' :: digits.drop point.toNat

/-- The digits with a point after the first one and a decimal exponent. -/
def exponential (digits : List Char) (exponent : Int) : List Char :=
  let power := Nat.toDigits 10 exponent.natAbs
  digits.take 1 ++ (if digits.length ≤ 1 then [] else '.' :: digits.drop 1) ++
    'e' :: (if exponent < 0 then '-' else '+') :: List.replicate (2 - power.length) '0' ++ power

def magnitudeText (rank : Nat) : List Char :=
  let (value, exponent) := shortest rank
  let all := Nat.toDigits 10 value
  let digits := if value = 0 then all else (all.reverse.dropWhile (· == '0')).reverse
  let point : Int := all.length + exponent
  if -4 < point ∧ point ≤ 16 then positional digits point else exponential digits (point - 1)

/-- The text of a number, `inf` and `nan` included. -/
def text : Binary64 → List Char
  | .finite negative rank => (if negative then ['-'] else []) ++ magnitudeText rank
  | .infinite negative => (if negative then ['-'] else []) ++ ['i', 'n', 'f']
  | .nan => ['n', 'a', 'n']

end Binary64

namespace Numeral

/-- The text with the decimal digits of all scripts written in ASCII. -/
def plainDigits (cs : List Char) : List Char :=
  cs.map fun c => ((Text.digitValue? c).map Nat.digitChar).getD c

/-- The sign at the front of a text, and what follows it. -/
def sign : List Char → Bool × List Char
  | '-' :: rest => (true, rest)
  | '+' :: rest => (false, rest)
  | cs => (false, cs)

/-- The value of an ASCII letter or digit as a digit. -/
def letterValue (c : Char) : Nat :=
  if c.isDigit then c.toNat - '0'.toNat
  else if c.isLower then c.toNat - 'a'.toNat + 10
  else if c.isUpper then c.toNat - 'A'.toNat + 10
  else 36

def digitsValue (base : Nat) (cs : List Char) : Nat :=
  cs.foldl (fun n c => base * n + letterValue c) 0

/-- The letters that may announce a base after a zero. -/
def baseLetters : Nat → List Char
  | 2 => ['b', 'B']
  | 8 => ['o', 'O']
  | 16 => ['x', 'X']
  | _ => []

/-- Drops the announcement of a base, such as `0x`. -/
def dropBase (base : Nat) : List Char → List Char
  | '0' :: c :: rest => if (baseLetters base).contains c then rest else '0' :: c :: rest
  | cs => cs

/-- Reads an integer: blanks around it, a sign, the announcement of the base, digits. -/
def integer? (base : Nat) (cs : List Char) : Option Int :=
  let (negative, rest) := sign (Text.trim (plainDigits cs))
  let digits := dropBase base rest
  if digits.isEmpty || digits.any (base ≤ letterValue ·) then none
  else
    let n := digitsValue base digits
    some (if negative then -(n : Int) else n)

/-- Whether a text spells an infinity, whatever the case of its letters. -/
def spellsInfinity (cs : List Char) : Bool :=
  let word := cs.map Char.toLower
  word == ['i', 'n', 'f'] || word == ['i', 'n', 'f', 'i', 'n', 'i', 't', 'y']

/-- Reads the exponent at the end of a number. -/
def exponent? : List Char → Option Int
  | [] => some 0
  | c :: rest =>
    if c = 'e' ∨ c = 'E' then
      let (negative, digits) := sign rest
      if digits.isEmpty || digits.any (!·.isDigit) then none
      else
        let n := Nat.ofDigitChars 10 digits 0
        some (if negative then -(n : Int) else n)
    else none

/-- Reads an unsigned decimal number: digits around an optional point, and an exponent. -/
def magnitude? (negative : Bool) (cs : List Char) : Option Binary64 :=
  let whole := cs.takeWhile Char.isDigit
  let (fraction, rest) := match cs.dropWhile Char.isDigit with
    | '.' :: rest => (rest.takeWhile Char.isDigit, rest.dropWhile Char.isDigit)
    | rest => ([], rest)
  if whole.isEmpty && fraction.isEmpty then none
  else (exponent? rest).map fun e =>
    Binary64.ofDecimal negative (Nat.ofDigitChars 10 (whole ++ fraction) 0) (e - fraction.length)

/-- Reads a number: blanks around it, a sign, then a decimal number, an infinity or a NaN. -/
def float? (cs : List Char) : Option Binary64 :=
  let (negative, rest) := sign (Text.trim (plainDigits cs))
  if spellsInfinity rest then some (.infinite negative)
  else if rest.map Char.toLower == ['n', 'a', 'n'] then some .nan
  else magnitude? negative rest

end Numeral
end Rulebook
