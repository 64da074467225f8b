import Rulebook.Text.Hexadecimal
import Rulebook.Text.Printable

/-!
Texts and octets as messages show them: between quotation marks, with everything that is not
printable written as an escape.
-/

namespace Rulebook.Text

/-- A text goes between apostrophes, unless it holds one and no double quote. -/
def quoteMark (cs : List Char) : Char :=
  if cs.contains '\'' && !cs.contains '"' then '"' else '\''

/-- The escape of an unprintable code point: two, four or eight digits. -/
def codeEscape (n : Nat) : List Char :=
  if n < 0x100 then '\\' :: 'x' :: hexDigits 2 n
  else if n < 0x10000 then '\\' :: 'u' :: hexDigits 4 n
  else '\\' :: 'U' :: hexDigits 8 n

/-- How a character stands between two quotation marks. -/
def quotedChar (mark c : Char) : List Char :=
  if c = mark ∨ c = '\\' then ['\\', c]
  else if c = '\t' then ['\\', 't']
  else if c = '\n' then ['\\', 'n']
  else if c = '\r' then ['\\', 'r']
  else if isPrintable c then [c]
  else codeEscape c.toNat

/-- A text between quotation marks. -/
def quoted (cs : List Char) : List Char :=
  let mark := quoteMark cs
  mark :: cs.flatMap (quotedChar mark) ++ [mark]

/-- How an octet stands between two quotation marks: only printable ASCII shows as it is. -/
def quotedOctet (mark : Char) (b : UInt8) : List Char :=
  if b.toNat < 127 then quotedChar mark (Char.ofNat b.toNat) else codeEscape b.toNat

/-- Octets between quotation marks, after the letter that tells them from a text. -/
def quotedOctets (bs : List UInt8) : List Char :=
  let mark := quoteMark (bs.map fun b => Char.ofNat b.toNat)
  'b' :: mark :: bs.flatMap (quotedOctet mark) ++ [mark]

end Rulebook.Text
