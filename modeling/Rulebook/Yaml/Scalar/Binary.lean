/-!
Octets as text in base 64. Four characters stand for three octets; a padding sign ends the text once
it completes a group. Characters without a meaning are passed over.
-/

namespace Rulebook.Yaml

/-- The value of a character of base 64. -/
def sextet? (c : Char) : Option Nat :=
  if c.isUpper then some (c.toNat - 'A'.toNat)
  else if c.isLower then some (c.toNat - 'a'.toNat + 26)
  else if c.isDigit then some (c.toNat - '0'.toNat + 52)
  else if c = '+' then some 62
  else if c = '/' then some 63
  else none

/-- The octets that a group of characters makes; a group of four makes three. -/
def groupOctets (group : List Nat) : List UInt8 :=
  let n := group.foldl (fun n d => n * 64 + d) 0 * Nat.pow 64 (4 - group.length)
  ([n / 65536, n / 256, n].map UInt8.ofNat).take (group.length - 1)

/-- The octets of a text behind a group that is not complete and padding signs in it. -/
def octetsFrom? : List Nat → Nat → List Char → Option (List UInt8)
  | group, _, [] => if group.isEmpty then some [] else none
  | group, pads, c :: rest =>
    if c = '=' then
      if group.length < 2 then octetsFrom? group pads rest
      else if 4 ≤ group.length + pads + 1 then some (groupOctets group)
      else octetsFrom? group (pads + 1) rest
    else
      match sextet? c with
      | none => octetsFrom? group pads rest
      | some n =>
        if group.length < 3 then octetsFrom? (group ++ [n]) 0 rest
        else (octetsFrom? [] 0 rest).map (groupOctets (group ++ [n]) ++ ·)

/-- The octets that a text in base 64 stands for. -/
def octetsOf? (cs : List Char) : Option (List UInt8) := octetsFrom? [] 0 cs

end Rulebook.Yaml
