import Rulebook.Text.Hexadecimal

/-!
Texts as octets. The encoding is told from the first octets, as a text that starts with an ASCII
character allows; `decode` then reads the characters or says at which octets it cannot. A surrogate
on its own is no character: `decode` leaves its place empty, and `decodeStrictly?` refuses it.
-/

namespace Rulebook.Text

/-- How the characters of a text are laid out as octets. -/
inductive Encoding where
  | utf8
  | utf16 (bigEndian : Bool)
  | utf32 (bigEndian : Bool)
deriving DecidableEq

def Encoding.name : Encoding → String
  | utf8 => "utf-8"
  | utf16 false => "utf-16-le"
  | utf16 true => "utf-16-be"
  | utf32 false => "utf-32-le"
  | utf32 true => "utf-32-be"

/-- Why octets are no text. -/
inductive DecodingProblem where
  | invalidStart
  | invalidContinuation
  | unexpectedEnd
  | truncated
  | outOfRange
deriving DecidableEq

/-- The wording of a problem. -/
def DecodingProblem.message : DecodingProblem → String
  | invalidStart => "invalid start byte"
  | invalidContinuation => "invalid continuation byte"
  | unexpectedEnd => "unexpected end of data"
  | truncated => "truncated data"
  | outOfRange => "code point not in range(0x110000)"

/-- Octets that are no text: where they are, how many, and the first of them. -/
structure DecodingFault where
  encoding : Encoding
  problem : DecodingProblem
  position : Nat
  count : Nat
  octet : UInt8

def DecodingFault.message (f : DecodingFault) : String :=
  let place :=
    if f.count = 1 then
      s!"byte 0x{String.ofList (hexDigits 2 f.octet.toNat)} in position {f.position}"
    else s!"bytes in position {f.position}-{f.position + f.count - 1}"
  s!"'{f.encoding.name}' codec can't decode {place}: {f.problem.message}"

/-- The encoding of octets and how many of them are a byte order mark. -/
def detect (octets : List UInt8) : Encoding × Nat :=
  match octets with
  | 0x00 :: 0x00 :: 0xFE :: 0xFF :: _ => (.utf32 true, 4)
  | 0xFF :: 0xFE :: 0x00 :: 0x00 :: _ => (.utf32 false, 4)
  | 0xFE :: 0xFF :: _ => (.utf16 true, 2)
  | 0xFF :: 0xFE :: _ => (.utf16 false, 2)
  | 0xEF :: 0xBB :: 0xBF :: _ => (.utf8, 3)
  | a :: b :: c :: d :: _ =>
    if a = 0 then (if b = 0 then .utf32 true else .utf16 true, 0)
    else if b = 0 then (if c = 0 ∧ d = 0 then .utf32 false else .utf16 false, 0)
    else (.utf8, 0)
  | [a, b] =>
    (if a = 0 then .utf16 true else if b = 0 then .utf16 false else .utf8, 0)
  | _ => (.utf8, 0)

/-- What stands at the front of octets: a character of so many octets, where a surrogate on its own
counts as one without a value, or so many octets that are none. -/
abbrev Decoded := Except (DecodingProblem × Nat) (Option Char × Nat)

/-- Whether an octet continues a character of UTF-8. -/
def isContinuation (b : UInt8) : Bool := 0x80 ≤ b && b ≤ 0xBF

/-- The character of a code point, which a surrogate does not have. -/
def charOf (n : Nat) : Option Char :=
  if 0xD800 ≤ n ∧ n ≤ 0xDFFF then none else some (Char.ofNat n)

/-- The octets that may follow the first one of a longer character: how many follow, and the range
of the one after it. -/
def utf8Shape (a : UInt8) : Option (Nat × UInt8 × UInt8) :=
  if 0xC2 ≤ a ∧ a ≤ 0xDF then some (1, 0x80, 0xBF)
  else if a = 0xE0 then some (2, 0xA0, 0xBF)
  else if a = 0xED then some (2, 0x80, 0x9F)
  else if 0xE1 ≤ a ∧ a ≤ 0xEF then some (2, 0x80, 0xBF)
  else if a = 0xF0 then some (3, 0x90, 0xBF)
  else if 0xF1 ≤ a ∧ a ≤ 0xF3 then some (3, 0x80, 0xBF)
  else if a = 0xF4 then some (3, 0x80, 0x8F)
  else none

/-- The code point of a character of UTF-8 of more than one octet. -/
def utf8Value (a : UInt8) (tail : List UInt8) : Nat :=
  let top := a.toNat % Nat.pow 2 (6 - tail.length)
  tail.foldl (fun n b => n * 64 + b.toNat % 64) top

/-- Whether octets start with a surrogate that is laid out like a character of UTF-8. -/
def startsWithSurrogate : List UInt8 → Bool
  | a :: b :: c :: _ => a == 0xED && 0xA0 ≤ b && b ≤ 0xBF && isContinuation c
  | _ => false

def utf8Front (a : UInt8) (rest : List UInt8) : Decoded :=
  if a < 0x80 then .ok (some (Char.ofNat a.toNat), 1)
  else if startsWithSurrogate (a :: rest) then .ok (none, 3)
  else
    match utf8Shape a with
    | none => .error (.invalidStart, 1)
    | some (count, low, high) =>
      let tail := rest.take count
      let good := match tail with
        | [] => []
        | b :: more => if low ≤ b && b ≤ high then b :: more.takeWhile isContinuation else []
      if good.length < tail.length then .error (.invalidContinuation, good.length + 1)
      else if tail.length < count then .error (.unexpectedEnd, tail.length + 1)
      else .ok (charOf (utf8Value a tail), count + 1)

/-- Two octets as a number. -/
def pair (bigEndian : Bool) (a b : UInt8) : Nat :=
  if bigEndian then a.toNat * 256 + b.toNat else b.toNat * 256 + a.toNat

def utf16Front (bigEndian : Bool) : List UInt8 → Decoded
  | a :: b :: rest =>
    let unit := pair bigEndian a b
    let low := match rest with
      | c :: d :: _ => pair bigEndian c d
      | _ => 0
    if 0xD800 ≤ unit ∧ unit ≤ 0xDBFF ∧ 0xDC00 ≤ low ∧ low ≤ 0xDFFF then
      .ok (some (Char.ofNat (0x10000 + (unit - 0xD800) * 0x400 + (low - 0xDC00))), 4)
    else .ok (charOf unit, 2)
  | _ => .error (.truncated, 1)

def utf32Front (bigEndian : Bool) : List UInt8 → Decoded
  | a :: b :: c :: d :: _ =>
    let n := if bigEndian then pair true a b * 65536 + pair true c d
      else pair false c d * 65536 + pair false a b
    if n < 0x110000 then .ok (charOf n, 4) else .error (.outOfRange, 4)
  | octets => .error (.truncated, octets.length)

def front (encoding : Encoding) (a : UInt8) (rest : List UInt8) : Decoded :=
  match encoding with
  | .utf8 => utf8Front a rest
  | .utf16 bigEndian => utf16Front bigEndian (a :: rest)
  | .utf32 bigEndian => utf32Front bigEndian (a :: rest)

/-- Decodes octets from a position on, of which the first `skip` belong to a character already
read. -/
def decodeFrom (encoding : Encoding) :
    Nat → Nat → List UInt8 → Except DecodingFault (List (Option Char))
  | _, _, [] => .ok []
  | skip + 1, position, _ :: rest => decodeFrom encoding skip (position + 1) rest
  | 0, position, a :: rest =>
    match front encoding a rest with
    | .error (problem, count) => .error ⟨encoding, problem, position, count, a⟩
    | .ok (c, count) =>
      (decodeFrom encoding (count - 1) (position + 1) rest).map (c :: ·)

/-- Decodes octets in an encoding that their front tells. Positions count from the first octet, a
byte order mark of UTF-8 left out. -/
def decode (octets : List UInt8) : Except DecodingFault (List (Option Char)) :=
  let (encoding, mark) := detect octets
  let position := if encoding = .utf8 then 0 else mark
  decodeFrom encoding 0 position (octets.drop mark)

/-- Decodes octets in a given encoding, if they hold characters only. -/
def decodeStrictly? (encoding : Encoding) (octets : List UInt8) : Option (List Char) :=
  (decodeFrom encoding 0 0 octets).toOption.bind fun cs => cs.mapM id

end Rulebook.Text
