import Rulebook.Yaml.Fault

/-!
Timestamps as scalars: a date, or a date and a time of day with an optional fraction and an
optional offset from universal time. `Stamp.ofText?` reads the form, `Stamp.timestamp` the date and
time that it names, if there are such.
-/

namespace Rulebook.Yaml

/-- A time of day as it is written; the offset is in minutes. -/
structure TimeOfDay where
  hour : Nat
  minute : Nat
  second : Nat
  fraction : List Char
  offset : Option Int

/-- A timestamp as it is written. -/
structure Stamp where
  year : Nat
  month : Nat
  day : Nat
  time : Option TimeOfDay

namespace Stamp

/-- At most `most` digits at the front of a text, and what is left. -/
def digits? (least most : Nat) (cs : List Char) : Option (Nat × List Char) :=
  let digits := (cs.take most).takeWhile Char.isDigit
  if digits.length < least then none
  else some (Nat.ofDigitChars 10 digits 0, cs.drop digits.length)

/-- What is left of a text behind a character. -/
def after? (c : Char) : List Char → Option (List Char)
  | c' :: rest => if c' = c then some rest else none
  | [] => none

/-- Whether a character is a blank or a tab. -/
def isGap (c : Char) : Bool := c = ' ' || c = '\t'

/-- The offset at the end of a timestamp; a text that is over tells none. -/
def offset? (cs : List Char) : Option (Option Int) :=
  let signed (negative : Bool) (cs : List Char) : Option (Option Int) := do
    let (hours, rest) ← digits? 1 2 cs
    let (minutes, rest) ← match rest with
      | ':' :: rest => digits? 2 2 rest
      | rest => some (0, rest)
    let total : Int := (hours * 60 + minutes : Nat)
    if rest.isEmpty then some (some (if negative then -total else total)) else none
  if cs.isEmpty then some none
  else
    match cs.dropWhile isGap with
    | ['Z'] => some (some 0)
    | '-' :: rest => signed true rest
    | '+' :: rest => signed false rest
    | _ => none

/-- The time of day behind a date. -/
def time? (cs : List Char) : Option TimeOfDay := do
  let (hour, rest) ← digits? 1 2 cs
  let rest ← after? ':' rest
  let (minute, rest) ← digits? 2 2 rest
  let rest ← after? ':' rest
  let (second, rest) ← digits? 2 2 rest
  let (fraction, rest) := match rest with
    | '.' :: rest => (rest.takeWhile Char.isDigit, rest.dropWhile Char.isDigit)
    | rest => ([], rest)
  let offset ← offset? rest
  pure ⟨hour, minute, second, fraction, offset⟩

/-- The timestamp that a text has the form of. A line break at its end does not count. -/
def ofText? (cs : List Char) : Option Stamp := do
  let cs := if cs.getLast? = some '\n' then cs.dropLast else cs
  let (year, rest) ← digits? 4 4 cs
  let rest ← after? '-' rest
  let (month, rest) ← digits? 1 2 rest
  let rest ← after? '-' rest
  let (day, rest) ← digits? 1 2 rest
  match rest with
  | [] => some ⟨year, month, day, none⟩
  | c :: more =>
    if c = 'T' ∨ c = 't' then (time? more).map fun t => ⟨year, month, day, some t⟩
    else if isGap c then
      (time? (more.dropWhile isGap)).map fun t => ⟨year, month, day, some t⟩
    else none

/-- How many days a month has. -/
def daysIn (year month : Nat) : Nat :=
  if month = 2 then
    if year % 4 = 0 ∧ (year % 100 ≠ 0 ∨ year % 400 = 0) then 29 else 28
  else if month = 4 ∨ month = 6 ∨ month = 9 ∨ month = 11 then 30
  else 31

/-- The date that is written; year, month and day are looked at in this order. -/
def date (s : Stamp) : Except Fault Date :=
  if s.year = 0 then .error (.yearOutOfRange s.year)
  else if s.month = 0 ∨ 12 < s.month then .error .monthOutOfRange
  else if s.day = 0 ∨ daysIn s.year s.month < s.day then .error .dayOutOfRange
  else .ok ⟨s.year, s.month, s.day⟩

/-- The microseconds that the first six digits of a fraction make. -/
def microseconds (fraction : List Char) : Nat :=
  let digits := fraction.take 6
  Nat.ofDigitChars 10 digits 0 * Nat.pow 10 (6 - digits.length)

/-- The date or the moment that is written; the offset is looked at first. -/
def timestamp (s : Stamp) : Except Fault Timestamp :=
  match s.time with
  | none => s.date.map .day
  | some t =>
    let minutes := t.offset.getD 0
    if 1440 ≤ minutes.natAbs then .error (.offsetOutOfRange minutes)
    else do
      let date ← s.date
      if 23 < t.hour then throw .hourOutOfRange
      if 59 < t.minute then throw .minuteOutOfRange
      if 59 < t.second then throw .secondOutOfRange
      pure (.moment ⟨date, t.hour, t.minute, t.second, microseconds t.fraction, t.offset⟩)

end Stamp
end Rulebook.Yaml
