import Rulebook.Number.Numeral

/-!
Calendar dates and moments, which a YAML text can hold beside numbers and texts.
-/

namespace Rulebook

/-- A date of the proleptic Gregorian calendar. -/
structure Date where
  year : Nat
  month : Nat
  day : Nat
deriving DecidableEq

/-- A date with a time of day. The offset from universal time is in minutes; a moment without one
belongs to no zone. -/
structure Moment where
  date : Date
  hour : Nat
  minute : Nat
  second : Nat
  microsecond : Nat
  offset : Option Int
deriving DecidableEq

/-- A date, with or without a time of day. -/
inductive Timestamp where
  | day (date : Date)
  | moment (moment : Moment)
deriving DecidableEq

/-- A natural number in decimal, padded with zeros to a width. -/
def padded (width n : Nat) : List Char :=
  let digits := Nat.toDigits 10 n
  List.replicate (width - digits.length) '0' ++ digits

/-- The calendar form of a date, `2020-01-31`. -/
def Date.text (d : Date) : List Char :=
  padded 4 d.year ++ '-' :: padded 2 d.month ++ '-' :: padded 2 d.day

/-- An offset as a sign, hours and minutes. -/
def offsetText (minutes : Int) : List Char :=
  (if minutes < 0 then '-' else '+') :: padded 2 (minutes.natAbs / 60) ++
    ':' :: padded 2 (minutes.natAbs % 60)

/-- A moment as its date and its time, with a blank between them. -/
def Moment.text (m : Moment) : List Char :=
  m.date.text ++ ' ' :: padded 2 m.hour ++ ':' :: padded 2 m.minute ++ ':' :: padded 2 m.second ++
    (if m.microsecond = 0 then [] else '.' :: padded 6 m.microsecond) ++
    (m.offset.map offsetText).getD []

def Timestamp.text : Timestamp → List Char
  | .day d => d.text
  | .moment m => m.text

/-- Items with a comma and a blank between them. -/
def commaSeparated (items : List (List Char)) : List Char :=
  (items.intersperse [',', ' ']).flatten

/-- A duration in minutes as messages show it: whole days, of which a negative duration has one
more, and the rest in seconds. -/
def durationShown (minutes : Int) : List Char :=
  let days := minutes / 1440
  let seconds := minutes % 1440 * 60
  let parts := (if days = 0 then [] else ["days=".toList ++ integerText days]) ++
    (if seconds = 0 then [] else ["seconds=".toList ++ integerText seconds])
  "datetime.timedelta(".toList ++ (if parts.isEmpty then ['0'] else commaSeparated parts) ++ [')']

/-- An offset as messages show it. -/
def offsetShown (minutes : Int) : List Char :=
  if minutes = 0 then "datetime.timezone.utc".toList
  else "datetime.timezone(".toList ++ durationShown minutes ++ [')']

/-- A timestamp as messages show it: seconds and fractions of zero are left out. -/
def Timestamp.shown : Timestamp → List Char
  | .day d =>
    "datetime.date(".toList ++ commaSeparated ([d.year, d.month, d.day].map (Nat.toDigits 10)) ++
      [')']
  | .moment m =>
    let fields := [m.date.year, m.date.month, m.date.day, m.hour, m.minute] ++
      (if m.microsecond = 0 then if m.second = 0 then [] else [m.second]
        else [m.second, m.microsecond])
    let zone := (m.offset.map fun o => ["tzinfo=".toList ++ offsetShown o]).getD []
    "datetime.datetime(".toList ++ commaSeparated (fields.map (Nat.toDigits 10) ++ zone) ++ [')']

/-- Days from the first day of year one. -/
def Date.ordinal (d : Date) : Nat :=
  let y := d.year - 1
  let before := y * 365 + y / 4 - y / 100 + y / 400
  let leap := d.year % 4 = 0 ∧ (d.year % 100 ≠ 0 ∨ d.year % 400 = 0)
  let starts := [0, 31, 59, 90, 120, 151, 181, 212, 243, 273, 304, 334]
  before + starts.getD (d.month - 1) 0 + (if leap ∧ 2 < d.month then 1 else 0) + d.day

/-- Microseconds from the first day of year one, in universal time where an offset is known. -/
def Moment.instant (m : Moment) : Int :=
  let minutes : Int := ((m.date.ordinal * 24 + m.hour) * 60 + m.minute : Nat) - m.offset.getD 0
  (minutes * 60 + m.second) * 1000000 + m.microsecond

/-- Timestamps are equal when they name the same date, or the same instant with both or neither
of them in a zone. -/
def Timestamp.equal : Timestamp → Timestamp → Bool
  | .day a, .day b => a = b
  | .moment a, .moment b => a.offset.isSome = b.offset.isSome && a.instant = b.instant
  | _, _ => false

end Rulebook
