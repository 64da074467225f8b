import Rulebook.Value.Equality

/-!
The order of values, and sorting by it. Numbers, texts, octets, tuples and timestamps are ordered
among themselves; two values of different such kinds are not. `sortBy` sorts with an order that may
fail: it takes the run at the front and inserts the others by halving, so that the first two values
found without an order are determined.
-/

namespace Rulebook

/-- Two values without an order, by the names of their kinds. -/
structure Unordered where
  left : String
  right : String

/-- The wording of a missing order. -/
def Unordered.message (u : Unordered) : String :=
  s!"'<' not supported between instances of '{u.left}' and '{u.right}'"

namespace Value

/-- Whether a text comes before another, by code points. -/
def textBefore : List Char → List Char → Bool
  | _, [] => false
  | [], _ :: _ => true
  | a :: as, b :: bs => a.toNat < b.toNat || (a == b && textBefore as bs)

/-- Whether octets come before others. -/
def octetsBefore : List UInt8 → List UInt8 → Bool
  | _, [] => false
  | [], _ :: _ => true
  | a :: as, b :: bs => a < b || (a == b && octetsBefore as bs)

/-- Whether a timestamp comes before another of its kind. -/
def timeBefore? : Timestamp → Timestamp → Option Bool
  | .day a, .day b => some (a.ordinal < b.ordinal)
  | .moment a, .moment b =>
    if a.offset.isSome = b.offset.isSome then some (a.instant < b.instant) else none
  | _, _ => none

/-- The order of values other than tuples. -/
def scalarBefore (a b : Value) : Except Unordered Bool :=
  let unordered : Except Unordered Bool := .error ⟨a.kind, b.kind⟩
  match a.number?, b.number?, a.text?, b.text? with
  | some x, some y, _, _ => .ok (x.order? y == some .lt)
  | _, _, some s, some t => .ok (textBefore s.toList t.toList)
  | _, _, _, _ =>
    match a, b with
    | bytes x, bytes y => .ok (octetsBefore x y)
    | timestamp x, timestamp y => ((timeBefore? x y).map Except.ok).getD unordered
    | _, _ => unordered

mutual

/-- Whether a value comes before another. Tuples are ordered by the first place where they
differ. -/
def before : Value → Value → Except Unordered Bool
  | tuple items, b =>
    match b.tupleItems? with
    | some others => itemsBefore items others
    | none => .error ⟨"tuple", b.kind⟩
  | node tag payload, b =>
    match b.tupleItems? with
    | some [] => .ok false
    | some [other] => if tag.equal other then .ok false else before tag other
    | some (other :: other' :: more) =>
      if !tag.equal other then before tag other
      else if !payload.equal other' then before payload other'
      else .ok (!more.isEmpty)
    | none => .error ⟨"Node", b.kind⟩
  | a, b => scalarBefore a b

/-- Whether items come before others. -/
def itemsBefore : List Value → List Value → Except Unordered Bool
  | _, [] => .ok false
  | [], _ :: _ => .ok true
  | a :: as, b :: bs => if a.equal b then itemsBefore as bs else before a b

end

end Value

section Sorting

variable {α ε : Type}

/-- How many items at the front follow one another so that `before next previous` is `expected`. -/
def runLength (before : α → α → Except ε Bool) (expected : Bool) : α → List α → Except ε Nat
  | _, [] => .ok 0
  | previous, next :: rest => do
    if (← before next previous) == expected then
      let n ← runLength before expected next rest
      pure (n + 1)
    else pure 0

/-- The place of an item in a sorted list, behind the items equal to it, between `low` and
`high`. -/
def place (before : α → α → Except ε Bool) (item : α) (sorted : List α) (low high : Nat) :
    Except ε Nat :=
  if low < high then
    let middle := low + (high - low) / 2
    match sorted[middle]? with
    | none => .ok low
    | some other => do
      if ← before item other then place before item sorted low middle
      else place before item sorted (middle + 1) high
  else .ok low
termination_by high - low

def insertSorted (before : α → α → Except ε Bool) (sorted : List α) (item : α) :
    Except ε (List α) := do
  let n ← place before item sorted 0 sorted.length
  pure (sorted.take n ++ item :: sorted.drop n)

/-- Sorts a list; equal items keep their order. -/
def sortBy (before : α → α → Except ε Bool) : List α → Except ε (List α)
  | [] => .ok []
  | [item] => .ok [item]
  | first :: second :: rest => do
    let descending ← before second first
    let n ← runLength before descending second rest
    let run := first :: second :: rest.take n
    (rest.drop n).foldlM (insertSorted before) (if descending then run.reverse else run)

end Sorting
end Rulebook
