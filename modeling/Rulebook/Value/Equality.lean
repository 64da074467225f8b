import Rulebook.Value.Basic

/-!
Equality of values. Numbers are compared by their exact value, a truth value counting as 0 or 1;
a node equals the tuple of its tag and payload; the order of a mapping's entries does not matter;
a list never equals a tuple. Objects without a value of their own, and a NaN, equal only the very
same object: `same` compares two values that may share such objects at equal places, and `equal`
two values that share none.
-/

namespace Rulebook

/-- A number as comparisons see it. -/
inductive Number where
  | int (n : Int)
  | float (x : Binary64)

namespace Number

/-- How two numbers compare, exactly; a NaN compares with nothing. -/
def order? : Number → Number → Option Ordering
  | int a, int b => some (compare a b)
  | int a, float y => (y.orderInt? a).map Ordering.swap
  | float x, int b => x.orderInt? b
  | float x, float y => x.order? y

end Number

namespace Value

/-- The number of a value that is one; a truth value is 0 or 1. -/
def number? : Value → Option Number
  | bool b => some (.int (if b then 1 else 0))
  | int n => some (.int n)
  | float x => some (.float x)
  | _ => none

/-- Whether two values that are not both containers are equal numbers, or the same NaN. -/
def equalNumbers (shared : Bool) (a b : Value) : Bool :=
  match a.number?, b.number? with
  | some (.float .nan), some (.float .nan) => shared
  | some x, some y => x.order? y == some .eq
  | _, _ => false

mutual

/-- Whether two values are equal, where `shared` tells whether objects without a value of their own
are the same at equal places. -/
def alike (shared : Bool) : Value → Value → Bool
  | null, null | undefined, undefined => true
  | bool a, b => equalNumbers shared (bool a) b
  | int a, b => equalNumbers shared (int a) b
  | float a, b => equalNumbers shared (float a) b
  | str a, b => b.text? == some a
  | member (str a), b => b.text? == some a
  | member a, member b => shared && alike shared a b
  | bytes a, bytes b => a == b
  | list a, list b => alikeItems shared a b
  | tuple a, b =>
    match b.tupleItems? with
    | some items => alikeItems shared a items
    | none => false
  | node tag payload, b =>
    match b.tupleItems? with
    | some [tag', payload'] => alike shared tag tag' && alike shared payload payload'
    | _ => false
  | dict a, dict b => a.length == b.length && alikeEntries shared a b
  | set a, set b => a.length == b.length && alikeMembers shared a b
  | timestamp a, timestamp b => a.equal b
  | rule a, rule b => alike shared a b
  | brokenRule a, brokenRule b => shared && a == b
  | constant a, constant b => shared && a == b
  | inert, inert => shared
  | _, _ => false

def alikeItems (shared : Bool) : List Value → List Value → Bool
  | [], [] => true
  | a :: as, b :: bs => alike shared a b && alikeItems shared as bs
  | _, _ => false

/-- Whether each entry has an equal one among `others`. -/
def alikeEntries (shared : Bool) : Entries → Entries → Bool
  | [], _ => true
  | (key, value) :: rest, others =>
    others.any (fun (key', value') => alike shared key key' && alike shared value value') &&
      alikeEntries shared rest others

/-- Whether each member has an equal one among `others`. -/
def alikeMembers (shared : Bool) : List Value → List Value → Bool
  | [], _ => true
  | a :: as, others => others.any (fun b => alike shared a b) && alikeMembers shared as others

end

/-- Whether two values that share no object are equal. -/
def equal (a b : Value) : Bool := alike false a b

/-- Whether two values are equal, of which the second was made from the parts of the first. -/
def same (a b : Value) : Bool := alike true a b

end Value

namespace Entries

/-- The value under the first key equal to `key`. -/
def lookup? (entries : Entries) (key : Value) : Option Value :=
  (entries.find? fun (key', _) => key'.equal key).map (·.2)

/-- Writes a value under a key: in place of the value of an equal key, whose spelling stays, else
behind all entries. -/
def insert : Entries → Value → Value → Entries
  | [], key, value => [(key, value)]
  | (key', value') :: rest, key, value =>
    if key'.equal key then (key', value) :: rest else (key', value') :: insert rest key value

/-- The mapping that writes the pairs one after another. -/
def ofPairs (pairs : Entries) : Entries :=
  pairs.foldl (fun entries (key, value) => insert entries key value) []

end Entries
end Rulebook
