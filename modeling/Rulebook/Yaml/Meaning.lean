import Rulebook.Value.Equality
import Rulebook.Yaml.Node
import Rulebook.Yaml.Scalar.Binary
import Rulebook.Yaml.Scalar.Number

/-!
What nodes stand for. Scalars are read as their tags say. A mapping takes in the entries of the
mappings that it merges, in front of its own. The items of a collection are looked at only once
everything on its own level has been, so a fault on an upper level is met before one on a lower
level; a meaning therefore holds its faults by levels, and `Node.value` fails with the first one.
-/

namespace Rulebook.Yaml

def scalarValue (tag : Tag) (cs : List Char) : Except Fault Value :=
  match tag with
  | .null => .ok .null
  | .str => .ok (.str (String.ofList cs))
  | .bool =>
    let word := String.ofList (Text.lowercase cs)
    if ["yes", "true", "on"].contains word then .ok (.bool true)
    else if ["no", "false", "off"].contains word then .ok (.bool false)
    else .error .unknownWord
  | .int => (integerOf cs).map .int
  | .float => (floatOf cs).map .float
  | .binary =>
    match if cs.all (·.toNat < 128) then octetsOf? cs else none with
    | some octets => .ok (.bytes octets)
    | none => .error .malformed
  | .timestamp =>
    match Stamp.ofText? cs with
    | some s => s.timestamp.map .timestamp
    | none => .error .notTimestamp
  | _ => .error .malformed

/-- What a node stands for. -/
inductive Meaning where
  /-- The value, if there are no faults; the faults, level by level; the text of the node as a
  scalar, if it has one; the entries of a mapping, with those that it merges; and the entries that
  the node contributes where it is merged. -/
  | mk (value : Value) (faults : List (List Fault)) (text : Option (List Char))
    (entries merged : Option (List (Meaning × Meaning)))

namespace Meaning

/-- The value of a node without faults. -/
def value : Meaning → Value
  | mk value .. => value

/-- The faults of a node, level by level. -/
def faults : Meaning → List (List Fault)
  | mk _ faults .. => faults

/-- The text of a node as a scalar. -/
def text : Meaning → Option (List Char)
  | mk _ _ text .. => text

/-- The entries of a mapping, with those that it merges. -/
def entries : Meaning → Option (List (Meaning × Meaning))
  | mk _ _ _ entries _ => entries

/-- The entries that a node contributes where it is merged. -/
def merged : Meaning → Option (List (Meaning × Meaning))
  | mk _ _ _ _ merged => merged

/-- The faults of two nodes on one level, the first of which is looked at first. -/
def joinLevels : List (List Fault) → List (List Fault) → List (List Fault)
  | [], levels | levels, [] => levels
  | a :: as, b :: bs => (a ++ b) :: joinLevels as bs

/-- The faults of several nodes on one level. -/
def allLevels (levels : List (List (List Fault))) : List (List Fault) :=
  levels.foldr joinLevels []

/-- A value that is known at once, or the fault that is met at once. -/
def immediate : Except Fault Value → Value × List (List Fault)
  | .ok v => (v, [])
  | .error fault => (.null, [[fault]])

/-- The faults of a collection, of which a part cannot be used. -/
def unusable : Value × List (List Fault) := (.null, [[], [.malformed]])

/-- A mapping, or a set of its keys, with the faults of its entries. -/
def collected (make : Entries → Value) (entries : List (Meaning × Meaning)) :
    Value × List (List Fault) :=
  let faults := entries.map fun (key, value) =>
    allLevels [key.faults, if key.value.isKey then [] else [[.malformed]], value.faults]
  (make (Entries.ofPairs (entries.map fun (key, value) => (key.value, value.value))),
    [] :: allLevels faults)

/-- A list of pairs, each of which is given as a mapping with one entry of its own. -/
def pairs (items : List (Option (Meaning × Meaning))) : Value × List (List Fault) :=
  let item (pair : Option (Meaning × Meaning)) : Value × List (List Fault) :=
    match pair with
    | some (key, value) => (.tuple [key.value, value.value], joinLevels key.faults value.faults)
    | none => (.null, [[.malformed]])
  (.list (items.map fun pair => (item pair).1),
    [] :: allLevels (items.map fun pair => (item pair).2))

def ofScalar (tag : Tag) (cs : List Char) : Meaning :=
  let (value, faults) :=
    if tag = .ordered ∨ tag = .pairs ∨ tag = .set ∨ tag = .sequence ∨ tag = .mapping then unusable
    else immediate (scalarValue tag cs)
  mk value faults (some cs) none none

/-- A node as a text, which it must be as a scalar. -/
def asText (m : Meaning) : Meaning :=
  match m.text with
  | some cs => ofScalar .str cs
  | none => ofScalar .unknown []

/-- The meaning of a sequence; for each item is given whether it is a mapping of one entry. -/
def ofSequence (tag : Tag) (items : List (Meaning × Option (Meaning × Meaning))) : Meaning :=
  let (value, faults) : Value × List (List Fault) :=
    match tag with
    | .sequence =>
      (.list (items.map (·.1.value)), [] :: allLevels (items.map (·.1.faults)))
    | .ordered | .pairs => pairs (items.map (·.2))
    | .mapping | .set => unusable
    | _ => immediate (.error .malformed)
  let merged := items.reverse.mapM fun (item, _) => item.entries
  mk value faults none none (merged.map List.flatten)

/-- An entry of a mapping, with the tag of its key. -/
structure Entry where
  tag : Tag
  key : Meaning
  value : Meaning

/-- The entries of a mapping, behind those that it merges; there are none if something else than
mappings is merged. -/
def flattened (entries : List Entry) : Option (List (Meaning × Meaning)) := do
  let merged ← (entries.filter (·.tag = .merge)).mapM (·.value.merged)
  let own := (entries.filter (·.tag ≠ .merge)).map fun e =>
    (if e.tag = .value then e.key.asText else e.key, e.value)
  pure (merged.flatten ++ own)

/-- The meaning of a mapping. Where a scalar is asked for, the value under the key for that stands
for the whole mapping. -/
def ofMapping (tag : Tag) (entries : List Entry) : Meaning :=
  let flat := flattened entries
  let text := (entries.find? (·.tag = .value)).bind (·.value.text)
  let (value, faults) :=
    match tag with
    | .mapping => flat.elim unusable (collected .dict)
    | .set => flat.elim unusable (collected fun es => .set (es.map (·.1)))
    | .ordered | .pairs | .sequence => unusable
    | .timestamp => immediate (.error (if text.isSome then .timestampMapping else .malformed))
    | tag =>
      match text with
      | some cs => immediate (scalarValue tag cs)
      | none => immediate (.error .malformed)
  mk value faults text flat flat

end Meaning

mutual

def Node.meaning : Node → Meaning
  | .scalar tag cs => .ofScalar tag cs
  | .sequence tag items => .ofSequence tag (meanings items)
  | .mapping tag entries => .ofMapping tag (entryMeanings entries)

/-- The meanings of items, each with its one entry if it is a mapping of one entry. -/
def meanings : List Node → List (Meaning × Option (Meaning × Meaning))
  | [] => []
  | item :: rest => (item.meaning, onlyEntry? item) :: meanings rest

def onlyEntry? : Node → Option (Meaning × Meaning)
  | .mapping _ [(key, value)] => some (key.meaning, value.meaning)
  | _ => none

/-- The meanings of entries, each with the tag of its key. -/
def entryMeanings : List (Node × Node) → List Meaning.Entry
  | [] => []
  | (key, value) :: rest => ⟨key.tag, key.meaning, value.meaning⟩ :: entryMeanings rest

end

def Node.value (node : Node) : Except Fault Value :=
  let m := node.meaning
  match m.faults.flatten with
  | [] => .ok m.value
  | fault :: _ => .error fault

end Rulebook.Yaml
