import Rulebook.Value.Order
import Rulebook.Yaml.Node

/-!
Values as nodes. Lists and tuples become sequences. Only plain data has a node: no octets, no sets
and no objects of any kind.
-/

namespace Rulebook.Yaml

/-- A number with a point; an exponent without a point would not be read as one. -/
def floatText (x : Binary64) : List Char :=
  match x with
  | .nan => ".nan".toList
  | .infinite negative => if negative then "-.inf".toList else ".inf".toList
  | .finite .. =>
    let cs := x.text
    if cs.contains '.' || !cs.contains 'e' then cs
    else cs.takeWhile (· ≠ 'e') ++ '.' :: '0' :: cs.dropWhile (· ≠ 'e')

def scalarNode? : Value → Option Node
  | .null => some (.scalar .null "null".toList)
  | .bool b => some (.scalar .bool (if b then "true".toList else "false".toList))
  | .int n => some (.scalar .int (integerText n))
  | .float x => some (.scalar .float (floatText x))
  | .str s => some (.scalar .str s.toList)
  | .timestamp t => some (.scalar .timestamp t.text)
  | _ => none

mutual

/-- The node of a key: a scalar, or a tuple. -/
def keyNode? : Value → Option Node
  | .tuple items => (keyNodes? items).map (.sequence .sequence)
  | v => scalarNode? v

def keyNodes? : List Value → Option (List Node)
  | [] => some []
  | item :: rest => do
    let node ← keyNode? item
    let nodes ← keyNodes? rest
    pure (node :: nodes)

end

/-- Orders entries by their keys; keys without an order stay as they are. -/
def orderEntries {α : Type} (sorted : Bool) (entries : List (Value × α)) : List (Value × α) :=
  if sorted then
    match sortBy (fun a b => Value.before a.1 b.1) entries with
    | .ok entries => entries
    | .error _ => entries
  else entries

mutual

/-- The node of a value, where `sorted` says whether entries of mappings are sorted by key. -/
def valueNode? (sorted : Bool) : Value → Option Node
  | .list items => (valueNodes? sorted items).map (.sequence .sequence)
  | .tuple items => (valueNodes? sorted items).map (.sequence .sequence)
  | .dict entries => do
    let ordered := orderEntries sorted (entryNodes sorted entries)
    let nodes ← ordered.mapM fun (key, value) => do
      let key ← keyNode? key
      let value ← value
      pure (key, value)
    pure (.mapping .mapping nodes)
  | v => scalarNode? v

/-- The nodes of the items of a sequence. -/
def valueNodes? (sorted : Bool) : List Value → Option (List Node)
  | [] => some []
  | item :: rest => do
    let node ← valueNode? sorted item
    let nodes ← valueNodes? sorted rest
    pure (node :: nodes)

/-- The values of a mapping as nodes, each with its key. -/
def entryNodes (sorted : Bool) : Entries → List (Value × Option Node)
  | [] => []
  | (key, value) :: rest => (key, valueNode? sorted value) :: entryNodes sorted rest

end

end Rulebook.Yaml
