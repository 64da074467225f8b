import Rulebook.Record.Loading
import Rulebook.Value.Part
import Rulebook.Schema

/-!
Loading records. `load` turns decoded values into the values of a rule tree: a record becomes a
node, the empty mapping and the text `Undefined` become the `undefined` token, and sequences are
gone through. In strict mode a key that the type of its record does not declare is a fault; else
it is ignored with a warning, and its value is never looked at.
-/

namespace Rulebook

/-- The text that stands for the `undefined` token. -/
def undefinedText : String := "Undefined"

/-- The outcome of loading a record or a part of one. -/
abbrev RecordLoading (α : Type) := Loading RecordFault α

/-- A value with the outcome of loading it, and its parts. -/
abbrev Loaded := Part (RecordLoading Value)

namespace Record

/-- The entries of a record under their canonical names, which must be distinct. -/
def namedEntries : List (Value × Loaded) → List (String × Loaded) →
    Except RecordFault (List (String × Loaded))
  | [], named => .ok named
  | (key, value) :: rest, named =>
    if (named.lookup key.name).isSome then .error (.sharedName key.name)
    else namedEntries rest (named ++ [(key.name, value)])

def isDeclared (fields : List Value) (name : String) : Bool :=
  fields.any fun field => field.text? == some name

def given? (named : List (String × Loaded)) (field : Value) : Option Loaded :=
  field.text?.bind fun name => named.lookup name

/-- Loads the argument list of a predicate: pairs of a name, kept as it is, and a value. -/
def loadArguments (type : String) : Nat → List Loaded → RecordLoading (List Value)
  | _, [] => pure []
  | index, entry :: rest =>
    match entry.value.items?, entry.items with
    | some _, [name, argument] => do
      let value ← argument.made
      let values ← loadArguments type (index + 1) rest
      pure (.tuple [name.value, value] :: values)
    | _, _ => Loading.fail (.argumentNotPair type index entry.value)

def isNodeSequence (v : Value) : Bool :=
  match v.items? with
  | some items => items.all Value.isNode
  | none => false

/-- Loads the value of a field. Arguments are pairs, `rule` is a node, `rules` are nodes; any other
field takes every value. -/
def loadField (type : String) (field : Value) (raw : Loaded) : RecordLoading Value :=
  if field.text? = some "args" then
    match raw.value.items? with
    | some _ => do
      let pairs ← loadArguments type 0 raw.items
      pure (.list pairs)
    | none => Loading.fail (.argumentsNotSequence type raw.value.kind)
  else do
    let value ← raw.made
    if field.text? = some "rule" ∧ !value.isNode then
      Loading.fail (.ruleNotRecord type raw.value)
    else if field.text? = some "rules" ∧ !isNodeSequence value then
      Loading.fail (.rulesNotRecords type raw.value)
    else pure value

/-- Loads the declared fields in order. -/
def loadFields (type : String) (named : List (String × Loaded)) :
    List Value → RecordLoading (List Value)
  | [] => pure []
  | field :: rest =>
    if !field.isKey then Loading.fail .unusableField
    else
      match given? named field with
      | none => Loading.fail (.missingField type field)
      | some raw => do
        let value ← loadField type field raw
        let values ← loadFields type named rest
        pure (value :: values)

/-- The payload of a node: the bare value of a single field, else a tuple of all values. -/
def payload : List Value → Value
  | [value] => value
  | values => .tuple values

/-- Deals with the keys that a type does not declare. -/
def checkUndeclared (strict : Bool) (type : String) : List String → RecordLoading Unit
  | [] => pure ()
  | first :: others =>
    if strict then Loading.fail (.undeclared type first others)
    else Loading.warn ⟨first :: others, type⟩

/-- Loads a record whose entries are loaded already: names, type, undeclared keys and fields are
looked at in this order. -/
def loadRecord (schema : Schema) (strict : Bool) (entries : List (Value × Loaded)) :
    RecordLoading Value :=
  match namedEntries entries [] with
  | .error fault => Loading.fail fault
  | .ok named =>
    match named.lookup "type" with
    | none => Loading.fail .missingType
    | some tag =>
      match schema.fields? tag.value with
      | none => Loading.fail (.unknownType tag.value)
      | some fields => do
        let type := tag.value.name
        let rest := named.filter (·.1 != "type")
        checkUndeclared strict type ((rest.map (·.1)).filter fun name => !isDeclared fields name)
        let values ← loadFields type rest fields
        pure (.node (.str type) (payload values))

/-- The outcome of loading a value whose parts are loaded already. -/
def loadPart (schema : Schema) (strict : Bool) (v : Value) (items : List Loaded)
    (entries : List (Value × Loaded)) : RecordLoading Value :=
  match v with
  | .dict _ => if entries.isEmpty then pure .undefined else loadRecord schema strict entries
  | .list _ => do
    let values ← Loading.all (items.map Part.made)
    pure (.list values)
  | .tuple _ => do
    let values ← Loading.all (items.map Part.made)
    pure (.tuple values)
  | v => pure (if v.text? = some undefinedText then .undefined else v)

/-- Every part of a value with the outcome of loading it. -/
def loaded (schema : Schema) (strict : Bool) : Value → Loaded :=
  Part.of (loadPart schema strict)

def load (schema : Schema) (strict : Bool) (v : Value) : RecordLoading Value :=
  (loaded schema strict v).made

/-- Loads a value that has to be a record, also the empty one. -/
def toNode (schema : Schema) (strict : Bool) (v : Value) : RecordLoading Value :=
  if v.isDict then loadRecord schema strict (loaded schema strict v).entries
  else Loading.fail (.notMapping v.kind)

end Record
end Rulebook
