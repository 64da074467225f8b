import Rulebook.Record.Fault
import Rulebook.Value.Part
import Rulebook.Schema

/-!
Building records. `ofNode` writes a node as a mapping: its type, then its fields in the order of
the schema. A node is a value that exports a tree, or a bare pair of a tag and a payload. Nodes
inside become records where the field is `rule` or `rules`, and else where they export a tree and
are the value of a field or of an argument.
-/

namespace Rulebook

/-- A value with the record that it stands for as a node, and its parts. -/
abbrev Built := Part (Except RecordFault Value)

/-- Whether a value can stand for one node rather than for several: it exports a tree, or it is a
pair whose first item is a text. -/
def Value.isNodeLike (v : Value) : Bool :=
  v.exportsTree ||
    match v.items? with
    | some [tag, _] => tag.text?.isSome
    | _ => false

namespace Record

/-- Whether the payload of a single field is wrapped into a sequence of one. For `rules` the inner
value must itself be a sequence and no node, since one bare rule is a sequence of one as well. -/
def isWrapped (field payload : Value) : Bool :=
  match payload with
  | .list [inner] | .tuple [inner] =>
    if field.text? = some "rules" then inner.items?.isSome && !inner.isNodeLike else true
  | _ => false

/-- The parts of a payload that belong to the fields of a type, one for each. -/
def fieldParts (type : String) (fields : List Value) (payload : Built) :
    Except RecordFault (List Built) :=
  match fields with
  | [field] => .ok (if isWrapped field payload.value then payload.items else [payload])
  | _ =>
    if payload.value.items?.isSome ∧ payload.items.length = fields.length then .ok payload.items
    else
      match fields.mapM Value.text? with
      | some names => .error (.payloadMismatch type fields.length names payload.value)
      | none => .error .unusableField

/-- An argument as it stands in a record: the value of a pair becomes a record if it exports a
tree. -/
def argument (entry : Built) : Except RecordFault Value :=
  match entry.value.items?, entry.items with
  | some _, [name, value] =>
    if value.value.exportsTree then value.made.map fun record => .tuple [name.value, record]
    else .ok entry.value
  | _, _ => .ok entry.value

def fieldValue (type : String) (field : Value) (part : Built) : Except RecordFault Value :=
  if field.text? = some "rule" then part.made
  else if field.text? = some "rules" then
    match part.value.items? with
    | some _ => (part.items.mapM Part.made).map .list
    | none => .error (.rulesNotSequence type part.value.kind)
  else if field.text? = some "args" ∧ part.value.items?.isSome then
    (part.items.mapM argument).map .list
  else if part.value.exportsTree then part.made
  else .ok part.value

def addFields (type : String) : List (Value × Built) → Entries → Except RecordFault Entries
  | [], record => .ok record
  | (field, part) :: rest, record => do
    let value ← fieldValue type field part
    if field.isKey then addFields type rest (record.insert field value)
    else .error .unusableField

def ofPair (schema : Schema) (tag : Value) (payload : Built) : Except RecordFault Value :=
  match schema.fields? tag with
  | none => .error (.unknownType tag)
  | some fields => do
    let parts ← fieldParts tag.name fields payload
    let record ← addFields tag.name (fields.zip parts) [(.str "type", .str tag.name)]
    pure (.dict record)

/-- The record of a tree that must be a pair. -/
def ofTree (schema : Schema) (tree : Value) (items : List Built) : Except RecordFault Value :=
  match tree.items?, items with
  | some _, [tag, payload] => ofPair schema tag.value payload
  | _, _ => .error (.notPair tree)

def buildPart (schema : Schema) (v : Value) (items : List Built) (_ : List (Value × Built)) :
    Except RecordFault Value :=
  match v, items with
  | .rule _, [tree] => ofTree schema tree.value tree.items
  | .brokenRule text, _ => .error (.exportFailed text)
  | v, items => ofTree schema v items

def built (schema : Schema) : Value → Built := Part.of (buildPart schema)

def ofNode (schema : Schema) (v : Value) : Except RecordFault Value := (built schema v).made

end Record
end Rulebook
