import Rulebook.Value.Shown

/-!
What is wrong with a record or a node. Each fault is a cause with the parts that it concerns;
`RecordFault.message` is its wording.
-/

namespace Rulebook

/-- Why a record cannot be loaded, or a node cannot be written as a record. -/
inductive RecordFault where
  /-- A value of another kind stands where a record is loaded. -/
  | notMapping (kind : String)
  /-- Two keys have one canonical name. -/
  | sharedName (name : String)
  /-- A tag names no type of the schema. -/
  | unknownType (tag : Value)
  | missingType
  | missingField (type : String) (field : Value)
  /-- In strict mode, keys that the type does not declare: the first one, and the others. -/
  | undeclared (type first : String) (others : List String)
  | argumentsNotSequence (type kind : String)
  | argumentNotPair (type : String) (index : Nat) (entry : Value)
  | ruleNotRecord (type : String) (raw : Value)
  | rulesNotRecords (type : String) (raw : Value)
  /-- What is to be written as a record, or what an object exports, is no pair. -/
  | notPair (tree : Value)
  /-- A payload does not hold one value for each field. -/
  | payloadMismatch (type : String) (count : Nat) (fields : List String) (payload : Value)
  | rulesNotSequence (type kind : String)
  /-- An object fails to export its tree. -/
  | exportFailed (text : String)
  /-- A declared field cannot serve as a key, or not stand in a sentence. -/
  | unusableField

namespace RecordFault

/-- The names with commas between them. -/
def joined (names : List String) : String := String.intercalate ", " names

/-- The wording of a fault. An unusable field has none. -/
def message : RecordFault → String
  | notMapping kind => s!"Record must be a mapping, got {kind}"
  | sharedName name => s!"Record has more than one key spelled '{name}'"
  | unknownType tag => s!"Unknown node type: {tag.quoted}"
  | missingType => "Record is missing required field 'type'"
  | missingField type field =>
    s!"Record of type '{type}' is missing required field '{field.sentence}'"
  | undeclared type first others =>
    s!"Record of type '{type}' has undeclared fields: {joined (first :: others)}"
  | argumentsNotSequence type kind =>
    s!"Field 'args' of '{type}' must be a sequence of [name, value] pairs, got {kind}"
  | argumentNotPair type index entry =>
    s!"Argument {index} of '{type}' must be a [name, value] pair, got {entry.quoted}"
  | ruleNotRecord type raw =>
    s!"Field 'rule' of '{type}' must be a record, got {raw.quoted}"
  | rulesNotRecords type raw =>
    s!"Field 'rules' of '{type}' must be a list of records, got {raw.quoted}"
  | notPair tree => s!"Expected a (type, payload) AST pair, got {tree.quoted}"
  | payloadMismatch type count fields payload =>
    s!"Node of type '{type}' expects {count} payload values ({joined fields}), got {payload.quoted}"
  | rulesNotSequence type kind =>
    s!"Field 'rules' of '{type}' must be a sequence of nodes, got {kind}"
  | exportFailed text => text
  | unusableField => ""

/-- The type of the record or node that a fault concerns, if that is known. -/
def type? : RecordFault → Option String
  | missingField type _ | undeclared type .. | argumentsNotSequence type _
  | argumentNotPair type .. | ruleNotRecord type _ | rulesNotRecords type _
  | payloadMismatch type .. | rulesNotSequence type _ => some type
  | _ => none

/-- The field that a fault concerns, if that is known. -/
def field? : RecordFault → Option Value
  | sharedName name => some (.str name)
  | missingType => some (.str "type")
  | missingField _ field => some field
  | undeclared _ first _ => some (.str first)
  | argumentsNotSequence .. | argumentNotPair .. => some (.str "args")
  | ruleNotRecord .. => some (.str "rule")
  | rulesNotRecords .. | rulesNotSequence .. => some (.str "rules")
  | _ => none

end RecordFault
end Rulebook
