import Rulebook.Dependency.Guard
import Rulebook.Fault

/-!
Error reports. Whoever uses the library, such as a compiler, reports errors in the kinds that the
library uses itself. The kinds form a tree, so that all errors of the schema, or all errors, can be
handled at once.
-/

namespace Rulebook

inductive ErrorKind where
  /-- Any error of the library. -/
  | any
  | schema
  | unknownType
  | malformedRecord
  | missingField
  | textCodec
  | compiler
  | dependency
deriving DecidableEq

namespace ErrorKind

/-- A kind and the kinds above it, up to the widest. -/
def ancestry : ErrorKind → List ErrorKind
  | any => [any]
  | schema => [schema, any]
  | unknownType => [unknownType, schema, any]
  | malformedRecord => [malformedRecord, schema, any]
  | missingField => [missingField, malformedRecord, schema, any]
  | textCodec => [textCodec, any]
  | compiler => [compiler, any]
  | dependency => [dependency, any]

/-- The fields that a report of a kind has to give. -/
def required : ErrorKind → List String
  | any | schema | malformedRecord | textCodec | compiler => ["message"]
  | unknownType => ["node_type"]
  | missingField => ["node_type", "field_name"]
  | dependency => ["component_name", "missing_packages"]

/-- The fields that a report of a kind may leave out. -/
def optional : ErrorKind → List String
  | any | schema => ["original_error"]
  | unknownType => ["message"]
  | malformedRecord => ["node_type", "field_name"]
  | missingField => []
  | textCodec => ["codec_name", "original_error"]
  | compiler => ["node", "original_error"]
  | dependency => ["version_mismatches", "install_command", "message", "original_import_error"]

end ErrorKind

/-- The kind of a fault of a record or a node. What an object fails with itself has none, and
neither has an unusable field. -/
def RecordFault.kind? : RecordFault → Option ErrorKind
  | .unknownType _ => some .unknownType
  | .missingType | .missingField .. => some .missingField
  | .exportFailed _ | .unusableField => none
  | _ => some .malformedRecord

/-- The kind of a fault of a pipeline. What a codec lets through, and an indentation beyond all
measure, are faults of no kind. -/
def Fault.kind? : Fault → Option ErrorKind
  | .record fault => fault.kind?
  | .jsonWriting .hugeIndent | .escaped .. => none
  | .jsonReading _ | .jsonWriting _ | .yamlReading _ | .yamlWriting _ => some .textCodec
  | .compiler .. => some .compiler

/-- An error with what is known of it. A cause is the text of another error. -/
inductive Report where
  | any (message : Value) (cause : Option String)
  | schema (message : Value) (cause : Option String)
  | unknownType (tag : Value) (message : Option Value)
  | malformedRecord (message type field : Value)
  | missingField (type field : Value)
  | textCodec (message codec : Value) (cause : Option String)
  | compiler (message tree : Value) (cause : Option String)
  | dependency (shortage : Shortage) (message : Option Value)

namespace Report

def kind : Report → ErrorKind
  | any .. => .any
  | schema .. => .schema
  | unknownType .. => .unknownType
  | malformedRecord .. => .malformedRecord
  | missingField .. => .missingField
  | textCodec .. => .textCodec
  | compiler .. => .compiler
  | dependency .. => .dependency

/-- The message of a report: the one that was given, or a sentence on what is known. -/
def message : Report → Value
  | any message _ | schema message _ | malformedRecord message _ _ | textCodec message _ _
  | compiler message _ _ => message
  | unknownType tag message => message.getD (.str s!"Unknown node type: {tag.quoted}")
  | missingField .null field => .str s!"Record is missing required field '{field.sentence}'"
  | missingField type field =>
    .str s!"Record of type '{type.sentence}' is missing required field '{field.sentence}'"
  | dependency shortage message => message.getD (.str shortage.message)

/-- The text of the error behind a report, if there is one. -/
def cause? : Report → Option String
  | any _ cause | schema _ cause | textCodec _ _ cause | compiler _ _ cause => cause
  | dependency shortage _ => shortage.importFailure
  | _ => none

/-- A field of a report, where null counts as none. -/
def field? (fields : List (String × Value)) (name : String) : Option Value :=
  match fields.lookup name with
  | some .null => none
  | found => found

/-- A field of a report, or null. -/
def field (fields : List (String × Value)) (name : String) : Value :=
  (fields.lookup name).getD .null

def text? (fields : List (String × Value)) (name : String) : Option String :=
  (field? fields name).map Value.sentence

def rows (fields : List (String × Value)) (name : String) : List (List String) :=
  (((field fields name).items?).getD []).map fun row => ((row.items?).getD []).map Value.sentence

def shortage (fields : List (String × Value)) : Shortage where
  component := (text? fields "component_name").getD ""
  missing := (rows fields "missing_packages").filterMap fun
    | [package, specifier] => some ⟨package, specifier⟩
    | _ => none
  mismatches := (rows fields "version_mismatches").filterMap fun
    | [package, specifier, installed] => some ⟨package, specifier, installed⟩
    | _ => none
  installCommand := (text? fields "install_command").getD ""
  importFailure := text? fields "original_import_error"

/-- The report of a kind with some fields. It needs its required fields, and has no others than
those of its kind. -/
def ofFields? (kind : ErrorKind) (fields : List (String × Value)) : Option Report :=
  let names := fields.map (·.1)
  if !kind.required.all names.contains || !names.all (kind.required ++ kind.optional).contains then
    none
  else
    let get := field fields
    let cause := text? fields "original_error"
    some <| match kind with
      | .any => any (get "message") cause
      | .schema => schema (get "message") cause
      | .unknownType => unknownType (get "node_type") (field? fields "message")
      | .malformedRecord => malformedRecord (get "message") (get "node_type") (get "field_name")
      | .missingField => missingField (get "node_type") (get "field_name")
      | .textCodec => textCodec (get "message") (get "codec_name") cause
      | .compiler => compiler (get "message") (get "node") cause
      | .dependency => dependency (shortage fields) (field? fields "message")

end Report
end Rulebook
