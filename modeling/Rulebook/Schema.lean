import Rulebook.Name
import Rulebook.Value.Equality

/-!
Schemas. A schema declares, for each type of node, the fields of its records in order. Types are
kept under their canonical names; fields stay as they were declared.
-/

namespace Rulebook

/-- The fields that each type of node declares. -/
structure Schema where
  table : List (String × List Value)

namespace Schema

/-- Declares a type; a later declaration replaces the fields and keeps the place. -/
def declare (name : String) (fields : List Value) :
    List (String × List Value) → List (String × List Value)
  | [] => [(name, fields)]
  | (name', fields') :: rest =>
    if name' = name then (name', fields) :: rest
    else (name', fields') :: declare name fields rest

/-- The schema of a table that gives the fields of each type as something to go through; `none` if
one of them cannot be gone through. -/
def ofTable? (entries : Entries) : Option Schema :=
  let declareEntry (table : List (String × List Value)) (entry : Value × Value) :=
    entry.2.elements?.map fun fields => declare entry.1.name fields table
  (entries.foldlM declareEntry []).map Schema.mk

/-- The fields declared for the type of a tag, in any spelling. -/
def fields? (s : Schema) (tag : Value) : Option (List Value) := s.table.lookup tag.name

/-- The types of a schema, in the order of their declaration. -/
def types (s : Schema) : List String := s.table.map (·.1)

/-- Whether a tag names a type of the schema. -/
def declares (s : Schema) (tag : Value) : Bool := (s.fields? tag).isSome

/-- The table as a mapping from type names to tuples of fields. -/
def toValue (s : Schema) : Value :=
  .dict (s.table.map fun (name, fields) => (.str name, .tuple fields))

/-- A schema as messages show it. -/
def shown (s : Schema) : String := s!"NodeSchema({s.toValue.quoted})"

/-- The schema of rule expressions. -/
def rules : Schema :=
  let declared (name : String) (fields : List String) := (name, fields.map Value.str)
  ⟨[declared "and" ["left", "right"],
    declared "attr" ["path", "rule"],
    declared "check" ["keys", "rule"],
    declared "each" ["rule"],
    declared "implication" ["left", "right"],
    declared "key" ["path", "rule"],
    declared "negation" ["rule"],
    declared "or" ["left", "right"],
    declared "set" ["rules"],
    declared "xor" ["rules"],
    declared "predicate" ["name", "args"]]⟩

end Schema
end Rulebook
