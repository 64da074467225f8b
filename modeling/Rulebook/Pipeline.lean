import Rulebook.Fault
import Rulebook.Options
import Rulebook.Record.Load
import Rulebook.Record.Build

/-!
Pipelines. A pipeline reads a text, loads the records in it and compiles the trees to rules; the
other way it builds records from rules and writes them. A list of one counts as its item.
-/

namespace Rulebook

/-- Turns records into text and back. -/
structure TextCodec where
  name : String
  encode : Value → Except Fault String
  decode : Value → Except Fault Value

def Json.Codec.textCodec (c : Json.Codec) : TextCodec where
  name := "json"
  encode v := (c.encode v).mapError .jsonWriting
  decode v := (c.decode v).mapError .jsonReading

/-- A sequence of one item, unless it is a node, is its item. -/
def Value.unsplat : Value → Value
  | .list [item] | .tuple [item] => item
  | v => v

/-- Turns loaded trees into rules. -/
abbrev Compiler := Value → Except Fault Value

/-- A pipeline between texts and rules. -/
structure Pipeline where
  options : Options := {}
  codec : TextCodec := options.jsonCodec.textCodec
  compile : Compiler := .ok
  schema : Schema := .rules

namespace Pipeline

abbrev Step := Loading Fault Value

/-- Runs stages one after another, each on the result of the one before. -/
def chain (stages : List (Value → Step)) (v : Value) : Step :=
  stages.foldlM (fun v stage => stage v) v

/-- Loads a decoded value. -/
def normalize (p : Pipeline) (v : Value) : Step :=
  (Record.load p.schema p.options.strictMode.isTrue v).mapFault .record

/-- Loads a decoded value, where a list of one stands for its item. -/
def deserializer (p : Pipeline) (v : Value) : Step := do
  let tree ← p.normalize v
  pure tree.unsplat

/-- Loads records. -/
def deserialize (p : Pipeline) (records : List Value) : Step := p.deserializer (.list records)

/-- Reads a text, loads what it holds and compiles it. -/
def load (p : Pipeline) (text : Value) : Step := do
  let decoded ← .quiet (p.codec.decode text)
  let tree ← p.normalize decoded
  let rules ← .quiet (p.compile tree)
  pure rules.unsplat

/-- Builds the record of a rule, or the records of several. A sequence that can stand for one node
is one. -/
def serialize (p : Pipeline) (v : Value) : Except Fault Value :=
  let records : Except RecordFault Value :=
    match v.items? with
    | some items =>
      if v.isNodeLike then Record.ofNode p.schema v
      else (items.mapM (Record.ofNode p.schema)).map .list
    | none => Record.ofNode p.schema v
  records.mapError .record

/-- Builds records and writes them. -/
def dump (p : Pipeline) (v : Value) : Except Fault String := do
  let records ← p.serialize v
  p.codec.encode records

/-- A pipeline as messages show it, given how they show its compiler and its codec. -/
def shown (p : Pipeline) (compiler codec : String) : String :=
  s!"Serialization(compiler={compiler}, codec={codec}, options={p.options.shown})"

end Pipeline
end Rulebook
