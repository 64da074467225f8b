import Rulebook.Json.Token
import Rulebook.Number.Numeral
import Rulebook.Value.Equality

/-!
Reading JSON. The tokens of a text drive a machine whose state says what is expected next, with the
lists and objects that are still open. Members of one name become one entry, which keeps the first
place and takes the last value. There may be a limit on the digits of integers. A string that is no
text is told at the end, so that a flaw of the text comes first.
-/

namespace Rulebook.Json

/-- A list or an object that is still open. -/
inductive Frame where
  /-- A list, with its items so far in reverse. -/
  | list (before : List Value)
  /-- An object, with the name whose value is being read. -/
  | object (before : Entries) (name : String)

/-- What is expected next, inside the open frames, innermost first. -/
inductive State where
  | value (frames : List Frame)
  /-- The first item of a list, or its end. -/
  | firstItem (frames : List Frame)
  /-- The first name of an object, or its end. -/
  | firstName (frames : List Frame)
  | name (before : Entries) (frames : List Frame)
  | colon (before : Entries) (name : String) (frames : List Frame)
  /-- A value is complete. -/
  | complete (v : Value) (frames : List Frame)
  /-- Some string has been no text; another text stands in its place. -/
  | halved (s : State)

/-- Why a scalar is no value, if it is an integer that has more digits than the limit. -/
def longInteger? (limit : Option Nat) : Value → Option Problem
  | .int n => (exceeded? limit n).map fun limit => .longInteger limit (Nat.toDigits 10 n.natAbs).length
  | _ => none

def startValue (limit : Option Nat) (frames : List Frame) (offset : Nat) :
    Token → Except Flaw State
  | .scalar v =>
    match longInteger? limit v with
    | some problem => .error ⟨problem, offset⟩
    | none => .ok (.complete v frames)
  | .string s => .ok (.complete (.str s) frames)
  | .halved => .ok (.halved (.complete (.str "") frames))
  | .badString flaw => .error flaw
  | .mark '[' => .ok (.firstItem frames)
  | .mark '\x7b' => .ok (.firstName frames)
  | _ => .error ⟨.expectedValue, offset⟩

def startName (before : Entries) (frames : List Frame) (offset : Nat) : Token → Except Flaw State
  | .string s => .ok (.colon before s frames)
  | .halved => .ok (.halved (.colon before "" frames))
  | .badString flaw => .error flaw
  | _ => .error ⟨.expectedName, offset⟩

/-- A value has been completed, and the token behind it ends it or goes on. -/
def closeValue (v : Value) (offset : Nat) : List Frame → Token → Except Flaw State
  | [], _ => .error ⟨.extraData, offset⟩
  | .list before :: frames, .mark ',' => .ok (.value (.list (v :: before) :: frames))
  | .list before :: frames, .mark ']' => .ok (.complete (.list (v :: before).reverse) frames)
  | .object before name :: frames, .mark ',' => .ok (.name (before.insert (.str name) v) frames)
  | .object before name :: frames, .mark '\x7d' =>
    .ok (.complete (.dict (before.insert (.str name) v)) frames)
  | _, _ => .error ⟨.expectedComma, offset⟩

def step (limit : Option Nat) (s : State) (t : Nat × Token) : Except Flaw State :=
  match s, t with
  | .value frames, (offset, t) => startValue limit frames offset t
  | .firstItem frames, (_, .mark ']') => .ok (.complete (.list []) frames)
  | .firstItem frames, (offset, t) => startValue limit (.list [] :: frames) offset t
  | .firstName frames, (_, .mark '\x7d') => .ok (.complete (.dict []) frames)
  | .firstName frames, (offset, t) => startName [] frames offset t
  | .name before frames, (offset, t) => startName before frames offset t
  | .colon before name frames, (_, .mark ':') => .ok (.value (.object before name :: frames))
  | .colon _ _ _, (offset, _) => .error ⟨.expectedColon, offset⟩
  | .complete v frames, (offset, t) => closeValue v offset frames t
  | .halved s, t => (step limit s t).map .halved

/-- The value that has been read when a text ends at an offset. -/
def finish (offset : Nat) : State → Except Flaw Value
  | .complete v [] => .ok v
  | .complete _ (_ :: _) => .error ⟨.expectedComma, offset⟩
  | .value _ | .firstItem _ => .error ⟨.expectedValue, offset⟩
  | .firstName _ | .name .. => .error ⟨.expectedName, offset⟩
  | .colon .. => .error ⟨.expectedColon, offset⟩
  | .halved s =>
    match finish offset s with
    | .ok _ => .error ⟨.loneHalf, 0⟩
    | .error flaw => .error flaw

/-- Reads a text, which holds one value with blanks around it. -/
def read (limit : Option Nat) (text : List Char) : Except Flaw Value := do
  let state ← (scan text).foldlM (step limit) (.value [])
  finish text.length state

/-- Reads a text that must not start with a byte order mark. -/
def readUnmarked (limit : Option Nat) (text : List Char) : Except Flaw Value :=
  if text.head? = some '\uFEFF' then .error ⟨.byteOrderMark, 0⟩ else read limit text

end Rulebook.Json
