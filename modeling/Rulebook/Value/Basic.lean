import Rulebook.Value.Timestamp

/-!
Values. Records, nodes and decoded texts are all values: plain data, the `undefined` token, nodes
of a rule tree, and objects that a program passes in. `Value.exported?` is the one capability an
object can have: it stands for a node that it hands out.
-/

namespace Rulebook

/-- A value of a record, a rule tree or a decoded text. -/
inductive Value where
  | null
  | bool (b : Bool)
  | int (n : Int)
  | float (x : Binary64)
  | str (s : String)
  | bytes (octets : List UInt8)
  | list (items : List Value)
  | tuple (items : List Value)
  /-- A mapping, in the order of its entries. -/
  | dict (entries : List (Value × Value))
  | set (members : List Value)
  | timestamp (t : Timestamp)
  /-- The token that stands for no value. -/
  | undefined
  /-- A node of a rule tree; it counts as a tuple of its tag and its payload. -/
  | node (tag payload : Value)
  /-- A rule object, which exports a tree. -/
  | rule (ast : Value)
  /-- A rule object whose export fails with a text. -/
  | brokenRule (text : String)
  /-- A named constant for a value; the constant for a text is a text as well. -/
  | member (value : Value)
  /-- A named constant for a text that is itself no text. -/
  | constant (text : String)
  /-- An object without any capability. -/
  | inert
deriving Inhabited

/-- The entries of a mapping. -/
abbrev Entries := List (Value × Value)

namespace Value

/-- The name of a value's kind, as messages give it. -/
def kind : Value → String
  | null => "NoneType"
  | bool _ => "bool"
  | int _ => "int"
  | float _ => "float"
  | str _ => "str"
  | bytes _ => "bytes"
  | list _ => "list"
  | tuple _ => "tuple"
  | dict _ => "dict"
  | set _ => "set"
  | timestamp (.day _) => "date"
  | timestamp (.moment _) => "datetime"
  | undefined => "UndefinedType"
  | node .. => "Node"
  | rule _ => "Rule"
  | brokenRule _ => "BrokenRule"
  | member _ | constant _ => "Tag"
  | inert => "Opaque"

/-- The text of a value that is a text: a string, or the constant for one. -/
def text? : Value → Option String
  | str s | member (str s) => some s
  | _ => none

/-- The items of a sequence: a list, a tuple, or a node as its tag and payload. -/
def items? : Value → Option (List Value)
  | list items | tuple items => some items
  | node tag payload => some [tag, payload]
  | _ => none

/-- The items of a tuple, or of a node as a tuple. -/
def tupleItems? : Value → Option (List Value)
  | tuple items => some items
  | node tag payload => some [tag, payload]
  | _ => none

def isNode : Value → Bool
  | node .. => true
  | _ => false

/-- Whether a value is a mapping. -/
def isDict : Value → Bool
  | dict _ => true
  | _ => false

/-- Whether a value exports a tree. A node exports itself. -/
def exportsTree : Value → Bool
  | node .. | rule _ | brokenRule _ => true
  | _ => false

/-- Whether a value is true as a condition: numbers other than zero, texts and containers that are
not empty, and every object but the token for no value. -/
def isTrue : Value → Bool
  | null | undefined => false
  | bool b => b
  | int n => n != 0
  | float x => x.order? (.ofRank false 0) != some .eq
  | str s | member (str s) => !s.isEmpty
  | bytes octets => !octets.isEmpty
  | list items | tuple items | set items => !items.isEmpty
  | dict entries => !entries.isEmpty
  | _ => true

mutual

/-- Whether a value can be the key of a mapping. -/
def isKey : Value → Bool
  | list _ | dict _ | set _ | rule _ => false
  | tuple items => areKeys items
  | node tag payload => isKey tag && isKey payload
  | _ => true

/-- Whether all values can be keys. -/
def areKeys : List Value → Bool
  | [] => true
  | item :: rest => isKey item && areKeys rest

end

/-- What a value is made of when it is gone through one by one: items, keys, members, characters or
octets. -/
def elements? : Value → Option (List Value)
  | list items | tuple items | set items => some items
  | node tag payload => some [tag, payload]
  | dict entries => some (entries.map (·.1))
  | str s | member (str s) => some (s.toList.map fun c => str (String.singleton c))
  | bytes octets => some (octets.map fun b => int b.toNat)
  | _ => none

end Value
end Rulebook
