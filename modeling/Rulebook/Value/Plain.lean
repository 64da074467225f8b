import Rulebook.Value.Basic

/-!
Plain values. A text knows neither tuples nor the token for no value: a plain value has lists for
sequences of every kind, and the written form of the token, wherever a value stands. The keys of
mappings stay as they are.
-/

namespace Rulebook

mutual

/-- A value with sequences as lists, and with the token for no value in its written form. -/
def plain (emptyObject : Bool) : Value → Value
  | .list items => .list (plainItems emptyObject items)
  | .tuple items => .list (plainItems emptyObject items)
  | .node tag payload => .list [plain emptyObject tag, plain emptyObject payload]
  | .dict entries => .dict (plainEntries emptyObject entries)
  | .undefined => if emptyObject then .dict [] else .str "Undefined"
  | v => v

def plainItems (emptyObject : Bool) : List Value → List Value
  | [] => []
  | item :: rest => plain emptyObject item :: plainItems emptyObject rest

def plainEntries (emptyObject : Bool) : Entries → Entries
  | [] => []
  | (key, v) :: rest => (key, plain emptyObject v) :: plainEntries emptyObject rest

end

end Rulebook
