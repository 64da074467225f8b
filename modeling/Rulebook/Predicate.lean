import Rulebook.Value.Basic

/-!
Building predicates, the nodes that carry arguments.
-/

namespace Rulebook.Value

/-- A predicate of a name and its arguments, each gone through to a tuple; `none` if one of them
cannot be gone through. -/
def predicate? (name : Value) (arguments : List Value) : Option Value :=
  (arguments.mapM Value.elements?).map fun entries =>
    node (str "predicate") (tuple [name, list (entries.map tuple)])

end Rulebook.Value
