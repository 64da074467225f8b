import Rulebook.Value.Basic

/-!
Going through a value from the inside out. `Part.of make v` pairs every part of `v` with what
`make` makes of it, given the parts inside; functions on nested values are then plain functions on
one level. The statements say that the parts of a value are the parts of its items.
-/

namespace Rulebook

/-- A value with what has been made of it, and the parts inside: the items of a sequence, the tag
and payload of a node, the tree of a rule object, the entries of a mapping. -/
inductive Part (α : Type) where
  | mk (value : Value) (made : α) (items : List (Part α)) (entries : List (Value × Part α))

namespace Part

variable {α : Type}

/-- The value that was gone through. -/
def value : Part α → Value
  | mk value .. => value

/-- What was made of it. -/
def made : Part α → α
  | mk _ made .. => made

/-- The parts inside, in order. -/
def items : Part α → List (Part α)
  | mk _ _ items _ => items

/-- The entries of a mapping, with the values as parts. -/
def entries : Part α → List (Value × Part α)
  | mk _ _ _ entries => entries

/-- The part of a value whose inner parts are known. -/
def join (make : Value → List (Part α) → List (Value × Part α) → α) (v : Value)
    (items : List (Part α)) (entries : List (Value × Part α)) : Part α :=
  mk v (make v items entries) items entries

mutual

/-- A value with what `make` makes of it and of every part inside. -/
def of (make : Value → List (Part α) → List (Value × Part α) → α) : Value → Part α
  | .list items => join make (.list items) (ofItems make items) []
  | .tuple items => join make (.tuple items) (ofItems make items) []
  | .node tag payload => join make (.node tag payload) [of make tag, of make payload] []
  | .rule ast => join make (.rule ast) [of make ast] []
  | .dict entries => join make (.dict entries) [] (ofEntries make entries)
  | v => join make v [] []

def ofItems (make : Value → List (Part α) → List (Value × Part α) → α) :
    List Value → List (Part α)
  | [] => []
  | item :: rest => of make item :: ofItems make rest

def ofEntries (make : Value → List (Part α) → List (Value × Part α) → α) :
    Entries → List (Value × Part α)
  | [] => []
  | (key, value) :: rest => (key, of make value) :: ofEntries make rest

end

theorem ofItems_eq_map (make : Value → List (Part α) → List (Value × Part α) → α)
    (items : List Value) : ofItems make items = items.map (of make) := by
  induction items with
  | nil => rfl
  | cons item rest ih => simp [ofItems, ih]

theorem ofEntries_eq_map (make : Value → List (Part α) → List (Value × Part α) → α)
    (entries : Entries) :
    ofEntries make entries = entries.map fun (key, value) => (key, of make value) := by
  induction entries with
  | nil => rfl
  | cons entry rest ih => simp [ofEntries, ih]

@[simp] theorem value_of (make : Value → List (Part α) → List (Value × Part α) → α) (v : Value) :
    (of make v).value = v := by
  cases v <;> rfl

theorem made_of (make : Value → List (Part α) → List (Value × Part α) → α) (v : Value) :
    (of make v).made = make v (of make v).items (of make v).entries := by
  cases v <;> rfl

/-- The parts of a sequence are those of its items. -/
theorem items_of (make : Value → List (Part α) → List (Value × Part α) → α) (v : Value)
    (items : List Value) (h : v.items? = some items) : (of make v).items = items.map (of make) := by
  unfold Value.items? at h
  split at h
  · obtain rfl := Option.some.inj h
    exact ofItems_eq_map make _
  · obtain rfl := Option.some.inj h
    exact ofItems_eq_map make _
  · obtain rfl := Option.some.inj h
    rfl
  · cases h

end Part
end Rulebook
