import Rulebook.Record.Fault

/-!
The outcome of loading: a result, and the warnings issued on the way to it, also on the way to a
fault.
-/

namespace Rulebook

/-- Keys that a record of a type carries and its type does not declare. -/
structure Warning where
  names : List String
  type : String

/-- The wording of a warning. -/
def Warning.message (w : Warning) : String :=
  let names := (Value.list (w.names.map .str)).quoted
  s!"Ignoring undeclared fields {names} in record of type '{w.type}'"

/-- A result or a fault, with the warnings issued before it. -/
structure Loading (ε α : Type) where
  warnings : List Warning
  result : Except ε α

namespace Loading

variable {ε ε' α β : Type}

/-- Goes on with a result; the warnings add up, and a fault ends the loading. -/
protected def bind (x : Loading ε α) (f : α → Loading ε β) : Loading ε β :=
  match x.result with
  | .ok a => ⟨x.warnings ++ (f a).warnings, (f a).result⟩
  | .error fault => ⟨x.warnings, .error fault⟩

instance : Monad (Loading ε) where
  pure a := ⟨[], .ok a⟩
  bind := Loading.bind

/-- An outcome that issues no warning. -/
def quiet (result : Except ε α) : Loading ε α := ⟨[], result⟩

/-- Fails without a warning. -/
def fail (fault : ε) : Loading ε α := quiet (.error fault)

/-- Issues a warning. -/
def warn (w : Warning) : Loading ε Unit := ⟨[w], .ok ()⟩

/-- Tells the fault in other terms. -/
def mapFault (f : ε → ε') (x : Loading ε α) : Loading ε' α :=
  ⟨x.warnings, x.result.mapError f⟩

/-- All results in order, up to the first fault. -/
def all : List (Loading ε α) → Loading ε (List α)
  | [] => pure []
  | x :: rest => do
    let a ← x
    let as ← all rest
    pure (a :: as)

end Loading
end Rulebook
