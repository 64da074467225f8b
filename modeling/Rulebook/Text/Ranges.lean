/-!
Tables of code points. A class of characters is a list of closed ranges, and a simple case mapping
is a list of runs that shift their code points by one distance.
-/

namespace Rulebook.Text

/-- Whether `n` lies in one of the closed ranges. -/
def inRanges (ranges : List (Nat × Nat)) (n : Nat) : Bool :=
  ranges.any fun (first, last) => first ≤ n && n ≤ last

/-- The code points `first`, `first + step`, … up to `last`; the first maps to `target`, and the
others keep their distance to it. -/
structure CaseRun where
  first : Nat
  last : Nat
  step : Nat
  target : Nat

/-- Whether the run maps `n`. -/
def CaseRun.covers (r : CaseRun) (n : Nat) : Bool :=
  r.first ≤ n && n ≤ r.last && (n - r.first) % r.step == 0

/-- The image of `n` under a table of runs; what no run covers stays as it is. -/
def mapped (runs : List CaseRun) (n : Nat) : Nat :=
  match runs.find? (·.covers n) with
  | some r => r.target + (n - r.first)
  | none => n

end Rulebook.Text
