import Rulebook.Pipeline

/-!
Small compilers. They stand for the two things that compilers do to a loaded tree: wrap it into
rule objects or containers, and refuse it.
-/

namespace Rulebook.Compiler

/-- Leaves a tree as it is. -/
def identity : Compiler := .ok

/-- Wraps each tree of a list, or the one tree, into a rule object. -/
def rules : Compiler
  | .list trees => .ok (.list (trees.map .rule))
  | tree => .ok (.rule tree)

def box : Compiler := fun tree => .ok (.list [tree])

def tupleBox : Compiler := fun tree => .ok (.tuple [tree])

def twice : Compiler := fun tree => .ok (.list [tree, tree])

/-- Refuses every tree. -/
def refuse : Compiler := fun tree => .error (.compiler "unsupported rule" tree)

end Rulebook.Compiler
