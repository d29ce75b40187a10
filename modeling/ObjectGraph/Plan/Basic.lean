import ObjectGraph.Plan.Arena
import ObjectGraph.Plan.Step

/-
  Plans: in which order the instances that a root needs are made.

  A plan is a list of blocks, and a block is a list of instantiations that make one variable, the
  root of the block.
-/

namespace ObjectGraph

/-- A variable handed to an instantiation for one of its slots. -/
structure Supply where
  /-- The number of the slot. -/
  slot : Nat
  /-- What the slot requests. -/
  request : Request
  /-- The variable. -/
  var : VariableId
  deriving DecidableEq, Inhabited

/-- Makes one variable from others. -/
structure Instantiation where
  /-- The variable that is made. -/
  target : VariableId
  /-- The variables handed in, by slot. -/
  supplies : List Supply
  deriving DecidableEq, Inhabited

/-- The variable handed in for a slot; the first one counts. -/
def Instantiation.supplied? (i : Instantiation) (slot : Nat) : Option VariableId :=
  (i.supplies.find? (·.slot == slot)).map (·.var)

/-- Instantiations that together make one variable. -/
structure Block where
  /-- The variable that the block makes. -/
  root : VariableId
  /-- The instantiations in order. -/
  instantiations : List Instantiation
  /-- What the generated code has to do around them; nothing until the plan is annotated. -/
  steps : List Step := []
  deriving DecidableEq, Inhabited

/-- The blocks that make what a root needs. -/
structure Plan where
  /-- The name of the root. -/
  name : String
  /-- The variable of the root. -/
  var : VariableId
  /-- The blocks in order; the last one makes the variable of the root. -/
  blocks : List Block
  deriving DecidableEq, Inhabited

end ObjectGraph
