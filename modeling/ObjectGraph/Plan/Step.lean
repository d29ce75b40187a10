import ObjectGraph.Plan.Arena

/-
  Steps: what the generated code does around the instantiations of a block.
-/

namespace ObjectGraph

/-- A step of the generated code for a block. -/
inductive Step where
  /-- Leave the block if its storage is filled already. -/
  | checkCreated
  /-- Enter the lock. -/
  | acquireLock
  /-- Check the storage again inside the lock. -/
  | recheckCreated
  /-- Run the instantiations. -/
  | construct
  /-- Add a variable to the accumulator at an index. -/
  | accumulate (accumulator : Nat) (var : VariableId)
  /-- Put the created value into its storage. -/
  | publish
  /-- Leave the lock. -/
  | releaseLock
  deriving DecidableEq, Inhabited

/-- The text of a step in the journal. -/
def Step.text : Step → String
  | checkCreated => "CheckCreated"
  | acquireLock => "AcquireLock"
  | recheckCreated => "RecheckCreated"
  | construct => "Construct"
  | accumulate accumulator var =>
    s!"Accumulate \x7b accumulator: {accumulator}, variable: VariableId({var}) \x7d"
  | publish => "Publish"
  | releaseLock => "ReleaseLock"

end ObjectGraph
