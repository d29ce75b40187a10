/-
  Lifetimes: how long an instance lives and who shares it.
-/

namespace ObjectGraph

/-- Reuse policy of the instances made from a binding, from the shortest life to the longest. -/
inductive Lifetime where
  /-- A new instance for each use. -/
  | transient
  /-- One instance for each block of a plan. -/
  | perBlock
  /-- One instance for each root. -/
  | perResolve
  /-- One instance for each root, kept in storage of the composition. -/
  | scoped
  /-- One instance for the whole composition. -/
  | singleton
  deriving DecidableEq, Inhabited

namespace Lifetime

/-- Singletons and scoped instances live in storage of the composition. -/
def isCompositionWide : Lifetime → Bool
  | .singleton | .scoped => true
  | _ => false

/-- Lifetimes of which several requests share one instance. -/
def isShared : Lifetime → Bool
  | .singleton | .scoped | .perResolve => true
  | _ => false

/-- The name of a lifetime in messages. -/
def text : Lifetime → String
  | .transient => "Transient"
  | .perBlock => "PerBlock"
  | .perResolve => "PerResolve"
  | .scoped => "Scoped"
  | .singleton => "Singleton"

instance : ToString Lifetime := ⟨text⟩

end Lifetime

end ObjectGraph
