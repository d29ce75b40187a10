import ObjectGraph.Plan.Basic

/-
  The order of the blocks of a plan.

  A block requires the blocks that make what its instantiations are handed.  The blocks are put out
  depth-first, each one after those that it requires; where the requirements run in a circle, the
  block that was reached first comes last.
-/

namespace ObjectGraph

namespace Block

/-- Which block makes a variable: variables with the indices of their blocks. -/
abbrev Makers := List (VariableId × Nat)

/-- Notes that the block at an index makes a variable.  The variable itself counts in any case, its
    storage only if no block is known for it. -/
def noteMaker (a : Arena) (index : Nat) (makers : Makers) (i : Instantiation) : Makers :=
  let makers := (i.target, index) :: makers
  let storage := a.storage i.target
  if (makers.lookup storage).isSome then makers else (storage, index) :: makers

/-- The blocks that make the variables of a list of blocks, numbered from `index` on. -/
def makersFrom (a : Arena) (index : Nat) (makers : Makers) : List Block → Makers
  | [] => makers
  | b :: rest =>
    makersFrom a (index + 1) (b.instantiations.foldl (noteMaker a index) makers) rest

/-- The blocks that make the variables of a list of blocks. -/
def makers (a : Arena) (blocks : List Block) : Makers := makersFrom a 0 [] blocks

/-- The indices of the other blocks that a block requires, in the order of use. -/
def requires (a : Arena) (makers : Makers) (index : Nat) (b : Block) : List Nat :=
  let used := b.instantiations.flatMap fun i => i.supplies.map fun s => a.storage s.var
  ((used.filterMap fun v => makers.lookup v).filter (· ≠ index)).eraseDups

/-- The state of putting blocks in order. -/
structure Settled where
  /-- The blocks reached so far. -/
  reached : List Nat := []
  /-- The blocks in order so far, latest first. -/
  ordered : List Nat := []

/-- Puts a block in order after the ones that it requires.  Each level reaches a new block, so the
    depth never exceeds their number. -/
def settle (required : Array (List Nat)) (depth : Nat) (o : Settled) (index : Nat) : Settled :=
  match depth with
  | 0 => o
  | depth + 1 =>
    if index ∈ o.reached then o
    else
      let o := (required.getD index []).foldl (settle required depth)
        { o with reached := index :: o.reached }
      { o with ordered := index :: o.ordered }

/-- The blocks in the order in which they have to run. -/
def inOrder (a : Arena) (blocks : List Block) : List Block :=
  let makers := makers a blocks
  let required := (blocks.mapIdx (requires a makers)).toArray
  let o := (List.range blocks.length).foldl (settle required (blocks.length + 1)) {}
  let indexed := blocks.toArray
  o.ordered.reverse.filterMap (indexed[·]?)

end Block

end ObjectGraph
