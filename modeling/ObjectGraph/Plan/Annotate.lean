import ObjectGraph.Graph.Basic
import ObjectGraph.Journal
import ObjectGraph.Plan.Basic
import ObjectGraph.Type.Oracle

/-
  Annotating the blocks of plans with the steps of the generated code.

  A block that fills storage of the composition checks first whether that is done already; in
  thread-safe code it checks once more inside a lock, and publishes before it leaves the lock.  Other
  blocks just construct, and take the lock only to feed accumulators.
-/

namespace ObjectGraph

namespace Block

/-- Tells if an accumulator gathers the instances of a node. -/
def captures (ts : TypeOracle) (n : Node) (a : Accumulator) : Bool :=
  !n.isOutside && a.capturesLifetime n.lifetime && ts.isAssignable n.instanceType a.captured

/-- Feeds what an instantiation makes to the accumulators that gather it. -/
def accumulationsOf (ts : TypeOracle) (g : Graph) (a : Arena) (i : Instantiation) : List Step :=
  let n := g.node (a.var i.target).node
  (g.accumulators.zipIdx.filter fun (acc, _) => captures ts n acc).map fun (_, index) =>
    .accumulate index i.target

/-- Feeds what the block makes to the accumulators. -/
def accumulations (ts : TypeOracle) (g : Graph) (a : Arena) (b : Block) : List Step :=
  b.instantiations.flatMap (accumulationsOf ts g a)

/-- The steps in a lock, if code is to be thread-safe. -/
def locked (threadSafe : Bool) (steps : List Step) : List Step :=
  if threadSafe then [.acquireLock] ++ steps ++ [.releaseLock] else steps

/-- Tells if a block fills storage of the composition. -/
def fillsStorage (g : Graph) (a : Arena) (b : Block) : Bool :=
  let n := g.node (a.var b.root).node
  n.lifetime.isCompositionWide && !n.isOutside

/-- The steps of a block. -/
def stepsOf (ts : TypeOracle) (threadSafe : Bool) (g : Graph) (a : Arena) (b : Block) :
    List Step :=
  let accumulations := accumulations ts g a b
  if b.fillsStorage g a then
    let recheck := if threadSafe then [.recheckCreated] else []
    [.checkCreated] ++
      locked threadSafe (recheck ++ [.construct] ++ accumulations ++ [.publish])
  else if accumulations.isEmpty then [.construct]
  else [.construct] ++ locked threadSafe accumulations

/-- The block with its steps. -/
def annotate (ts : TypeOracle) (threadSafe : Bool) (g : Graph) (a : Arena) (b : Block) : Block :=
  { b with steps := b.stepsOf ts threadSafe g a }

end Block

namespace Plan

/-- The plan with the steps of its blocks. -/
def annotate (ts : TypeOracle) (threadSafe : Bool) (g : Graph) (a : Arena) (p : Plan) : Plan :=
  { p with blocks := p.blocks.map (·.annotate ts threadSafe g a) }

/-- What annotating plans tells. -/
def stepsJournal (annotated : List Plan) : Journal :=
  let blocks := annotated.flatMap (·.blocks)
  (blocks.map fun b =>
    let steps := ", ".intercalate (b.steps.map Step.text)
    Journal.trace s!"Block steps: [{steps}].").foldl (· ++ ·) #[]

end Plan

end ObjectGraph
