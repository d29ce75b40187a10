import ObjectGraph.Fault
import ObjectGraph.Journal
import ObjectGraph.Plan.Order
import ObjectGraph.Plan.Placement

/-
  The walk: from a graph to the plans of its roots.

  Each root is walked with two stacks.  The outer one holds the blocks that are still to be walked,
  by the variables that they make; the inner one holds the variables that the current block has yet
  to make.  What a deferred factory depends on always gets a block of its own, shared by all deferred
  uses of the node within the root, and that is why a recursion through such a factory ends.

  The graph of a resolution has no cycle without a deferred node, so a walk through it ends.  For an
  arbitrary graph it need not, and the functions that loop take a limit and answer nothing when it
  does not suffice.
-/

namespace ObjectGraph

/-- The state of a walk through one root. -/
structure Walk where
  /-- The variables. -/
  arena : Arena
  /-- The variables that need a block of their own, next first. -/
  pending : List VariableId := []
  /-- The variables that the current block has yet to make, next first. -/
  targets : List VariableId := []
  /-- The variables that the deferred uses of a node share. -/
  shared : List (NodeId × VariableId) := []

namespace Walk

/-- The variable for an edge of a node that is made in `block`. -/
def place (g : Graph) (block : VariableId) (isDeferred : Bool) (w : Walk) (e : Edge) : Placed :=
  match isDeferred, w.shared.lookup e.source with
  | true, some existing => .refer w.arena ⟨e.source, (g.node e.source).key, e.request⟩ existing
  | _, _ =>
    let p := Placed.of g w.arena e.source e.request (some block)
    if isDeferred && p.placement == .inline then
      { p with placement := .block, arena := p.arena.setBlockRoot p.var }
    else p

/-- Takes up a variable where it is to be made. -/
def enqueue (w : Walk) (var : VariableId) : Placement → Walk
  | .inline => { w with targets := var :: w.targets }
  | .block => { w with pending := var :: w.pending }
  | .reference => w

/-- Tells if what a lazy sequence is handed for a node is made later only: all but the instances
    that live in storage of the composition. -/
def isLazyItem (n : Node) : Bool := !n.lifetime.isCompositionWide && !n.isOutside

/-- Supplies the slot of an edge that leaves the node `n`. -/
def supply (g : Graph) (block : VariableId) (n : Node) (w : Walk) (e : Edge) : Supply × Walk :=
  let source := g.node e.source
  let isDeferred := n.isDeferred && !source.isOutside
  let p := w.place g block isDeferred e
  let shared :=
    if isDeferred && p.placement == .block then (e.source, p.var) :: w.shared else w.shared
  let w := { w with arena := p.arena, shared }.enqueue p.var p.placement
  let w :=
    if n.isEnumerable && isLazyItem source then
      { w with arena := w.arena.setCreated p.var false }
    else w
  ({ slot := e.slot, request := e.request, var := p.var }, w)

/-- Supplies the slots of a list of edges that leave the node `n`. -/
def supplyAll (g : Graph) (block : VariableId) (n : Node) (w : Walk) :
    List Edge → List Supply × Walk
  | [] => ([], w)
  | e :: rest =>
    let (s, w) := w.supply g block n e
    let (others, w) := w.supplyAll g block n rest
    (s :: others, w)

/-- Makes the variables that the block has yet to make.  What is made later is needed earlier, so
    each instantiation goes in front of those found before it. -/
def makeTargets (g : Graph) (block : VariableId) :
    (limit : Nat) → Walk → List Instantiation → Option (List Instantiation × Walk)
  | 0, w, made => if w.targets.isEmpty then some (made, w) else none
  | limit + 1, w, made =>
    match w.targets with
    | [] => some (made, w)
    | target :: targets =>
      let node := (w.arena.var target).node
      let (supplies, w) :=
        { w with targets }.supplyAll g block (g.node node) (g.dependencies node)
      makeTargets g block limit w ({ target, supplies } :: made)

/-- Walks the pending blocks, next first, and adds them to those found before.  `within` limits the
    instantiations of each block, `limit` the number of blocks. -/
def makeBlocks (g : Graph) (within : Nat) :
    (limit : Nat) → Walk → (found : List Block) → Option (List Block × Walk)
  | 0, w, found => if w.pending.isEmpty then some (found.reverse, w) else none
  | limit + 1, w, found =>
    match w.pending with
    | [] => some (found.reverse, w)
    | root :: pending => do
      let (instantiations, w) ← makeTargets g root within { w with pending, targets := [root] } []
      makeBlocks g within limit w ({ root, instantiations } :: found)

end Walk

/-! ## Roots -/

/-- What the walk through a block tells. -/
def Block.journal (g : Graph) (a : Arena) (b : Block) : Journal :=
  Journal.trace
    s!"Block of {g.node (a.var b.root).node} has {b.instantiations.length} instantiation(s)."

/-- What the walk through one root found. -/
structure Tour where
  /-- The root. -/
  root : Root
  /-- Its variable. -/
  var : VariableId
  /-- The blocks in the order in which they were found. -/
  blocks : List Block
  /-- The variables when the walk was over. -/
  arena : Arena

namespace Tour

/-- Tells if a variable may be used again by the roots that follow. -/
def outlivesRoot (g : Graph) (v : Variable) : Bool :=
  let n := g.node v.node
  n.lifetime == .singleton || n.isOutside

/-- The variables that the next root starts from. -/
def remaining (g : Graph) (t : Tour) : Arena := t.arena.evict (outlivesRoot g)

/-- The plan of the root. -/
def plan (t : Tour) : Plan :=
  { name := t.root.name, var := t.var, blocks := Block.inOrder t.arena t.blocks }

/-- What the walk through the root tells. -/
def journal (g : Graph) (t : Tour) : Journal :=
  let blocks := t.blocks.map (Block.journal g t.arena)
  blocks.foldl (· ++ ·) #[] ++
    Journal.debug s!"Root {t.root.name} of {g.name} requires {t.blocks.length} block(s)."

end Tour

namespace Graph

/-- More blocks, and more instantiations in each, than a walk through a resolved graph can find:
    below each block and each deferred node hangs a tree of blocks that is no deeper than the graph
    has nodes and branches no further. -/
def walkLimit (g : Graph) : Nat := Nat.pow (g.nodes.size + 2) (g.nodes.size + 2)

/-- Walks one root. -/
def tour (g : Graph) (limit : Nat) (a : Arena) (root : Root) : Option Tour := do
  let p := Placed.of g a root.node root.request none
  let arena := (p.arena.setBlockRoot p.var).setCreated p.var true
  let (blocks, w) ← Walk.makeBlocks g limit limit { arena, pending := [p.var] } []
  return { root, var := p.var, blocks, arena := w.arena }

/-- Walks roots one after another. -/
def tours (g : Graph) (limit : Nat) (a : Arena) : List Root → Option (List Tour × Arena)
  | [] => some ([], a)
  | root :: rest => do
    let t ← g.tour limit a root
    let (others, a) ← g.tours limit (t.remaining g) rest
    return (t :: others, a)

/-- A walk through all roots that came to its end. -/
structure Visit where
  /-- The plans of the roots, or the fault. -/
  result : Except Fault (List Plan)
  /-- The variables afterwards. -/
  arena : Arena
  /-- What there was to tell. -/
  journal : Journal

/-- What a visit that fails tells. -/
def failureJournal (g : Graph) : Journal :=
  Journal.debug s!"Walking {g.name} failed, restoring variables."

/-- Walks all roots, unless the compilation is cancelled: then the first root fails, and the
    variables stay as they are. -/
def visit (g : Graph) (isCancelled : Bool) (a : Arena) : Option Visit :=
  if isCancelled && !g.roots.isEmpty then
    some {
      result := .error (.cancelled g.name)
      arena := a
      journal := g.failureJournal }
  else do
    let (tours, arena) ← g.tours g.walkLimit a g.roots
    return {
      result := .ok (tours.map Tour.plan)
      arena
      journal := (tours.map (Tour.journal g)).foldl (· ++ ·) #[] }

end Graph

end ObjectGraph
