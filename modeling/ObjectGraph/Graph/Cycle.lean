import ObjectGraph.Fault
import ObjectGraph.Graph.Basic
import ObjectGraph.Journal

/-
  Cycles of dependencies.

  The search goes depth-first from the roots and reports each edge that leads back to a node of the
  current path.  A deferred node ends the path: what it depends on is needed later only, so the
  search starts over from there with an empty path.  Every node is entered once.
-/

namespace ObjectGraph

/-- A cycle: the nodes along it, the first one repeated at the end. -/
abbrev Cycle := List NodeId

/-- The state of the search for cycles. -/
structure CycleSearch where
  /-- The nodes entered so far. -/
  entered : List NodeId := []
  /-- The nodes to start from, next first. -/
  starts : List NodeId
  /-- The cycles found so far. -/
  cycles : List Cycle := []

namespace CycleSearch

/-- The cycle that an edge closes which leads from the head of a path back to `source`. -/
def closing (path : List NodeId) (source : NodeId) : Cycle :=
  source :: (path.takeWhile (· ≠ source)).reverse ++ [source]

/-- Enters a node and all that it leads to.  `path` lists the nodes on the way to it, last first;
    it grows by a new node with each level, so the depth never exceeds the number of nodes. -/
def explore (g : Graph) (depth : Nat) (path : List NodeId) (st : CycleSearch) (node : NodeId) :
    CycleSearch :=
  match depth with
  | 0 => st
  | depth + 1 =>
    let st := { st with entered := node :: st.entered }
    let next := (g.dependencies node).map (·.source)
    if (g.node node).isDeferred then { st with starts := st.starts ++ next }
    else
      next.foldl (fun st source =>
        if source ∈ node :: path then
          { st with cycles := st.cycles ++ [closing (node :: path) source] }
        else if source ∈ st.entered then st
        else explore g depth (node :: path) st source) st

/-- Explores from all starting nodes.  Each node adds starting nodes at most once, when it is
    entered, so the number of rounds never exceeds the number of roots and edges. -/
def run (g : Graph) : (rounds : Nat) → CycleSearch → CycleSearch
  | 0, st => st
  | rounds + 1, st =>
    match st.starts with
    | [] => st
    | start :: rest =>
      let st := { st with starts := rest }
      if start ∈ st.entered then run g rounds st
      else run g rounds (explore g (g.nodes.size + 1) [] st start)

end CycleSearch

namespace Graph

/-- The cycles that can be reached from the roots. -/
def cycles (g : Graph) : List Cycle :=
  (CycleSearch.run g (g.roots.length + g.allEdges.length + 1)
    { starts := g.roots.map (·.node) }).cycles

/-- The texts of the nodes along a cycle. -/
def cyclePath (g : Graph) (c : Cycle) : List String := c.map fun id => (g.node id).text

/-- The fault of a cycle, located at the node where it starts and ends. -/
def cycleFault (g : Graph) (c : Cycle) : Fault :=
  .cycle (g.cyclePath c) ((c.head?.map fun id => (g.node id).location).getD {})

/-- The faults of all cycles. -/
def cycleFaults (g : Graph) : List Fault := g.cycles.map g.cycleFault

/-- What the search for cycles tells. -/
def cycleJournal (g : Graph) : Journal :=
  (g.cycles.map fun c => Journal.trace s!"Found cycle: {quotedList (g.cyclePath c)}.").foldl
    (· ++ ·) #[]

end Graph

end ObjectGraph
