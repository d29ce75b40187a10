import ObjectGraph.Node.Basic
import ObjectGraph.Setup.Basic

/-
  The graph of dependencies of one composition.

  Nodes are known by their place; the edges of a node lead to the nodes that fill its slots.  Edges
  are kept twice, by the node that they leave and by the node that they lead to.  Looking up an id that
  is not in the graph gives a blank node without edges.
-/

namespace ObjectGraph

/-- A slot of a node together with the node that fills it. -/
structure Edge where
  /-- The node that requests. -/
  target : NodeId
  /-- The number of its slot. -/
  slot : Nat
  /-- What the slot requests. -/
  request : Request
  /-- The node that fills the slot. -/
  source : NodeId
  deriving DecidableEq, Inhabited

namespace Edge

/-- By the node that edges leave, and then by slot. -/
def cmp (a b : Edge) : Ordering := (compare a.target b.target).then (compare a.slot b.slot)

/-- Puts an edge in front of the first one that it need not come after. -/
def place (e : Edge) : List Edge → List Edge
  | [] => [e]
  | e' :: es => if e.cmp e' = .gt then e' :: e.place es else e :: e' :: es

/-- The edges in order; those that stand at one slot keep theirs. -/
def sort : List Edge → List Edge
  | [] => []
  | e :: es => e.place (sort es)

/-- Enters an edge in a table by the nodes that edges lead to. -/
def enter (table : Array (List Edge)) (e : Edge) : Array (List Edge) :=
  table.modify e.source (· ++ [e])

/-- The edges that lead to each of `size` nodes, in order. -/
def incoming (size : Nat) (edges : List Edge) : Array (List Edge) :=
  (edges.foldl enter (Array.replicate size [])).map sort

end Edge

/-- A resolved root. -/
structure Root where
  /-- Its name. -/
  name : String
  /-- The node that answers it. -/
  node : NodeId
  /-- What it requests. -/
  request : Request
  /-- Its place among the declared roots. -/
  index : Nat
  /-- How it is exposed. -/
  exposure : Exposure
  /-- Where it was declared. -/
  location : Location
  deriving DecidableEq, Inhabited

/-- The graph of dependencies of a composition. -/
structure Graph where
  /-- The name of the setup. -/
  name : String
  /-- All nodes, also the variants that are not used. -/
  nodes : Array Node
  /-- All bindings. -/
  bindings : List Binding
  /-- The edges that leave each node, by its id. -/
  edges : Array (List Edge)
  /-- The edges that lead to each node, by its id. -/
  incoming : Array (List Edge)
  /-- The resolved roots. -/
  roots : List Root
  /-- The hints of the setup. -/
  hints : Hints
  /-- The accumulators of the setup. -/
  accumulators : List Accumulator
  deriving DecidableEq, Inhabited

namespace Graph

/-- The node of an id. -/
def node (g : Graph) (id : NodeId) : Node := g.nodes.getD id default

/-- The edges that fill the slots of a node, in the order of the slots. -/
def dependencies (g : Graph) (id : NodeId) : List Edge := g.edges.getD id []

/-- All edges, by the node that they leave and then by slot. -/
def allEdges (g : Graph) : List Edge := g.edges.toList.flatten

/-- The edges that lead to a node, by the node that they leave and then by slot. -/
def dependents (g : Graph) (id : NodeId) : List Edge := g.incoming.getD id []

/-- The bindings that own nodes, in the order of their ids. -/
def usedBindings (g : Graph) : List Binding :=
  g.bindings.filter fun b => g.nodes.any (·.binding == b.id)

/-- How often the instance of a node is used: once for each edge to it, and once more for each edge
    from a factory, which can ask for its dependencies again and again. -/
def weight (g : Graph) (id : NodeId) : Nat :=
  let edges := g.dependents id
  edges.length + edges.countP fun e => (g.node e.target).isFactory

end Graph

end ObjectGraph
