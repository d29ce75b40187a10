import ObjectGraph.Graph.Basic
import ObjectGraph.Plan.Arena

/-
  Placement: which variable serves a use of a node, and where that variable is made.

  Values from outside have one variable in the whole composition.  A singleton has one storage
  variable, and the first use in each root makes a block for it; a scoped instance has one for each
  root.  An instance of a resolution has one variable for each root, with a block of its own if it is
  used more than once.  All others are made anew for each use, but when a node is used more than
  once, the uses within one block share one variable, which gets a block of its own.
-/

namespace ObjectGraph

/-- Where a variable is made. -/
inductive Placement where
  /-- In the current block. -/
  | inline
  /-- In a block of its own. -/
  | block
  /-- Elsewhere: it is there already, or it is on its way. -/
  | reference
  deriving DecidableEq, Inhabited

/-- A variable with the place where it is made. -/
structure Placed where
  /-- The variable. -/
  var : VariableId
  /-- Where it is made. -/
  placement : Placement
  /-- The arena after the choice. -/
  arena : Arena

/-- A use of a node: the node, its storage key, and the request that the use serves. -/
structure NodeUse where
  /-- The node. -/
  node : NodeId
  /-- The storage key of its binding. -/
  key : BindingKey
  /-- What is requested. -/
  request : Request

/-- The arena with a new variable for a use. -/
def Arena.allocateFor (a : Arena) (u : NodeUse) (link : Option VariableId) : VariableId × Arena :=
  a.allocate u.node u.request link

namespace Placed

/-- Has a variable made at a place, unless it is there already. -/
def schedule (a : Arena) (var : VariableId) (placement : Placement) : Placed :=
  if (a.var var).isCreated then ⟨var, .reference, a⟩
  else ⟨var, placement, a.setCreated var true⟩

/-- Has a variable made in a block of its own. -/
def promote (a : Arena) (var : VariableId) : Placed :=
  schedule (a.setBlockRoot var) var .block

/-- A new variable that refers to a stored one. -/
def refer (a : Arena) (u : NodeUse) (stored : VariableId) : Placed :=
  let (var, a) := a.allocateFor u (some stored)
  ⟨var, .reference, a⟩

/-- A new variable for a use that shares with no other. -/
def fresh (a : Arena) (u : NodeUse) : Placed :=
  let (var, a) := a.allocateFor u none
  schedule a var .inline

/-- The variable of a value from outside. -/
def outside (a : Arena) (u : NodeUse) : Placed :=
  match a.lookup (.binding u.key) with
  | some stored => schedule a stored .inline
  | none =>
    let (var, a) := a.allocateFor u none
    schedule ((a.setDeclared var).store (.binding u.key) var) var .inline

/-- The variable of a singleton or a scoped instance. -/
def compositionWide (a : Arena) (u : NodeUse) : Placed :=
  match a.lookup (.binding u.key) with
  | some stored =>
    if (a.var stored).isCreated then refer a u stored
    else
      let (var, a) := (a.setCreated stored true).allocateFor u (some stored)
      promote a var
  | none =>
    let (var, a) := a.allocateFor u none
    promote ((a.setDeclared var).store (.binding u.key) var) var

/-- The variable of an instance that a whole resolution shares.  It gets a block of its own when it
    is used more than once. -/
def perResolve (a : Arena) (u : NodeUse) (isReused : Bool) : Placed :=
  match a.lookup (.binding u.key) with
  | some stored => refer a u stored
  | none =>
    let (var, a) := a.allocateFor u none
    let a := a.store (.binding u.key) var
    if isReused then promote a var else schedule a var .inline

/-- The variable that the uses within a block share. -/
def hoisted (a : Arena) (u : NodeUse) (block : VariableId) : Placed :=
  match a.lookup (.hoisted u.key block) with
  | some stored => refer a u stored
  | none =>
    let (var, a) := a.allocateFor u none
    promote (a.store (.hoisted u.key block) var) var

/-- The variable for a use of a node.  `block` is the block of the use; a root is used outside all
    blocks. -/
def of (g : Graph) (a : Arena) (node : NodeId) (request : Request) (block : Option VariableId) :
    Placed :=
  let n := g.node node
  let u : NodeUse := ⟨node, n.key, request⟩
  if n.isOutside then outside a u
  else
    match n.lifetime with
    | .singleton | .scoped => compositionWide a u
    | .perResolve => perResolve a u (g.weight node > 1)
    | .transient | .perBlock =>
      match block with
      | some block => if g.weight node > 1 then hoisted a u block else fresh a u
      | none => fresh a u

end Placed

end ObjectGraph
