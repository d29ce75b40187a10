import ObjectGraph.Plan.Walk

/-
  Walks that are cancelled on the way.

  A walk asks its token before each root, each block and each instantiation, and once more before a
  variable is put on a stack.  The token can be cancelled from outside at any moment, so the walk may
  stop at any of these checks.  It then fails, and the visit goes back to the variables that it
  started from, whatever has been done to them by then.

  A token is told by the number of checks that it passes.  The functions here are those of the walk
  with the checks in their places, and what they tell when they stop is what happened before.
-/

namespace ObjectGraph

/-- The number of checks that a token still passes; a token without a number is never cancelled. -/
abbrev Token := Option Nat

/-- A computation that asks a token.  If the token is cancelled it stops, and what it told is left;
    it answers nothing if a limit does not suffice. -/
abbrev Guarded (α : Type) := StateT Token (ExceptT Journal Option) α

namespace Guarded

variable {α : Type}

/-- Asks the token. -/
def check : Guarded Unit := fun
  | none => pure ((), none)
  | some 0 => throw #[]
  | some (left + 1) => pure ((), some left)

/-- A limit did not suffice. -/
def exhausted : Guarded α := fun _ => ExceptT.mk none

/-- A computation after something was told. -/
def telling (told : Journal) (x : Guarded α) : Guarded α := fun token =>
  ExceptT.adapt (told ++ ·) (x token)

end Guarded

namespace Walk

/-- Supplies the slot of an edge.  A variable that goes to a stack is checked for first. -/
def supplyGuarded (g : Graph) (block : VariableId) (n : Node) (w : Walk) (e : Edge) :
    Guarded (Supply × Walk) := do
  let isDeferred := n.isDeferred && !(g.node e.source).isOutside
  if (w.place g block isDeferred e).placement ≠ .reference then
    Guarded.check
  return w.supply g block n e

/-- Supplies the slots of a list of edges that leave the node `n`. -/
def supplyAllGuarded (g : Graph) (block : VariableId) (n : Node) (w : Walk) :
    List Edge → Guarded (List Supply × Walk)
  | [] => return ([], w)
  | e :: rest => do
    let (s, w) ← w.supplyGuarded g block n e
    let (others, w) ← w.supplyAllGuarded g block n rest
    return (s :: others, w)

/-- Makes the variables that the block has yet to make. -/
def makeTargetsGuarded (g : Graph) (block : VariableId) :
    (limit : Nat) → Walk → List Instantiation → Guarded (List Instantiation × Walk)
  | 0, w, made => if w.targets.isEmpty then return (made, w) else Guarded.exhausted
  | limit + 1, w, made =>
    match w.targets with
    | [] => return (made, w)
    | target :: targets => do
      Guarded.check
      let node := (w.arena.var target).node
      let (supplies, w) ←
        { w with targets }.supplyAllGuarded g block (g.node node) (g.dependencies node)
      makeTargetsGuarded g block limit w ({ target, supplies } :: made)

/-- Walks the pending blocks, next first, and adds them to those found before. -/
def makeBlocksGuarded (g : Graph) (within : Nat) :
    (limit : Nat) → Walk → (found : List Block) → Guarded (List Block × Walk)
  | 0, w, found => if w.pending.isEmpty then return (found.reverse, w) else Guarded.exhausted
  | limit + 1, w, found =>
    match w.pending with
    | [] => return (found.reverse, w)
    | root :: pending => do
      Guarded.check
      let (instantiations, w) ←
        makeTargetsGuarded g root within { w with pending, targets := [root] } []
      let block : Block := { root, instantiations }
      Guarded.telling (block.journal g w.arena) <|
        makeBlocksGuarded g within limit w (block :: found)

end Walk

namespace Graph

/-- Walks one root. -/
def tourGuarded (g : Graph) (limit : Nat) (a : Arena) (root : Root) : Guarded Tour := do
  Guarded.check
  let p := Placed.of g a root.node root.request none
  let arena := (p.arena.setBlockRoot p.var).setCreated p.var true
  let (blocks, w) ← Walk.makeBlocksGuarded g limit limit { arena, pending := [p.var] } []
  return { root, var := p.var, blocks, arena := w.arena }

/-- Walks roots one after another until the token stops it: the walks that came to their end, and
    the variables after the last root or what the walk that was stopped told. -/
def toursUntil (g : Graph) (limit : Nat) (token : Token) (a : Arena) :
    List Root → Option (List Tour × Except Journal Arena)
  | [] => some ([], .ok a)
  | root :: rest => do
    match ← ((g.tourGuarded limit a root).run token).run with
    | .error told => return ([], .error told)
    | .ok (t, token) =>
      let (others, after) ← g.toursUntil limit token (t.remaining g) rest
      return (t :: others, after)

/-- Walks all roots under a token.  If it is cancelled before the last root is done, the visit fails
    and the variables are again what they were. -/
def visitUntil (g : Graph) (token : Token) (a : Arena) : Option Visit := do
  let (tours, after) ← g.toursUntil g.walkLimit token a g.roots
  let told := (tours.map (Tour.journal g)).foldl (· ++ ·) #[]
  match after with
  | .ok arena => return { result := .ok (tours.map Tour.plan), arena, journal := told }
  | .error stopped =>
    return {
      result := .error (.cancelled g.name)
      arena := a
      journal := told ++ stopped ++ g.failureJournal }

end Graph

end ObjectGraph
