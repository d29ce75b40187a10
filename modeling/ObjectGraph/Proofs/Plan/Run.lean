import Mathlib.Logic.Relation
import ObjectGraph.Plan.Walk

/-
  The walk through one root as a run of small steps.

  `Walk.makeBlocks` is three loops inside each other: blocks, targets of a block, slots of a target.
  A `Stage` is a point in time of this computation, and `Stage.Step` says what can happen next.
  Four kinds of step only move variables from one stack to the next; all work is done by the fifth
  one, which supplies a slot.  `makeBlocks_run` shows once and for all that the loops are such a
  run, so an invariant of the walk is proved by looking at one step.
-/

namespace ObjectGraph

/-- A point in time of a walk through one root. -/
inductive Stage where
  /-- Between two blocks.  `found` lists the blocks so far, latest first. -/
  | between (w : Walk) (found : List Block)
  /-- In the block of `root`, between two instantiations.  `made` lists those of the block so far,
      in their final order. -/
  | within (w : Walk) (found : List Block) (root : VariableId) (made : List Instantiation)
  /-- At the instantiation of `target`, which is of the node `n`.  `supplies` are the slots supplied
      so far, `rest` the edges of the slots that follow. -/
  | supplying (w : Walk) (found : List Block) (root : VariableId) (made : List Instantiation)
      (target : VariableId) (n : NodeId) (supplies : List Supply) (rest : List Edge)

namespace Stage

/-- The stacks and the variables at a stage. -/
def walk : Stage → Walk
  | between w _ => w
  | within w _ _ _ => w
  | supplying w _ _ _ _ _ _ _ => w

/-- The variables at a stage. -/
def arena (st : Stage) : Arena := st.walk.arena

/-- The edges whose slots the current instantiation has yet to be supplied for. -/
def ahead : Stage → List Edge
  | between _ _ => []
  | within _ _ _ _ => []
  | supplying _ _ _ _ _ _ _ rest => rest

/-- The variable of the current instantiation with its node. -/
def current : Stage → Option (VariableId × NodeId)
  | between _ _ => none
  | within _ _ _ _ => none
  | supplying _ _ _ _ target n _ _ => some (target, n)

/-- All instantiations that a stage knows of, the current one with the slots supplied so far. -/
def instantiations : Stage → List Instantiation
  | between _ found => found.flatMap (·.instantiations)
  | within _ found _ made => made ++ found.flatMap (·.instantiations)
  | supplying _ found _ made target _ supplies _ =>
    { target, supplies } :: (made ++ found.flatMap (·.instantiations))

/-- The variables that are made in this root: those that wait on a stack, and those that have an
    instantiation. -/
def due (st : Stage) : List VariableId :=
  st.walk.targets ++ st.walk.pending ++ st.instantiations.map (·.target)

end Stage

/-- What instantiations are handed: each supply, with the variable that is made from it. -/
def Instantiation.handed (is : List Instantiation) : List (VariableId × Supply) :=
  is.flatMap fun i => i.supplies.map (i.target, ·)

namespace Stage

/-- What has been handed out so far. -/
def handed (st : Stage) : List (VariableId × Supply) := Instantiation.handed st.instantiations

/-- The variable of the current instantiation is due. -/
theorem mem_due_of_current {st : Stage} {t : VariableId} {n : NodeId}
    (current : st.current = some (t, n)) : t ∈ st.due := by
  cases st with
  | between => cases current
  | within => cases current
  | supplying =>
    cases current
    simp [due, instantiations]

/-- What is handed out goes to variables that are due. -/
theorem mem_due_of_handed {st : Stage} {pair : VariableId × Supply} (mem : pair ∈ st.handed) :
    pair.1 ∈ st.due := by
  obtain ⟨i, known, mem⟩ := List.mem_flatMap.mp mem
  obtain ⟨s, -, rfl⟩ := List.mem_map.mp mem
  exact List.mem_append_right _ (List.mem_map_of_mem known)

/-- What can happen next in a walk. -/
inductive Step (g : Graph) : Stage → Stage → Prop where
  | openBlock (w : Walk) (found : List Block) (root : VariableId) (pending : List VariableId)
      (next : w.pending = root :: pending) (idle : w.targets = []) :
      Step g (between w found) (within { w with pending, targets := [root] } found root [])
  | closeBlock (w : Walk) (found : List Block) (root : VariableId) (made : List Instantiation)
      (idle : w.targets = []) :
      Step g (within w found root made)
        (between w ({ root, instantiations := made } :: found))
  | take (w : Walk) (found : List Block) (root : VariableId) (made : List Instantiation)
      (target : VariableId) (targets : List VariableId) (next : w.targets = target :: targets) :
      Step g (within w found root made)
        (supplying { w with targets } found root made target (w.arena.var target).node []
          (g.dependencies (w.arena.var target).node))
  | supply (w : Walk) (found : List Block) (root : VariableId) (made : List Instantiation)
      (target : VariableId) (n : NodeId) (supplies : List Supply) (e : Edge) (rest : List Edge) :
      Step g (supplying w found root made target n supplies (e :: rest))
        (supplying (w.supply g root (g.node n) e).2 found root made target n
          (supplies ++ [(w.supply g root (g.node n) e).1]) rest)
  | finish (w : Walk) (found : List Block) (root : VariableId) (made : List Instantiation)
      (target : VariableId) (n : NodeId) (supplies : List Supply) :
      Step g (supplying w found root made target n supplies [])
        (within w found root ({ target, supplies } :: made))

/-- Any number of steps of a walk. -/
abbrev Run (g : Graph) : Stage → Stage → Prop := Relation.ReflTransGen (Step g)

variable {g : Graph}

/-! ## The loops are runs -/

theorem supplyAll_run (found : List Block) (root : VariableId) (made : List Instantiation)
    (target : VariableId) (n : NodeId) (edges : List Edge) :
    ∀ (w : Walk) (supplies : List Supply),
      Run g (supplying w found root made target n supplies edges)
        (supplying (w.supplyAll g root (g.node n) edges).2 found root made target n
          (supplies ++ (w.supplyAll g root (g.node n) edges).1) []) := by
  induction edges with
  | nil =>
    intro w supplies
    rw [Walk.supplyAll, List.append_nil]
  | cons e rest ih =>
    intro w supplies
    have later := ih (w.supply g root (g.node n) e).2
      (supplies ++ [(w.supply g root (g.node n) e).1])
    rw [List.append_assoc] at later
    exact .head (.supply w found root made target n supplies e rest) later

theorem makeTargets_run (found : List Block) (root : VariableId) (limit : Nat) :
    ∀ {w w' : Walk} {made made' : List Instantiation},
      Walk.makeTargets g root limit w made = some (made', w') →
      Run g (within w found root made) (within w' found root made') ∧ w'.targets = [] := by
  induction limit with
  | zero =>
    intro w w' made made' result
    simp only [Walk.makeTargets] at result
    split at result
    · rename_i idle
      cases result
      exact ⟨.refl, List.isEmpty_iff.mp idle⟩
    · cases result
  | succ limit ih =>
    intro w w' made made' result
    simp only [Walk.makeTargets] at result
    split at result
    · rename_i idle
      cases result
      exact ⟨.refl, idle⟩
    · rename_i target targets next
      obtain ⟨later, idle⟩ := ih result
      refine ⟨.head (.take w found root made target targets next) ?_, idle⟩
      exact (supplyAll_run found root made target _ _ _ []).trans
        (.head (.finish _ found root made target _ _) later)

/-- The walk through the blocks of a root is a run, and at its end both stacks are empty. -/
theorem makeBlocks_run (inner limit : Nat) :
    ∀ {w w' : Walk} {found blocks : List Block}, w.targets = [] →
      Walk.makeBlocks g inner limit w found = some (blocks, w') →
      Run g (between w found) (between w' blocks.reverse) ∧ w'.pending = [] ∧ w'.targets = [] := by
  induction limit with
  | zero =>
    intro w w' found blocks idle result
    simp only [Walk.makeBlocks] at result
    split at result
    · rename_i none
      cases result
      rw [List.reverse_reverse]
      exact ⟨.refl, List.isEmpty_iff.mp none, idle⟩
    · cases result
  | succ limit ih =>
    intro w w' found blocks idle result
    simp only [Walk.makeBlocks] at result
    split at result
    · rename_i none
      cases result
      rw [List.reverse_reverse]
      exact ⟨.refl, none, idle⟩
    · rename_i root pending next
      obtain ⟨⟨made, w₁⟩, inside, rest⟩ := Option.bind_eq_some_iff.mp result
      obtain ⟨block, idle₁⟩ := makeTargets_run found root inner inside
      obtain ⟨later, done⟩ := ih idle₁ rest
      refine ⟨.head (.openBlock w found root pending next idle) (block.trans ?_), done⟩
      exact .head (.closeBlock w₁ found root made idle₁) later

/-! ## What a step changes -/

/-- A step that does not supply a slot passes variables on and changes nothing else. -/
structure Passes (g : Graph) (st st' : Stage) : Prop where
  arena : st'.walk.arena = st.walk.arena
  shared : st'.walk.shared = st.walk.shared
  due : st.due.Perm st'.due
  handed : st'.handed = st.handed
  ahead : ∀ e ∈ st'.ahead, ∃ t n, st'.current = some (t, n) ∧ e ∈ g.dependencies n
  current : ∀ t n, st'.current = some (t, n) → (st'.walk.arena.var t).node = n

theorem Step.cases {st st' : Stage} (step : Step g st st') :
    Passes g st st' ∨ ∃ w found root made target n supplies e rest,
      st = supplying w found root made target n supplies (e :: rest) ∧
      st' = supplying (w.supply g root (g.node n) e).2 found root made target n
        (supplies ++ [(w.supply g root (g.node n) e).1]) rest := by
  cases step with
  | openBlock w found root pending next idle =>
    refine .inl ⟨rfl, rfl, .of_eq ?_, rfl, nofun, nofun⟩
    simp [due, walk, instantiations, next, idle]
  | closeBlock w found root made idle =>
    exact .inl ⟨rfl, rfl, .of_eq (by simp [due, walk, instantiations]),
      by simp [handed, instantiations], nofun, nofun⟩
  | take w found root made target targets next =>
    refine .inl ⟨rfl, rfl, ?_, by simp [handed, Instantiation.handed, instantiations],
      fun e mem => ⟨_, _, rfl, mem⟩, fun t n eq => by cases eq; rfl⟩
    simp only [due, walk, instantiations, next, List.map_cons, List.cons_append]
    exact List.perm_middle.symm
  | finish w found root made target n supplies =>
    exact .inl ⟨rfl, rfl, .of_eq (by simp [due, walk, instantiations]),
      by simp [handed, instantiations], nofun, nofun⟩
  | supply w found root made target n supplies e rest =>
    exact .inr ⟨w, found, root, made, target, n, supplies, e, rest, rfl, rfl⟩

theorem Step.passes {st st' : Stage} (step : Step g st st') (nothing : st.ahead = []) :
    Passes g st st' := by
  obtain passes | ⟨w, found, root, made, target, n, supplies, e, rest, rfl, -⟩ := step.cases
  · exact passes
  · cases nothing

/-- Supplying a slot hands out one more variable. -/
theorem mem_handed_supplying {w w' : Walk} {found : List Block} {root : VariableId}
    {made : List Instantiation} {target : VariableId} {n : NodeId} {supplies : List Supply}
    {s : Supply} {rest rest' : List Edge} {pair : VariableId × Supply} :
    pair ∈ (supplying w' found root made target n (supplies ++ [s]) rest').handed ↔
      pair = (target, s) ∨ pair ∈ (supplying w found root made target n supplies rest).handed := by
  simp only [handed, Instantiation.handed, instantiations, List.flatMap_cons, List.map_append,
    List.map_cons, List.map_nil, List.mem_append, List.mem_singleton]
  rw [or_assoc, or_left_comm]

end Stage

end ObjectGraph
