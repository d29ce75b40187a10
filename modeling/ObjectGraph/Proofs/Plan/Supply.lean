import ObjectGraph.Proofs.Graph.Cycle
import ObjectGraph.Proofs.Graph.Queue
import ObjectGraph.Proofs.Plan.Targets

/-
  What an instantiation is handed, slot by slot.

  The walk goes through the edges of a node in their order and hands out one variable for each of
  them, so an instantiation `Follows` the edges of its node: as many supplies as edges, in the order of
  the edges, each for the slot of its edge and from the node that fills the slot.

  Two invariants of a walk say so.  `Stage.InStep` is about the instantiations, where the current one
  has followed the edges that are not ahead; `Stage.DueReachable` is about what is due, which is of nodes
  that can be reached from the roots.  What comes from outside is left out of the latter: it is kept as
  an instance of the node that used it first.
-/

namespace ObjectGraph

open Arena

variable {g : Graph} {a before : Arena}

/-- What is handed out fills the slot of an edge: it is of the node that the edge leads to, or stands
    for the same value from outside. -/
structure Supply.Fills (g : Graph) (a : Arena) (e : Edge) (s : Supply) : Prop where
  slot : s.slot = e.slot
  request : s.request = e.request
  key : (a.node g s.var).key = (g.node e.source).key
  node : (g.node e.source).isOutside = false → (a.var s.var).node = e.source

/-- The supplies of an instantiation are those for the edges of its node, in order. -/
def Instantiation.Follows (g : Graph) (a : Arena) (i : Instantiation) : Prop :=
  List.Forall₂ (Supply.Fills g a) (g.dependencies (a.var i.target).node) i.supplies

/-- A slot has no variable exactly if no edge leaves the node from there. -/
theorem Instantiation.Follows.supplied?_eq_none_iff {i : Instantiation} (follows : i.Follows g a)
    (slot : Nat) :
    i.supplied? slot = none ↔ ∀ e ∈ g.dependencies (a.var i.target).node, e.slot ≠ slot := by
  rw [supplied?, Option.map_eq_none_iff, List.find?_eq_none]
  simp only [beq_iff_eq]
  constructor
  · intro none e mem
    obtain ⟨s, s_mem, fills⟩ := forall₂_left follows mem
    exact fills.slot ▸ none s s_mem
  · intro none s mem
    obtain ⟨e, e_mem, fills⟩ := forall₂_right follows mem
    exact fills.slot ▸ none e e_mem

namespace Stage

variable {st st' : Stage}

/-! ## Supplies follow edges -/

/-- The instantiations that a stage is done with. -/
def done : Stage → List Instantiation
  | between _ found => found.flatMap (·.instantiations)
  | within _ found _ made => made ++ found.flatMap (·.instantiations)
  | supplying _ found _ made _ _ _ _ => made ++ found.flatMap (·.instantiations)

/-- The current instantiation has followed the edges of its node that are not ahead. -/
def CurrentFollows (g : Graph) (a : Arena) : Stage → Prop
  | supplying _ _ _ _ target n supplies rest =>
    (a.var target).node = n ∧
      ∃ front, g.dependencies n = front ++ rest ∧ List.Forall₂ (Supply.Fills g a) front supplies
  | _ => True

/-- The supplies at a stage follow the edges, as told by a later arena. -/
structure InStep (g : Graph) (a : Arena) (st : Stage) : Prop where
  done : ∀ i ∈ st.done, i.Follows g a
  current : st.CurrentFollows g a

section Supplied

variable {root target : VariableId} {n : NodeId} {e : Edge} {p : Placed} {s : Supply}

/-- What is handed out is in the arena. -/
theorem Supplied.var_lt (supplied : Supplied g before st st' root target n e p s) :
    s.var < st'.arena.vars.size := by
  have same := supplied.same
  rw [supplied.effect.var, same.size_eq]
  exact supplied.serves.provided.1

/-- What is supplied for an edge fills its slot. -/
theorem Supplied.fills (supplied : Supplied g before st st' root target n e p s)
    (slot : s.slot = e.slot) (request : s.request = e.request) (grows : st'.arena.Extends a) :
    s.Fills g a e := by
  refine ⟨slot, request, ?_, fun inside => ?_⟩
  · have same : p.arena.SameValues st'.arena := supplied.same
    rw [grows.node_eq supplied.var_lt, supplied.effect.var, same.node_eq, supplied.serves.key]
  · rw [grows.node supplied.var_lt]
    exact supplied.node_var inside

end Supplied

/-- A step goes on to the next edge or to another instantiation. -/
theorem Step.inStep (uniform : g.Uniform) (sound : Sound g before st) (inStep : InStep g a st)
    (grows : st'.arena.Extends a) (step : Step g st st') : InStep g a st' := by
  obtain ⟨done, current⟩ := inStep
  cases step with
  | openBlock w found root pending next idle => exact ⟨done, trivial⟩
  | closeBlock w found root made idle => exact ⟨done, trivial⟩
  | take w found root made target targets next =>
    have due : target ∈ (within w found root made).due := by simp [due, walk, next]
    exact ⟨done, grows.node (sound.consistent.due_lt target due), [], rfl, .nil⟩
  | supply w found root made target n supplies e rest =>
    obtain ⟨node, front, edges, follows⟩ := current
    have fills := (sound.supplied uniform).fills rfl rfl grows
    refine ⟨done, node, front ++ [e], by rw [edges, List.append_assoc, List.singleton_append], ?_⟩
    exact List.rel_append follows (.cons fills .nil)
  | finish w found root made target n supplies =>
    -- nothing is ahead, so all edges were followed
    obtain ⟨node, front, edges, follows⟩ := current
    rw [List.append_nil] at edges
    refine ⟨List.forall_mem_cons.mpr ⟨?_, done⟩, trivial⟩
    show List.Forall₂ _ (g.dependencies (a.var target).node) supplies
    rwa [node, edges]

theorem Run.inStep (uniform : g.Uniform) (sound : Sound g before st) (inStep : InStep g a st)
    (run : Run g st st') (grows : st'.arena.Extends a) : InStep g a st' := by
  induction run with
  | refl => exact inStep
  | tail earlier step ih =>
    have grown := Run.extends (.single step)
    exact step.inStep uniform (Run.sound uniform sound earlier) (ih (grown.trans grows)) grows

/-! ## What is due can be reached -/

/-- What is due and not from outside is of a node that can be reached. -/
def DueReachable (g : Graph) (st : Stage) : Prop :=
  ∀ v ∈ st.due, st.arena.Inside g v → g.Reachable (st.arena.var v).node

/-- A step makes due what edges lead to from what was due. -/
theorem Step.dueReachable (uniform : g.Uniform) (sound : Sound g before st)
    (reachable : DueReachable g st) (step : Step g st st') : DueReachable g st' := by
  obtain passes | ⟨root, target, n, e, p, s, supplied⟩ := step.supplied uniform sound
  · have arena : st'.arena = st.arena := passes.arena
    rw [DueReachable, arena]
    exact fun v mem => reachable v (passes.due.mem_iff.mpr mem)
  · -- what was due before has the node that it had
    have old (v : VariableId) (mem : v ∈ st.due) (inside : st'.arena.Inside g v) :
        g.Reachable (st'.arena.var v).node := by
      have lt := sound.consistent.due_lt v mem
      rw [Inside, supplied.grown.node_eq lt] at inside
      rw [supplied.grown.node lt]
      exact reachable v mem inside
    intro v mem inside
    rcases supplied.due_cases mem with ⟨rfl, -⟩ | mem
    · have source : (g.node e.source).isOutside = false := by
        rw [← supplied.isOutside_eq uniform sound]
        exact inside
      have giver := old target (mem_due_of_current supplied.current) (supplied.giver uniform sound)
      rw [supplied.grown.node (sound.consistent.due_lt target
        (mem_due_of_current supplied.current)), sound.current target n supplied.current] at giver
      rw [supplied.node_var source]
      exact .edge giver (supplied.edge sound)
    · exact old v mem inside

theorem Run.dueReachable (uniform : g.Uniform) (sound : Sound g before st)
    (reachable : DueReachable g st) (run : Run g st st') : DueReachable g st' := by
  induction run with
  | refl => exact reachable
  | tail earlier step ih => exact step.dueReachable uniform (Run.sound uniform sound earlier) ih

end Stage

/-! ## The instantiations of a plan -/

section Traced

variable {t : Tour} {first last : Walk}

theorem Tour.Traced.follows (uniform : g.Uniform) (traced : t.Traced g before first last)
    (grows : t.arena.Extends a) : ∀ i ∈ t.plan.instantiations, i.Follows g a := by
  intro i mem
  have inStep := traced.run.inStep uniform traced.sound ⟨nofun, trivial⟩ (traced.arena_eq ▸ grows)
  exact inStep.done i ((t.instantiations_perm last).mem_iff.mpr mem)

theorem Tour.Traced.reachable (uniform : g.Uniform) (traced : t.Traced g before first last) :
    ∀ v ∈ t.plan.targets, t.arena.Inside g v → g.Reachable (t.arena.var v).node := by
  obtain ⟨p, -, serves, -, same, due⟩ := traced.placed
  have start : Stage.DueReachable g (.between first []) := by
    intro v mem inside
    rw [due, List.mem_singleton] at mem
    subst mem
    have profile := uniform.profile_eq _ _ (serves.consistent.node_lt p.var serves.provided.1)
      (uniform.root_lt t.root traced.known) serves.key
    have inside : (first.arena.node g p.var).isOutside = false := inside
    have inside : (g.node t.root.node).isOutside = false := by
      rwa [same.node_eq, Arena.node, Node.isOutside_eq profile] at inside
    show g.Reachable (first.arena.var p.var).node
    rw [same.node, serves.node inside]
    exact .root traced.known
  intro v mem inside
  have reachable := traced.run.dueReachable uniform traced.sound start v
    (traced.due_perm.mem_iff.mpr mem)
  rw [traced.arena_eq] at reachable
  exact reachable inside

end Traced

namespace Graph.Toured

variable {legs : List Leg} {l : Leg} {i : Instantiation} (uniform : g.Uniform)
  (toured : g.Toured legs a) (mem : l ∈ legs)
include uniform toured mem

/-- Each instantiation of a plan follows the edges of its node. -/
theorem follows (made : i ∈ l.tour.plan.instantiations) : i.Follows g a := by
  obtain ⟨first, last, traced⟩ := toured.traced uniform mem
  exact traced.follows uniform (toured.extends_of_mem uniform mem) i made

/-- What a plan makes is of nodes that can be reached, or comes from outside. -/
theorem reachable (made : i ∈ l.tour.plan.instantiations) (inside : a.Inside g i.target) :
    g.Reachable (a.var i.target).node := by
  obtain ⟨first, last, traced⟩ := toured.traced uniform mem
  have made := List.mem_map_of_mem (f := (·.target)) made
  have grows := toured.extends_of_mem uniform mem
  have lt := (toured.sound uniform mem).consistent.due_lt i.target made
  rw [Inside, grows.node_eq lt] at inside
  rw [grows.node lt]
  exact traced.reachable uniform i.target made inside

end Graph.Toured

end ObjectGraph
