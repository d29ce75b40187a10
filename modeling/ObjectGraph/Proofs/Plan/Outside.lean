import ObjectGraph.Proofs.Plan.Answer
import ObjectGraph.Proofs.Plan.Storage

/-
  The variables of values from outside.

  A value from outside has one variable in the whole composition: a later use is handed the variable
  that is found under the key, and no new one that refers to it.  So variables of values from outside
  have no links (`Toured.unlinked`), variables of one key are one variable, and a plan that
  hands one out makes it once.
-/

namespace ObjectGraph

open Arena

variable {g : Graph} {a a' before : Arena} {legs : List Leg} {l : Leg}

/-- Variables of values from outside refer to no others. -/
def Arena.Unlinked (g : Graph) (a : Arena) : Prop :=
  ∀ v : Nat, v < a.vars.size → ¬ a.Inside g v → (a.var v).link = none

/-- New variables that refer to others must not be of values from outside. -/
theorem Arena.Unlinked.mono (unlinked : a.Unlinked g) (grows : a.Extends a')
    (new : ∀ v u : Nat, a.vars.size ≤ v → v < a'.vars.size → (a'.var v).link = some u →
      a'.Inside g v) : a'.Unlinked g := by
  intro v lt outside
  by_cases old : v < a.vars.size
  · rw [Arena.Inside, grows.node_eq old] at outside
    rw [grows.link old]
    exact unlinked v old outside
  · exact Option.eq_none_iff_forall_ne_some.mpr fun u leads =>
      outside (new v u (Nat.le_of_not_lt old) lt leads)

/-- A new variable that refers to another one is of the node that is placed, which is not from
    outside. -/
theorem Placed.Outcome.inside_of_link {n : NodeId} {q : Request} {p : Placed} {v u : Nat}
    (outcome : Placed.Outcome g a n q p) (new : a.vars.size ≤ v) (lt : v < p.arena.vars.size)
    (leads : (p.arena.var v).link = some u) : p.arena.Inside g v := by
  -- the one new variable is that of the node
  have node {b : Arena} {link : Option VariableId} (inside : (g.node n).isOutside = false)
      (new : b.vars.size ≤ v) (lt : v < (b.allocate n q link).2.vars.size) :
      (b.allocate n q link).2.Inside g v := by
    have eq : v = b.vars.size := by
      rw [size_allocate] at lt
      omega
    rw [eq, Arena.Inside, node_allocate_self, inside]
  cases outcome with
  | refer _ _ _ _ inside => exact node inside new lt
  | there => exact absurd lt (Nat.not_lt_of_le new)
  | again => exact absurd lt (by simpa [setCreated] using new)
  | @remake s _ _ inside _ _ launches =>
    have same := launches.same
    rw [same.size_eq] at lt
    rw [Arena.Inside, same.node_eq]
    exact node inside (by rw [(sameValues_setCreated a s true).size_eq]; exact new) lt
  | @stock k _ _ _ _ launches =>
    have same := launches.same
    rw [same.size_eq] at lt
    rw [same.link, show ((((a.allocate n q none).2.store k a.vars.size)).var v).link = none from
      link_allocate_new new lt] at leads
    cases leads
  | fresh _ launches =>
    have same := launches.same
    rw [same.size_eq] at lt
    rw [same.link, link_allocate_new new lt] at leads
    cases leads

namespace Stage

variable {st st' : Stage} {root target : VariableId} {n : NodeId} {e : Edge} {p : Placed} {s : Supply}

theorem Supplied.inside_of_link (supplied : Supplied g before st st' root target n e p s) {v u : Nat}
    (new : st.arena.vars.size ≤ v) (lt : v < st'.arena.vars.size)
    (leads : (st'.arena.var v).link = some u) : st'.arena.Inside g v := by
  have same := supplied.same
  rw [same.size_eq] at lt
  rw [same.link] at leads
  rw [Arena.Inside, same.node_eq]
  have placed := supplied.placed
  obtain ⟨deferred, existing, -, refers⟩ | ⟨-, p', outcome, placed'⟩ := Walk.place_cases g root
    (Walk.isDeferredUse g (g.node n) e) st.walk e
  · rw [placed, refers] at lt ⊢
    have eq : v = st.walk.arena.vars.size := by
      have lt : v < (st.walk.arena.allocate e.source e.request (some existing)).2.vars.size := lt
      have new : st.walk.arena.vars.size ≤ v := new
      rw [size_allocate] at lt
      omega
    rw [Walk.isDeferredUse, Bool.and_eq_true, Bool.not_eq_true'] at deferred
    rw [eq]
    exact (congrArg Node.isOutside (node_allocate_self ..)).trans deferred.2
  · obtain ⟨-, eq⟩ | ⟨-, -, eq⟩ := placed'
    · rw [placed, eq] at leads lt ⊢
      exact outcome.inside_of_link new lt leads
    · rw [placed, eq] at leads lt ⊢
      have marked := sameValues_setBlockRoot p'.arena p'.var
      rw [marked.link] at leads
      rw [marked.size_eq] at lt
      rw [marked.node_eq]
      exact outcome.inside_of_link new lt leads

/-- No step links a value from outside. -/
theorem Step.unlinked (uniform : g.Uniform) (sound : Sound g before st)
    (unlinked : st.arena.Unlinked g) (step : Step g st st') : st'.arena.Unlinked g := by
  obtain passes | ⟨_, _, _, _, _, _, supplied⟩ := step.supplied uniform sound
  · rw [show st'.arena = st.arena from passes.arena]
    exact unlinked
  · exact unlinked.mono supplied.grown fun v u => supplied.inside_of_link

theorem Run.unlinked (uniform : g.Uniform) (sound : Sound g before st)
    (unlinked : st.arena.Unlinked g) (run : Run g st st') : st'.arena.Unlinked g := by
  induction run with
  | refl => exact unlinked
  | tail earlier step ih => exact step.unlinked uniform (Run.sound uniform sound earlier) ih

end Stage

namespace Graph.Toured

theorem unlinked (uniform : g.Uniform) (toured : g.Toured legs a) : a.Unlinked g := by
  induction toured with
  | start => exact fun v lt => absurd lt (Nat.not_lt_zero v)
  | @leg legs a root limit t earlier known ends ih =>
    have rested := earlier.rested uniform
    obtain ⟨first, last, traced⟩ := Graph.tour_traced rested uniform known ends
    obtain ⟨p, outcome, serves, -, same, -⟩ := traced.placed
    have placed : first.arena.Unlinked g := by
      refine (ih.mono outcome.extends fun v u => outcome.inside_of_link).mono same.toExtends
        fun v u new lt => ?_
      rw [same.size_eq] at lt
      exact absurd lt (Nat.not_lt_of_le new)
    have walked := traced.run.unlinked uniform traced.sound placed
    rw [traced.arena_eq] at walked
    have size : (t.remaining g).vars.size = t.arena.vars.size := size_evict t.arena _
    exact walked.mono (extends_evict t.arena _) fun v u new lt =>
      absurd (size ▸ lt) (Nat.not_lt_of_le new)

variable (uniform : g.Uniform) (toured : g.Toured legs a)
include uniform toured

/-- Variables of one value from outside are one variable. -/
theorem outside_unique {v w : Nat} (v_lt : v < a.vars.size) (w_lt : w < a.vars.size)
    (outside : ¬ a.Inside g v) (key : (a.node g v).key = (a.node g w).key) : v = w := by
  have rested := toured.rested uniform
  have unlinked := toured.unlinked uniform
  rw [Arena.Inside, Bool.not_eq_false] at outside
  have outlives : (a.node g v).outlivesRoot = true := by
    rw [Node.outlivesRoot, outside, Bool.true_or]
  have outside' : (a.node g w).isOutside = true := by
    rw [Node.isOutside_eq (rested.1.profile_eq uniform v_lt w_lt key), outside]
  have alone {v : Nat} (lt : v < a.vars.size) (outside : (a.node g v).isOutside = true) :
      a.terminal v = v :=
    rested.1.linked.terminal_of_none lt
      (unlinked v lt (by rw [Arena.Inside, outside]; exact Bool.noConfusion))
  have same := rested.terminal_eq uniform v_lt w_lt outlives key
  rwa [alone v_lt outside, alone w_lt outside'] at same

/-- A plan that hands out a value from outside makes its variable. -/
theorem outside_made (mem : l ∈ legs) {u : Use} (u_mem : u ∈ l.tour.plan.uses)
    (outside : ¬ a.Inside g u.supply.var) : u.supply.var ∈ l.tour.plan.targets := by
  have rested := toured.rested uniform
  obtain ⟨lt, v, made, v_lt, same⟩ := toured.exists_made uniform mem u_mem
  have key : (a.node g u.supply.var).key = (a.node g v).key := by
    rw [← rested.1.key_terminal _ lt, ← same, rested.1.key_terminal _ v_lt]
  rwa [toured.outside_unique uniform lt v_lt outside key]

end Graph.Toured

end ObjectGraph
