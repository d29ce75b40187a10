import Mathlib.Algebra.Order.BigOperators.Group.Finset
import ObjectGraph.Proofs.Graph.Typing
import ObjectGraph.Proofs.Plan.Walk

/-
  What it costs to make an instance of a node.

  An instance is made together with what fills its slots, and with what fills theirs, so a walk
  unfolds the graph into a tree.  Only a deferred use cuts the tree off (`Graph.Uses`).  A resolved
  graph has no cycle of the other uses (`IsResolved.founded`), so below a node there are strictly
  fewer nodes than below the one that uses it.

  `Graph.cost` bounds the tree: an instance pays for one instance of each node below it, with one to
  spare (`sum_cost_lt`).  One is enough, however many slots a node fills, since a walk shares what is
  used more than once.
-/

namespace ObjectGraph

namespace Graph

variable {g : Graph} {i j : NodeId}

/-- An instance of the node `i` is not made without one of the node `j`: `j` fills a slot of `i`,
    and not for later. -/
def Uses (g : Graph) (i j : NodeId) : Prop :=
  ∃ e ∈ g.dependencies i, e.source = j ∧ Walk.isDeferredUse g (g.node i) e = false

/-- A graph that walks come to an end in: edges stay inside, and no node uses itself, not even
    through others. -/
structure Founded (g : Graph) : Prop where
  uniform : g.Uniform
  acyclic : ∀ i, ¬ Relation.TransGen g.Uses i i

/-- What is used in turn by something that is used leads there: it is no value from outside, which
    would use nothing, so it is not deferred. -/
theorem Uniform.leads_of_uses (uniform : g.Uniform) (path : Relation.TransGen g.Uses i j) :
    (g.node j).isOutside = false → Relation.TransGen g.Leads i j := by
  have hasty {i j : NodeId} (uses : g.Uses i j) (inside : (g.node j).isOutside = false) :
      g.Leads i j := by
    obtain ⟨e, edge, rfl, now⟩ := uses
    rw [Walk.isDeferredUse, inside, Bool.not_false, Bool.and_true] at now
    exact ⟨now, e, edge, rfl⟩
  induction path with
  | single uses => exact fun inside => .single (hasty uses inside)
  | tail _ uses ih =>
    intro inside
    refine (ih ?_).tail (hasty uses inside)
    obtain ⟨e, edge, -⟩ := uses
    rw [Bool.eq_false_iff]
    intro outside
    rw [uniform.outside _ outside] at edge
    cases edge

/-- A resolved graph is founded: the search for cycles has found none, and only nodes that it can
    reach have edges at all. -/
theorem IsResolved.founded (resolved : g.IsResolved) : g.Founded where
  uniform := resolved.uniform
  acyclic i loop := by
    have uniform := resolved.uniform
    obtain ⟨j, ⟨e, edge, -⟩, -⟩ := Relation.TransGen.head'_iff.mp loop
    have inside : (g.node i).isOutside = false := by
      rw [Bool.eq_false_iff]
      intro outside
      rw [uniform.outside i outside] at edge
      cases edge
    have circle := uniform.leads_of_uses loop inside
    obtain ⟨r, s, st, done, taken, xs, finished, rfl, -, faultless⟩ := resolved.finished
    obtain ⟨p, selected⟩ := finished.exists_selected_of_dependencies edge
    have reachable := finished.reachable_iff.mpr ⟨p, (finished.chosen selected).1, selected⟩
    obtain ⟨p', reached, needs⟩ := finished.looped_iff.mp ⟨i, reachable, circle⟩
    exact finished.cycleFaults_eq_nil_iff.mp faultless p' reached needs

/-! ## Costs -/

open Classical in
/-- The nodes that have to be made for an instance of a node. -/
noncomputable def below (g : Graph) (i : NodeId) : Finset NodeId :=
  (Finset.range g.nodes.size).filter (Relation.TransGen g.Uses i)

/-- What an instance of a node may cost. -/
noncomputable def cost (g : Graph) (i : NodeId) : Nat := (g.nodes.size + 1) ^ (g.below i).card

/-- What an instance of any node may cost. -/
def price (g : Graph) : Nat := (g.nodes.size + 1) ^ g.nodes.size

theorem cost_pos (g : Graph) (i : NodeId) : 0 < g.cost i := Nat.pow_pos (Nat.succ_pos _)

theorem below_subset_range (g : Graph) (i : NodeId) : g.below i ⊆ Finset.range g.nodes.size := by
  classical exact Finset.filter_subset _ _

theorem card_below_le (g : Graph) (i : NodeId) : (g.below i).card ≤ g.nodes.size := by
  rw [← Finset.card_range g.nodes.size]
  exact Finset.card_le_card (g.below_subset_range i)

/-- No node costs more than the price of the graph. -/
theorem cost_le_price (g : Graph) (i : NodeId) : g.cost i ≤ g.price :=
  Nat.pow_le_pow_right (Nat.succ_pos _) (g.card_below_le i)

/-- Below a node is what it uses at once, directly or not. -/
theorem mem_below (uniform : g.Uniform) : j ∈ g.below i ↔ Relation.TransGen g.Uses i j := by
  classical
  unfold below
  rw [Finset.mem_filter, Finset.mem_range, and_iff_right_iff_imp]
  intro path
  obtain ⟨k, -, e, edge, rfl, -⟩ := Relation.TransGen.tail'_iff.mp path
  exact uniform.source_lt k e edge

theorem mem_below_of_edge (uniform : g.Uniform) {e : Edge} (edge : e ∈ g.dependencies i)
    (now : Walk.isDeferredUse g (g.node i) e = false) : e.source ∈ g.below i :=
  (mem_below uniform).mpr (.single ⟨e, edge, rfl, now⟩)

/-- What is below a node is below all nodes above it. -/
theorem below_subset (uniform : g.Uniform) (mem : j ∈ g.below i) : g.below j ⊆ g.below i := by
  intro k mem'
  rw [mem_below uniform] at mem mem' ⊢
  exact mem.trans mem'

/-- A value from outside needs nothing. -/
theorem below_of_outside (uniform : g.Uniform) (outside : (g.node i).isOutside = true) :
    g.below i = ∅ := by
  refine Finset.eq_empty_of_forall_notMem fun j mem => ?_
  obtain ⟨k, ⟨e, edge, -⟩, -⟩ := Relation.TransGen.head'_iff.mp ((mem_below uniform).mp mem)
  rw [uniform.outside i outside] at edge
  cases edge

/-- What is needed by a node needs less than the node. -/
theorem Founded.card_below_lt (founded : g.Founded) (mem : j ∈ g.below i) :
    (g.below j).card < (g.below i).card := by
  have uniform := founded.uniform
  refine Finset.card_lt_card ((Finset.ssubset_iff_of_subset (below_subset uniform mem)).mpr ?_)
  exact ⟨j, mem, fun loop => founded.acyclic j ((mem_below uniform).mp loop)⟩

/-- An instance pays for one instance of each node below it, and there is something left. -/
theorem Founded.sum_cost_lt (founded : g.Founded) (i : NodeId) :
    ∑ j ∈ g.below i, g.cost j < g.cost i := by
  cases card : (g.below i).card with
  | zero =>
    rw [Finset.card_eq_zero.mp card, Finset.sum_empty]
    exact g.cost_pos i
  | succ c =>
    -- each node below has a lower power, and there are no more of them than the base can pay for
    have each : ∀ j ∈ g.below i, g.cost j ≤ (g.nodes.size + 1) ^ c := by
      intro j mem
      have less := founded.card_below_lt mem
      rw [card] at less
      exact Nat.pow_le_pow_right (Nat.succ_pos _) (by omega)
    calc ∑ j ∈ g.below i, g.cost j
        ≤ (g.below i).card * (g.nodes.size + 1) ^ c := Finset.sum_le_card_nsmul _ _ _ each
      _ ≤ g.nodes.size * (g.nodes.size + 1) ^ c := Nat.mul_le_mul_right _ (g.card_below_le i)
      _ < (g.nodes.size + 1) * (g.nodes.size + 1) ^ c :=
        Nat.mul_lt_mul_of_pos_right (Nat.lt_succ_self _) (Nat.pow_pos (Nat.succ_pos _))
      _ = g.cost i := by rw [cost, card, Nat.pow_succ, Nat.mul_comm]

end Graph

end ObjectGraph
