import ObjectGraph.Proofs.Graph.Typing
import ObjectGraph.Proofs.Plan.Blocks
import ObjectGraph.Proofs.Sample

/-
  Which uses share an instance that is made anew.

  How often a node is used is counted in the whole graph, while what its uses share is kept for one
  block.  So two uses of transients share one exactly if they are in one block and the nodes of both
  are used more than once: each then looks under the key for the block, and whatever is found there
  was made for a use in that block.  A use of a node that nothing else uses looks nowhere, and gets a
  variable that no other use gets (`Graph.Toured.prompt_cases`).

  Contracts of one binding have several nodes but one key, and that is why both have to be asked for
  their weight.  Deferred uses are left out; the table that they go through is told in
  `sharesDeferred_iff`.
-/

namespace ObjectGraph

open Arena

variable {g : Graph} {a : Arena} {legs : List Leg} {l : Leg} {u u' : Use} {n : NodeId}

/-! ## Uses of instances that are made anew -/

/-- The use is of an instance of the node `n` that is made anew, and is not put off until later. -/
structure Use.DrawsFresh (g : Graph) (a : Arena) (n : NodeId) (u : Use) : Prop where
  /-- The node fills the slot of the use. -/
  edge : ∃ e ∈ g.dependencies (a.var u.target).node, e.slot = u.supply.slot ∧ e.source = n
  prompt : (a.node g u.target).isDeferred = false
  inside : (g.node n).isOutside = false
  lifetime : (g.node n).lifetime = .transient ∨ (g.node n).lifetime = .perBlock

instance : Decidable (u.DrawsFresh g a n) :=
  decidable_of_iff ((∃ e ∈ g.dependencies (a.var u.target).node,
      e.slot = u.supply.slot ∧ e.source = n) ∧ (a.node g u.target).isDeferred = false ∧
      (g.node n).isOutside = false ∧
      ((g.node n).lifetime = .transient ∨ (g.node n).lifetime = .perBlock))
    ⟨fun ⟨edge, prompt, inside, lifetime⟩ => ⟨edge, prompt, inside, lifetime⟩,
      fun ⟨edge, prompt, inside, lifetime⟩ => ⟨edge, prompt, inside, lifetime⟩⟩

/-- Of the uses of instances that are made anew, any two of one binding share an instance exactly if
    they are in one block and the nodes of both are used more than once. -/
def Plan.HoistsPerBlock (g : Graph) (a : Arena) (p : Plan) : Prop :=
  ∀ (i j : Nat) (u u' : Use), p.uses[i]? = some u → p.uses[j]? = some u' → i ≠ j →
    ∀ n n', u.DrawsFresh g a n → u'.DrawsFresh g a n' → (g.node n).key = (g.node n').key →
      (a.terminal u.supply.var = a.terminal u'.supply.var ↔
        (∃ b ∈ p.blocks, u ∈ b.uses ∧ u' ∈ b.uses) ∧ 1 < g.weight n ∧ 1 < g.weight n')

theorem Use.DrawsFresh.isShared (draws : u.DrawsFresh g a n) : (g.node n).isShared = false := by
  rw [Node.isShared, draws.inside, Bool.false_or]
  rcases draws.lifetime with eq | eq <;> rw [eq] <;> rfl

/-- A supply is for the one edge of its slot. -/
theorem Instantiation.Follows.fills_of_slot {i : Instantiation} (follows : i.Follows g a)
    (ascending : (g.dependencies (a.var i.target).node).Pairwise fun e e' => e.slot < e'.slot)
    {e : Edge} (edge : e ∈ g.dependencies (a.var i.target).node) {s : Supply}
    (s_mem : s ∈ i.supplies) (slot : e.slot = s.slot) : s.Fills g a e := by
  obtain ⟨e', edge', fills⟩ := forall₂_right follows s_mem
  have once : ((g.dependencies (a.var i.target).node).map (·.slot)).Nodup :=
    List.pairwise_map.mpr (ascending.imp Nat.ne_of_lt)
  rwa [List.inj_on_of_nodup_map once edge edge' (slot.trans fills.slot)]

/-- Nor do two supplies of an instantiation have one slot. -/
theorem Instantiation.Follows.slots_nodup {i : Instantiation} (follows : i.Follows g a)
    (ascending : (g.dependencies (a.var i.target).node).Pairwise fun e e' => e.slot < e'.slot) :
    (i.supplies.map (·.slot)).Nodup := by
  have slots : i.supplies.map (·.slot) = (g.dependencies (a.var i.target).node).map (·.slot) :=
    (map_eq_of_rel follows fun e _ s _ fills => fills.slot.symm).symm
  rw [slots]
  exact List.pairwise_map.mpr (ascending.imp Nat.ne_of_lt)

namespace Graph.Toured

variable (uniform : g.Uniform) (toured : g.Toured legs a) (mem : l ∈ legs)
include uniform toured mem

/-- No use occurs twice in a plan. -/
theorem uses_nodup
    (ascending : ∀ n, (g.dependencies n).Pairwise fun e e' => e.slot < e'.slot) :
    l.tour.plan.uses.Nodup := by
  refine List.Nodup.of_map (fun u => (u.target, u.supply.slot)) ?_
  have eq : l.tour.plan.uses.map (fun u => (u.target, u.supply.slot)) =
      l.tour.plan.instantiations.flatMap fun i => i.supplies.map fun s => (i.target, s.slot) := by
    simp only [Plan.uses, Block.uses, Plan.instantiations, List.map_flatMap, List.flatMap_assoc,
      List.map_map, Function.comp_def]
  rw [eq, List.nodup_flatMap]
  have once := toured.targets_nodup uniform mem
  constructor
  · intro i i_mem
    have slots := (toured.follows uniform mem i_mem).slots_nodup (ascending _)
    refine List.Nodup.of_map Prod.snd ?_
    rwa [List.map_map]
  · refine (List.pairwise_map.mp once).imp fun ne x x_i x_j => ne ?_
    obtain ⟨s, -, rfl⟩ := List.mem_map.mp x_i
    obtain ⟨s', -, eq⟩ := List.mem_map.mp x_j
    exact (congrArg Prod.fst eq).symm

/-- What is handed to such a use is of the node. -/
theorem node_of_draws (ascending : ∀ n, (g.dependencies n).Pairwise fun e e' => e.slot < e'.slot)
    (u_mem : u ∈ l.tour.plan.uses) (draws : u.DrawsFresh g a n) :
    (a.var u.supply.var).node = n := by
  obtain ⟨b, b_mem, -, i, i_mem, target, s_mem⟩ := Plan.exists_block u_mem
  obtain ⟨e, edge, slot, rfl⟩ := draws.edge
  have follows := toured.follows uniform mem (List.mem_flatMap.mpr ⟨b, b_mem, i_mem⟩)
  rw [target] at edge
  exact (follows.fills_of_slot (ascending _) edge s_mem slot).node draws.inside

variable {top : VariableId} {w : Walk} (explained : l.Explained g top w a)
include explained

/-- A use that is not put off, of what is not shared, finds its instance under the key for its block,
    where it was put for a use in the block, or has one made for it alone. -/
theorem prompt_cases (u_mem : u ∈ l.tour.plan.uses) (prompt : (a.node g u.target).isDeferred = false)
    (unshared : (a.node g u.supply.var).isShared = false) :
    (1 < g.weight (a.var u.supply.var).node ∧
      w.arena.lookup (.hoisted (a.node g u.supply.var).key u.block) =
        some (a.terminal u.supply.var) ∧
      ∃ u₁ ∈ l.tour.plan.uses, u₁.block = u.block ∧ a.Inside g u₁.supply.var ∧
        u₁.supply.var ∈ l.tour.plan.targets ∧ 1 < g.weight (a.var u₁.supply.var).node ∧
        a.terminal u₁.supply.var = a.terminal u.supply.var) ∨
    (g.weight (a.var u.supply.var).node ≤ 1 ∧ u.supply.var ∈ l.tour.plan.targets) := by
  have inside : a.Inside g u.supply.var := by
    rw [Node.isShared, Bool.or_eq_false_iff] at unshared
    exact unshared.1
  cases explained.answered u u_mem inside with
  | shared deferred =>
    rw [Use.isDeferred, prompt, Bool.false_and] at deferred
    cases deferred
  | @found k key stored =>
    obtain ⟨_, ⟨⟩, rfl⟩ := Placed.keyOf_unshared unshared key
    obtain ⟨-, reused, -⟩ := Placed.keyOf_hoisted_iff.mp key
    obtain ⟨u₁, mem₁, block, var, made, hoisted⟩ := explained.hoisted _ _ _ stored
    obtain ⟨unshared₁, reused₁, -⟩ := Placed.keyOf_hoisted_iff.mp hoisted
    rw [Node.isShared, Bool.or_eq_false_iff] at unshared₁
    rw [← var] at made unshared₁ reused₁
    refine .inl ⟨reused, stored, u₁, mem₁, block, unshared₁.1, made, reused₁, ?_⟩
    rw [var, (toured.rested uniform).1.linked.terminal_terminal
      (toured.exists_made uniform mem u_mem).1]
  | made alone due =>
    refine .inr ⟨Nat.le_of_not_lt fun reused => ?_, due⟩
    cases (Placed.keyOf_hoisted_iff.mpr ⟨unshared, reused, rfl⟩).symm.trans alone

/-- Two such uses share an instance exactly if both look for it under the key of one block. -/
theorem terminal_eq_iff (u_mem : u ∈ l.tour.plan.uses) (u'_mem : u' ∈ l.tour.plan.uses)
    (ne : u ≠ u') (prompt : (a.node g u.target).isDeferred = false)
    (prompt' : (a.node g u'.target).isDeferred = false)
    (unshared : (a.node g u.supply.var).isShared = false)
    (unshared' : (a.node g u'.supply.var).isShared = false)
    (key : (a.node g u.supply.var).key = (a.node g u'.supply.var).key) :
    a.terminal u.supply.var = a.terminal u'.supply.var ↔ u.block = u'.block ∧
      1 < g.weight (a.var u.supply.var).node ∧ 1 < g.weight (a.var u'.supply.var).node := by
  have cases' := toured.prompt_cases uniform mem explained u'_mem prompt' unshared'
  constructor
  · intro same
    obtain ⟨reused, -, u₁, mem₁, block₁, inside₁, made₁, heavy₁, same₁⟩ | ⟨light, made⟩ :=
      toured.prompt_cases uniform mem explained u_mem prompt unshared
    · obtain ⟨reused', -, u₂, mem₂, block₂, inside₂, made₂, -, same₂⟩ | ⟨light', made'⟩ := cases'
      · have eq := toured.use_inj uniform mem explained mem₁ mem₂ inside₁ made₁ made₂
          (same₂.trans (same.symm.trans same₁.symm))
        exact ⟨block₁.symm.trans (eq ▸ block₂), reused, reused'⟩
      · -- what is kept for a block is of a node that is used more than once
        have eq := toured.target_inj uniform mem made₁ made' (same₁.trans same)
        rw [eq] at heavy₁
        exact absurd heavy₁ (Nat.not_lt.mpr light')
    · obtain ⟨-, -, u₂, mem₂, -, -, made₂, heavy₂, same₂⟩ | ⟨-, made'⟩ := cases'
      · have eq := toured.target_inj uniform mem made₂ made (same₂.trans same.symm)
        rw [eq] at heavy₂
        exact absurd heavy₂ (Nat.not_lt.mpr light)
      · -- two uses do not have one variable made for them
        rw [Node.isShared, Bool.or_eq_false_iff] at unshared
        exact absurd (toured.use_inj uniform mem explained u_mem u'_mem unshared.1 made made'
          same.symm).symm ne
  · rintro ⟨block, reused, reused'⟩
    obtain ⟨-, stored, -⟩ | ⟨light, -⟩ :=
      toured.prompt_cases uniform mem explained u_mem prompt unshared
    · obtain ⟨-, stored', -⟩ | ⟨light', -⟩ := cases'
      · rw [key, block] at stored
        exact Option.some.inj (stored.symm.trans stored')
      · exact absurd reused' (Nat.not_lt.mpr light')
    · exact absurd reused (Nat.not_lt.mpr light)

/-- Uses are in one block if it makes one variable. -/
theorem block_eq_iff (u_mem : u ∈ l.tour.plan.uses) (u'_mem : u' ∈ l.tour.plan.uses) :
    u.block = u'.block ↔ ∃ b ∈ l.tour.plan.blocks, u ∈ b.uses ∧ u' ∈ b.uses := by
  constructor
  · intro same
    obtain ⟨b, b_mem, u_in⟩ := List.mem_flatMap.mp u_mem
    obtain ⟨b', b'_mem, u'_in⟩ := List.mem_flatMap.mp u'_mem
    cases toured.block_eq_of_root uniform mem explained b_mem b'_mem
      ((Block.mem_uses.mp u_in).1.symm.trans (same.trans (Block.mem_uses.mp u'_in).1))
    exact ⟨b, b_mem, u_in, u'_in⟩
  · rintro ⟨b, -, u_in, u'_in⟩
    rw [(Block.mem_uses.mp u_in).1, (Block.mem_uses.mp u'_in).1]

end Graph.Toured

/-- In the plans of all visits, instances that are made anew are shared within blocks only. -/
theorem plan_hoistsPerBlock (resolved : g.IsResolved) (visits : g.Visits legs a) (mem : l ∈ legs) :
    l.tour.plan.HoistsPerBlock g a := by
  intro i j u u' at_i at_j apart n n' draws draws' key
  have uniform := resolved.uniform
  have toured := visits.toured
  obtain ⟨w, explained⟩ := toured.explained uniform mem
  have u_mem := List.mem_of_getElem? at_i
  have u'_mem := List.mem_of_getElem? at_j
  have ne : u ≠ u' := by
    rintro rfl
    obtain ⟨i_lt, eq⟩ := List.getElem?_eq_some_iff.mp at_i
    obtain ⟨j_lt, eq'⟩ := List.getElem?_eq_some_iff.mp at_j
    have once := toured.uses_nodup uniform mem resolved.ascending
    exact apart ((List.Nodup.getElem_inj_iff once).mp (eq.trans eq'.symm))
  have node := toured.node_of_draws uniform mem resolved.ascending u_mem draws
  have node' := toured.node_of_draws uniform mem resolved.ascending u'_mem draws'
  rw [← toured.block_eq_iff uniform mem explained u_mem u'_mem, ← node, ← node']
  refine toured.terminal_eq_iff uniform mem explained u_mem u'_mem ne draws.prompt draws'.prompt
    ?_ ?_ ?_
  · rw [Arena.node, node]
    exact draws.isShared
  · rw [Arena.node, node']
    exact draws'.isShared
  · rw [Arena.node, Arena.node, node, node']
    exact key

/-- A transient that the root uses twice, and a singleton below it once more. -/
def Sample.tripled : Graph := Sample.graph <| Sample.setup [
  Sample.service "T" [] .transient,
  Sample.service "S" ["T"] .singleton,
  Sample.service "R" ["T", "S", "T"] .transient] ["R"]

/-- In this plan two uses of the transient share an instance, and the third one does not, although its
    node is used more than once as well. -/
theorem plan_hoistsPerBlock_tripled : Sample.tripled.IsResolved ∧
    ∃ legs a, Sample.tripled.Visits legs a ∧ ∃ l ∈ legs,
      l.tour.plan.HoistsPerBlock Sample.tripled a ∧ ∃ n, 1 < Sample.tripled.weight n ∧
        ∃ u ∈ l.tour.plan.uses, ∃ u' ∈ l.tour.plan.uses, ∃ u'' ∈ l.tour.plan.uses, u ≠ u' ∧
          (∀ x ∈ [u, u', u''], x.DrawsFresh Sample.tripled a n) ∧
          a.terminal u.supply.var = a.terminal u'.supply.var ∧
          a.terminal u.supply.var ≠ a.terminal u''.supply.var := by
  have resolved : Sample.tripled.IsResolved := Sample.isResolved _ (by decide +kernel)
  obtain ⟨legs, a, visits, l, mem, n, -, found⟩ :
      ∃ legs a, Sample.tripled.Visits legs a ∧ ∃ l ∈ legs, ∃ n < Sample.tripled.nodes.size,
        1 < Sample.tripled.weight n ∧
        ∃ u ∈ l.tour.plan.uses, ∃ u' ∈ l.tour.plan.uses, ∃ u'' ∈ l.tour.plan.uses, u ≠ u' ∧
          (∀ x ∈ [u, u', u''], x.DrawsFresh Sample.tripled a n) ∧
          a.terminal u.supply.var = a.terminal u'.supply.var ∧
          a.terminal u.supply.var ≠ a.terminal u''.supply.var :=
    Graph.visits_of_any (by decide +kernel)
  exact ⟨resolved, legs, a, visits, l, mem, plan_hoistsPerBlock resolved visits mem, n, found⟩

end ObjectGraph
