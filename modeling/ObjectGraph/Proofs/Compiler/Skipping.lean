import ObjectGraph.Proofs.Compiler.RootOrder
import ObjectGraph.Proofs.Plan.Blocks
import ObjectGraph.Proofs.Plan.Dependency
import ObjectGraph.Proofs.Plan.Storage

/-
  What is lost when a block is skipped.

  The generated code skips a block that fills storage of the composition if the storage is there.
  Whatever else the block makes is then not made, so it must not be needed elsewhere.  Without
  deferred factories that is nearly so: what a block makes inline was made for a use in the block, of a
  node that one edge leads to.  Whoever uses that node is an instance of one node, and by induction
  along the block it is made in the same block (`mem_of_node_eq`).

  But an instance of a resolution is found by the key of its binding, while edges are counted by node.
  So it may be made inline for one contract and be used elsewhere by another one, and
  `keepsValues_iff` says that this is all that can go wrong.
-/

namespace ObjectGraph

open Arena

variable {g : Graph} {a : Arena} {legs : List Leg} {l : Leg} {b b' : Block} {i j : Instantiation}

/-! ## Blocks that may be skipped -/

/-- What the block makes beside its root is handed to instantiations of the block only. -/
def Block.KeepsValues (g : Graph) (a : Arena) (p : Plan) (b : Block) : Prop :=
  ∀ i ∈ b.instantiations, i.target ≠ b.root → ∀ j ∈ p.instantiations, ∀ s ∈ j.supplies,
    a.Inside g s.var → a.storage s.var = a.storage i.target → j ∈ b.instantiations

/-- An instance of a resolution that the block makes beside its root is requested by another contract
    for an instantiation that is not in the block. -/
def Block.LeaksContract (g : Graph) (a : Arena) (p : Plan) (b : Block) : Prop :=
  ∃ i ∈ b.instantiations, i.target ≠ b.root ∧ a.Inside g i.target ∧
    (a.node g i.target).lifetime = .perResolve ∧
    ∃ j ∈ p.instantiations, j ∉ b.instantiations ∧ ∃ s ∈ j.supplies,
      (a.node g s.var).key = (a.node g i.target).key ∧
      (a.var s.var).node ≠ (a.var i.target).node

instance (p : Plan) : Decidable (b.KeepsValues g a p) :=
  inferInstanceAs (Decidable (∀ i ∈ b.instantiations, i.target ≠ b.root → ∀ j ∈ p.instantiations,
    ∀ s ∈ j.supplies, (a.node g s.var).isOutside = false →
      a.storage s.var = a.storage i.target → j ∈ b.instantiations))

/-- The blocks that check whether they are needed are those that fill storage of the composition. -/
theorem Block.checks_iff {ts : TypeOracle} {threadSafe : Bool} :
    (b.annotate ts threadSafe g a).steps.head? = some .checkCreated ↔ b.fillsStorage g a = true := by
  unfold annotate stepsOf
  cases b.fillsStorage g a with
  | true => exact iff_of_true rfl rfl
  | false =>
    refine iff_of_false ?_ Bool.false_ne_true
    dsimp only
    rw [if_neg Bool.false_ne_true]
    split <;> exact nofun

/-! ## One edge, one giver -/

/-- A node that one edge leads to fills a slot of one node. -/
theorem Graph.giver_eq_of_weight (uniform : g.Uniform) {m n : NodeId} {e e' : Edge}
    (edge : e ∈ g.dependencies m) (edge' : e' ∈ g.dependencies n) (same : e.source = e'.source)
    (weight : g.weight e.source ≤ 1) : m = n := by
  by_contra ne
  have known {i : NodeId} {e : Edge} (edge : e ∈ g.dependencies i) :
      i ∈ List.range g.edges.size :=
    List.mem_range.mpr (lt_of_mem_dependencies edge)
  have twice {e e' : Edge} (same : e.source = e'.source) (first : Precedes g.allEdges e e') :
      2 ≤ (g.dependents e.source).length := by
    have uses := (List.Sublist.filter (·.source == e.source) first).length_le
    rw [← (uniform.dependents_perm e.source).length_eq] at uses
    rwa [List.filter_cons_of_pos (by simp), List.filter_cons_of_pos (by simp [same])] at uses
  have one : (g.dependents e.source).length ≤ 1 := Nat.le_trans (Nat.le_add_right _ _) weight
  rcases Precedes.total ne (known edge) (known edge') with first | first
  · refine absurd (twice same ?_) (Nat.not_le_of_lt (Nat.lt_succ_of_le one))
    rw [g.allEdges_eq, Precedes.flatMap_iff]
    exact .inr ⟨m, n, first, edge, edge'⟩
  · refine absurd (twice same.symm ?_) (same ▸ Nat.not_le_of_lt (Nat.lt_succ_of_le one))
    rw [g.allEdges_eq, Precedes.flatMap_iff]
    exact .inr ⟨n, m, first, edge', edge⟩

/-! ## Uses of a plain graph -/

/-- In a plain graph, where a value for a use is made is up to the node. -/
theorem Use.placement_congr {u u' : Use} (prompt : u.isDeferred g a = false)
    (prompt' : u'.isDeferred g a = false)
    (node : (a.var u.supply.var).node = (a.var u'.supply.var).node) :
    u.placement g a = u'.placement g a := by
  rw [placement, prompt, placement, prompt', node]
  rfl

/-- What a plan makes is the variable of the root, or is handed out. -/
theorem Leg.Explained.eq_top_or_handed {top : VariableId} {w : Walk}
    (explained : l.Explained g top w a) {v : VariableId} (made : v ∈ l.tour.plan.targets) :
    v = top ∨ ∃ u ∈ l.tour.plan.uses, u.supply.var = v := by
  obtain ⟨b, b_mem, rfl⟩ | ⟨u, u_mem, var, -⟩ := explained.cases_of_made made
  · exact (explained.opens b b_mem).imp_right fun ⟨u, u_mem, var, _⟩ => ⟨u, u_mem, var⟩
  · exact .inr ⟨u, u_mem, var⟩

/-- What fills slots of one node that one edge leads to is used by instances of one node. -/
theorem Leg.Explained.giver_eq (uniform : g.Uniform) {top : VariableId} {w : Walk}
    (explained : l.Explained g top w a) {u u' : Use} (u_mem : u ∈ l.tour.plan.uses) (u'_mem : u' ∈ l.tour.plan.uses)
    (inside : a.Inside g u.supply.var) (weight : g.weight (a.var u.supply.var).node ≤ 1)
    (same : (a.var u'.supply.var).node = (a.var u.supply.var).node) :
    (a.var u'.target).node = (a.var u.target).node := by
  obtain ⟨e, edge, -, source⟩ := explained.edge u u_mem
  obtain ⟨e', edge', -, source'⟩ := explained.edge u' u'_mem
  have inside' : a.Inside g u'.supply.var := by
    rw [Arena.Inside, Arena.node, same]
    exact inside
  refine Graph.giver_eq_of_weight uniform edge' edge ?_ ?_
  · rw [← source' inside', same, source inside]
  · rw [← source' inside', same]
    exact weight

namespace Graph.Toured

variable (uniform : g.Uniform) (toured : g.Toured legs a) (mem : l ∈ legs)
include uniform toured mem

/-- A plan makes a shared instance once. -/
theorem target_eq_of_shared {v v' : VariableId} (made : v ∈ l.tour.plan.targets)
    (made' : v' ∈ l.tour.plan.targets) (shared : (a.node g v).isShared = true)
    (key : (a.node g v).key = (a.node g v').key) : v = v' := by
  have sound := toured.sound uniform mem
  have grows := toured.extends_of_mem uniform mem
  have rested := (toured.rested uniform).1
  have lt {v : VariableId} (made : v ∈ l.tour.plan.targets) : v < l.tour.arena.vars.size :=
    sound.consistent.due_lt v made
  have found {v : VariableId} (made : v ∈ l.tour.plan.targets)
      (shared : (a.node g v).isShared = true) :
      l.tour.arena.lookup (.binding (a.node g v).key) = some (a.terminal v) :=
    sound.lookup_terminal grows rested.linked (lt made) shared
      (by rw [grows.node_eq (lt made)]; exact sound.consistent.due_reach v made)
  have same := rested.profile_eq uniform (Nat.lt_of_lt_of_le (lt made) grows.size_le)
    (Nat.lt_of_lt_of_le (lt made') grows.size_le) key
  have found' := found made' (by rw [Node.isShared_eq same, shared])
  rw [← key, found made shared] at found'
  exact toured.target_inj uniform mem made made' (Option.some.inj found')

/-- What uses something is made, and without deferred factories it does not use it later. -/
theorem target_made (plain : ∀ n, n < g.nodes.size → (g.node n).isDeferred = false) {u : Use}
    (u_mem : u ∈ l.tour.plan.uses) :
    u.target ∈ l.tour.plan.targets ∧ (a.node g u.target).isDeferred = false := by
  obtain ⟨b, b_mem, -, i, i_mem, target, -⟩ := Plan.exists_block u_mem
  have made : i.target ∈ l.tour.plan.targets :=
    List.mem_map_of_mem (List.mem_flatMap.mpr ⟨b, b_mem, i_mem⟩)
  have lt := (toured.sound uniform mem).consistent.due_lt _ made
  rw [target]
  exact ⟨made, plain _ ((toured.rested uniform).1.node_lt _
    (Nat.lt_of_lt_of_le lt (toured.extends_of_mem uniform mem).size_le))⟩

variable {top : VariableId} {w : Walk} (explained : l.Explained g top w a)
include explained

/-! ## Without deferred factories -/

variable (plain : ∀ n, n < g.nodes.size → (g.node n).isDeferred = false)
include plain

/-- What is handed out is needed by the root. -/
theorem uses_of_top {u : Use} (u_mem : u ∈ l.tour.plan.uses) (inside : a.Inside g u.supply.var) :
    Relation.TransGen g.Uses (a.var top).node (a.var u.supply.var).node := by
  obtain ⟨v, var⟩ : ∃ v, u.supply.var = v := ⟨_, rfl⟩
  induction v using Nat.strong_induction_on generalizing u with
  | _ v ih =>
    obtain ⟨made, prompt⟩ := toured.target_made uniform mem plain u_mem
    obtain ⟨e, edge, -, source⟩ := explained.edge u u_mem
    have uses : g.Uses (a.var u.target).node (a.var u.supply.var).node :=
      ⟨e, edge, (source inside).symm, by rw [Walk.isDeferredUse, ← Arena.node, prompt]; rfl⟩
    obtain eq | ⟨u', u'_mem, var'⟩ := explained.eq_top_or_handed made
    · rw [eq] at uses
      exact .single uses
    · rw [← var'] at uses
      refine (ih u'.supply.var ?_ u'_mem ?_ rfl).tail uses
      · rw [var', ← var]
        exact (explained.newer u u_mem inside).1
      · rw [var']
        exact toured.inside_target uniform mem u_mem

/-- Another instance of what is made inline is made for a use in its block as well: it has no block of
    its own, and the root does not need itself. -/
theorem exists_use_of_node_eq (acyclic : ∀ n, ¬ Relation.TransGen g.Uses n n) {u : Use}
    (u_mem : u ∈ l.tour.plan.uses) (inside : a.Inside g u.supply.var)
    (inline : u.placement g a = .inline) (b_mem : b ∈ l.tour.plan.blocks)
    (j_mem : j ∈ b.instantiations)
    (same : (a.var j.target).node = (a.var u.supply.var).node) :
    ∃ u' ∈ l.tour.plan.uses, u'.block = b.root ∧ u'.supply.var = j.target := by
  have apart : j.target ≠ top := fun eq => by
    have loop := toured.uses_of_top uniform mem explained plain u_mem inside
    rw [← same, eq] at loop
    exact acyclic _ loop
  have prompt {u : Use} (u_mem : u ∈ l.tour.plan.uses) : u.isDeferred g a = false := by
    rw [Use.isDeferred, (toured.target_made uniform mem plain u_mem).2]
    rfl
  obtain root | ⟨u', u'_mem, block', var', -⟩ := (explained.fills b b_mem).2 j j_mem
  · obtain eq | ⟨u', u'_mem, var', placed⟩ := explained.opens b b_mem
    · exact (apart (root.trans eq)).elim
    · have node : (a.var u'.supply.var).node = (a.var u.supply.var).node :=
        by rw [var', ← root, same]
      have eq := Use.placement_congr (prompt u'_mem) (prompt u_mem) node
      cases placed.symm.trans (eq.trans inline)
  · exact ⟨u', u'_mem, block', var'⟩

/-- In a block that fills storage of the composition, all instances of the nodes that it makes are
    made there. -/
theorem mem_of_node_eq (acyclic : ∀ n, ¬ Relation.TransGen g.Uses n n)
    (b_mem : b ∈ l.tour.plan.blocks) (fills : b.fillsStorage g a = true)
    (i_mem : i ∈ b.instantiations) (inside : a.Inside g i.target)
    (j_mem : j ∈ l.tour.plan.instantiations)
    (same : (a.var j.target).node = (a.var i.target).node) : j ∈ b.instantiations := by
  obtain ⟨v, target⟩ : ∃ v, i.target = v := ⟨_, rfl⟩
  -- by induction on the variables: a variable is newer than the one whose slot it fills
  induction v using Nat.strong_induction_on generalizing i j with
  | _ v ih =>
    obtain root | ⟨u, u_mem, block, var, inline⟩ := (explained.fills b b_mem).2 i i_mem
    · have shared : (a.node g i.target).isShared = true := by
        rw [Block.fillsStorage, Bool.and_eq_true] at fills
        rw [root]
        exact Node.isShared_of_isFlagged (Bool.or_eq_true_iff.mpr (.inr fills.1))
      refine toured.mem_of_target uniform mem b_mem i_mem j_mem
        (toured.target_eq_of_shared uniform mem ?_ ?_ shared ?_).symm
      · exact List.mem_map_of_mem (List.mem_flatMap.mpr ⟨b, b_mem, i_mem⟩)
      · exact List.mem_map_of_mem j_mem
      · rw [Arena.node, Arena.node, same]
    · rw [← var] at inside same
      obtain ⟨b', b'_mem, j_mem'⟩ := List.mem_flatMap.mp j_mem
      obtain ⟨u', u'_mem, block', var'⟩ := toured.exists_use_of_node_eq uniform mem explained plain
        acyclic u_mem inside inline b'_mem j_mem' same
      have giver := explained.giver_eq uniform u_mem u'_mem inside
        (Use.of_placement_inline inline inside).2.2 (var' ▸ same)
      -- so the instances that use the two are in one block
      obtain ⟨i', i'_mem, target'⟩ := toured.exists_user uniform mem explained b_mem u_mem block
      obtain ⟨j', j'_mem, target''⟩ :=
        toured.exists_user uniform mem explained b'_mem u'_mem block'
      have older : i'.target < v := by
        rw [target', ← target, ← var]
        exact (explained.newer u u_mem inside).1
      have together : j' ∈ b.instantiations := by
        refine ih i'.target older i'_mem ?_ (List.mem_flatMap.mpr ⟨b', b'_mem, j'_mem⟩) ?_ rfl
        · rw [target']
          exact toured.inside_target uniform mem u_mem
        · rw [target'', target', giver]
      rwa [toured.block_unique uniform mem b_mem b'_mem together j'_mem rfl]

/-- So are all uses of a node that is made there inline. -/
theorem mem_of_use (acyclic : ∀ n, ¬ Relation.TransGen g.Uses n n)
    (b_mem : b ∈ l.tour.plan.blocks) (fills : b.fillsStorage g a = true) {u u' : Use}
    (u_mem : u ∈ l.tour.plan.uses) (block : u.block = b.root) (inside : a.Inside g u.supply.var)
    (inline : u.placement g a = .inline) (u'_mem : u' ∈ l.tour.plan.uses)
    (same : (a.var u'.supply.var).node = (a.var u.supply.var).node)
    (j_mem : j ∈ l.tour.plan.instantiations) (target : j.target = u'.target) :
    j ∈ b.instantiations := by
  obtain ⟨i, i_mem, target'⟩ := toured.exists_user uniform mem explained b_mem u_mem block
  have giver := explained.giver_eq uniform u_mem u'_mem inside
    (Use.of_placement_inline inline inside).2.2 same
  refine toured.mem_of_node_eq uniform mem explained plain acyclic b_mem fills i_mem ?_ j_mem ?_
  · rw [target']
    exact toured.inside_target uniform mem u_mem
  · rw [target, target', giver]

/-- What is made inline and is not shared is handed out once. -/
theorem use_eq_of_unshared {u u₀ : Use} (u_mem : u ∈ l.tour.plan.uses)
    (inside : a.Inside g u.supply.var) (unshared : (a.node g u.supply.var).isShared = false)
    (u₀_mem : u₀ ∈ l.tour.plan.uses) (inline : u₀.placement g a = .inline)
    (made₀ : u₀.supply.var ∈ l.tour.plan.targets)
    (same : a.terminal u.supply.var = a.terminal u₀.supply.var) : u = u₀ := by
  have linked := (toured.rested uniform).1.linked
  obtain ⟨lt, -⟩ := toured.exists_made uniform mem u_mem
  obtain ⟨lt₀, -⟩ := toured.exists_made uniform mem u₀_mem
  have inside₀ := (toured.rested uniform).inside_congr uniform lt lt₀ same inside
  cases explained.answered u u_mem inside with
  | shared deferred =>
    rw [Use.isDeferred, (toured.target_made uniform mem plain u_mem).2] at deferred
    cases deferred
  | made _ made =>
    exact toured.use_inj uniform mem explained u₀_mem u_mem inside₀ made₀ made same
  | @found k key stored =>
    -- what a block shares has a block of its own
    obtain ⟨_, ⟨⟩, rfl⟩ := Placed.keyOf_unshared unshared key
    obtain ⟨u₂, u₂_mem, -, var, made, hoisted⟩ := explained.hoisted _ _ _ stored
    have same₂ : a.terminal u₂.supply.var = a.terminal u₀.supply.var := by
      rw [var, linked.terminal_terminal lt, same]
    rw [← var] at made hoisted
    cases toured.use_inj uniform mem explained u₀_mem u₂_mem inside₀ made₀ made same₂
    cases inline.symm.trans (Use.placement_of_hoisted hoisted)

end Graph.Toured

/-- A shared instance that is not kept for the composition is one of a resolution. -/
theorem Node.perResolve_of_isShared {n : Node} (inside : n.isOutside = false)
    (shared : n.isShared = true) (narrow : n.lifetime.isCompositionWide = false) :
    n.lifetime = .perResolve := by
  rw [isShared, inside, Bool.false_or] at shared
  cases lifetime : n.lifetime <;> rw [lifetime] at shared narrow <;> first | rfl | contradiction

/-! ## What a skipped block leaks -/

/-- A block that fills storage of the composition keeps its values exactly if it leaks none by another
    contract. -/
theorem Graph.Toured.keeps_iff_not_leaks (founded : g.Founded) (toured : g.Toured legs a)
    (plain : ∀ n, n < g.nodes.size → (g.node n).isDeferred = false) (mem : l ∈ legs)
    (b_mem : b ∈ l.tour.plan.blocks) (fills : b.fillsStorage g a = true) :
    b.KeepsValues g a l.tour.plan ↔ ¬ b.LeaksContract g a l.tour.plan := by
  have uniform := founded.uniform
  obtain ⟨w, explained⟩ := toured.explained uniform mem
  have sound := toured.sound uniform mem
  have grows := toured.extends_of_mem uniform mem
  have rested := (toured.rested uniform).1
  have storage_eq {v : Nat} (lt : v < l.tour.arena.vars.size) : a.storage v = a.terminal v := by
    rw [grows.storage lt, toured.storage_eq uniform plain mem lt,
      grows.terminal_eq sound.consistent.linked rested.linked v lt]
  have handed {i : Instantiation} (i_mem : i ∈ b.instantiations) (ne : i.target ≠ b.root) :=
    ((explained.fills b b_mem).2 i i_mem).resolve_left ne
  have made_lt {i : Instantiation} (i_mem : i ∈ b.instantiations) :
      i.target < l.tour.arena.vars.size :=
    sound.consistent.due_lt _ (List.mem_map_of_mem (List.mem_flatMap.mpr ⟨b, b_mem, i_mem⟩))
  constructor
  · rintro keeps ⟨i, i_mem, ne, inside, lifetime, j, j_mem, out, s, s_mem, key, -⟩
    obtain ⟨u₀, u₀_mem, -, var, -⟩ := handed i_mem ne
    obtain ⟨u, u_mem, -, rfl⟩ := Plan.exists_use j_mem s_mem
    have s_lt := (sound.provided j j_mem u.supply s_mem).1
    have profile := rested.profile_eq uniform (Nat.lt_of_lt_of_le (made_lt i_mem) grows.size_le)
      (Nat.lt_of_lt_of_le s_lt grows.size_le) key.symm
    have inside' : a.Inside g u.supply.var := (Node.isOutside_eq profile).trans inside
    have shared : (a.node g i.target).isShared = true :=
      (Node.isShared_of_lifetime inside (.inr lifetime)).1
    refine out (keeps i i_mem ne j j_mem u.supply s_mem inside' ?_)
    rw [storage_eq s_lt, storage_eq (made_lt i_mem)]
    rw [← var] at inside shared key profile ⊢
    have found := explained.lookup_of_shared u₀_mem inside shared
    have found' := explained.lookup_of_shared u_mem inside'
      (by rw [Node.isShared_eq profile, shared])
    rw [key, found] at found'
    exact (Option.some.inj found').symm
  · intro tight i i_mem ne j j_mem s s_mem inside same
    obtain ⟨u₀, u₀_mem, block, var, inline⟩ := handed i_mem ne
    obtain ⟨u, u_mem, target, rfl⟩ := Plan.exists_use j_mem s_mem
    have s_lt := (sound.provided j j_mem u.supply s_mem).1
    rw [storage_eq s_lt, storage_eq (made_lt i_mem), ← var] at same
    have s_lt' := Nat.lt_of_lt_of_le s_lt grows.size_le
    have lt' : u₀.supply.var < a.vars.size :=
      var ▸ Nat.lt_of_lt_of_le (made_lt i_mem) grows.size_le
    have inside₀ := (toured.rested uniform).inside_congr uniform s_lt' lt' same inside
    have key : (a.node g u.supply.var).key = (a.node g u₀.supply.var).key := by
      rw [← rested.key_terminal _ s_lt', same, rested.key_terminal _ lt']
    have home (node : (a.var u.supply.var).node = (a.var u₀.supply.var).node) :
        j ∈ b.instantiations :=
      toured.mem_of_use uniform mem explained plain founded.acyclic b_mem fills u₀_mem block inside₀
        inline u_mem node j_mem target.symm
    cases shared : (a.node g u₀.supply.var).isShared with
    | false =>
      have made₀ : u₀.supply.var ∈ l.tour.plan.targets :=
        var ▸ List.mem_map_of_mem (List.mem_flatMap.mpr ⟨b, b_mem, i_mem⟩)
      have profile := rested.profile_eq uniform lt' s_lt' key.symm
      refine home ?_
      rw [toured.use_eq_of_unshared uniform mem explained plain u_mem inside
        (by rw [Node.isShared_eq profile, shared]) u₀_mem inline made₀ same]
    | true =>
      have narrow := (Use.of_placement_inline inline inside₀).2.1
      by_contra out
      refine tight ⟨i, i_mem, ne, var ▸ inside₀, ?_, j, j_mem, out, u.supply, s_mem, var ▸ key, ?_⟩
      · rw [← var]
        exact Node.perResolve_of_isShared inside₀ shared narrow
      · rw [← var]
        exact fun node => out (home node)

/-- The theorem for whatever a compiler made: the blocks that check whether their storage is there
    keep their other values, unless an instance of a resolution is used by another contract. -/
theorem Compiler.keepsValues_iff {c : Compiler} {s : Setup} {cancellation : Cancellation}
    {turns : Nat} {report : Compiler.Report} {x : Composition}
    (ended : c.compile turns cancellation s = some report) (ok : report.result = .ok x)
    (plain : ∀ n, n < x.graph.nodes.size → (x.graph.node n).isDeferred = false) {p : Plan}
    (p_mem : p ∈ x.plans) (b_mem : b ∈ p.blocks) (checks : b.steps.head? = some .checkCreated) :
    b.KeepsValues x.graph x.arena p ↔ ¬ b.LeaksContract x.graph x.arena p := by
  obtain ⟨merged, -, st, done, taken, xs, tours, composes⟩ := exists_composes ended ok
  rw [composes.plans] at p_mem
  obtain ⟨t, t_mem, rfl⟩ := List.mem_map.mp p_mem
  obtain ⟨b, b₀_mem, rfl⟩ := List.mem_map.mp b_mem
  rw [← x.graph.tour_legsFrom (a := {}) tours] at t_mem
  obtain ⟨l, l_mem, rfl⟩ := List.mem_map.mp t_mem
  have exact := composes.legs.keeps_iff_not_leaks composes.resolved.founded plain l_mem b₀_mem
    (Block.checks_iff.mp checks)
  unfold Block.KeepsValues Block.LeaksContract at exact ⊢
  rw [Plan.instantiations_annotate]
  exact exact

/-! ## A value that is skipped with its block -/

namespace Sample

/-- Two singletons that use one instance of a resolution by two contracts. -/
def parted : Setup :=
  setup [
    bound ["I", "J"] "P" [] .perResolve,
    service "S" ["I"] .singleton,
    service "Q" ["J"] .singleton,
    service "R" ["S", "Q"] .transient] ["R"]

/-- Tells if some block that checks for its storage does not keep its values. -/
def losesValues (x : Composition) : Bool :=
  x.plans.any fun p => p.blocks.any fun b =>
    b.steps.head? == some .checkCreated && !decide (b.KeepsValues x.graph x.arena p)

theorem parted_loses : (compiled parted).map (fun x =>
    ((List.range x.graph.nodes.size).all fun n => !(x.graph.node n).isDeferred) &&
      losesValues x) = some true := by
  decide +kernel

theorem exists_parted : ∃ report x, bare.compile 50 .never parted = some report ∧
    report.result = .ok x ∧ (∀ n, n < x.graph.nodes.size → (x.graph.node n).isDeferred = false) ∧
    ∃ p ∈ x.plans, ∃ b ∈ p.blocks, b.steps.head? = some .checkCreated ∧
      ¬ b.KeepsValues x.graph x.arena p := by
  obtain ⟨x, compiled, found⟩ := Option.map_eq_some_iff.mp parted_loses
  obtain ⟨report, ended, ok⟩ := exists_report compiled
  obtain ⟨plain, loses⟩ := Bool.and_eq_true_iff.mp found
  refine ⟨report, x, ended, ok, fun n lt => ?_, ?_⟩
  · simpa using List.all_eq_true.mp plain n (List.mem_range.mpr lt)
  · obtain ⟨p, p_mem, loses⟩ := List.any_eq_true.mp loses
    obtain ⟨b, b_mem, loses⟩ := List.any_eq_true.mp loses
    rw [Bool.and_eq_true, beq_iff_eq, Bool.not_eq_true', decide_eq_false_iff_not] at loses
    exact ⟨p, p_mem, b, b_mem, loses⟩

end Sample

namespace Compiler

/-- So a block that may be skipped does not always keep what it makes for itself. -/
theorem values_not_always_kept :
    ¬ ∀ (c : Compiler) (s : Setup) (cancellation : Cancellation) (turns : Nat)
      (report : Compiler.Report) (x : Composition),
      c.compile turns cancellation s = some report → report.result = .ok x →
      (∀ n, n < x.graph.nodes.size → (x.graph.node n).isDeferred = false) →
      ∀ p ∈ x.plans, ∀ b ∈ p.blocks, b.steps.head? = some .checkCreated →
        b.KeepsValues x.graph x.arena p := by
  intro always
  obtain ⟨report, x, ended, ok, plain, p, p_mem, b, b_mem, checks, loses⟩ := Sample.exists_parted
  exact loses (always _ _ _ _ report x ended ok plain p p_mem b b_mem checks)

/-- What is lost in the sample is an instance of a resolution. -/
theorem leaksContract_parted : ∃ report x,
    Sample.bare.compile 50 .never Sample.parted = some report ∧ report.result = .ok x ∧
      ∃ p ∈ x.plans, ∃ b ∈ p.blocks, b.steps.head? = some .checkCreated ∧
        b.LeaksContract x.graph x.arena p := by
  obtain ⟨report, x, ended, ok, plain, p, p_mem, b, b_mem, checks, loses⟩ := Sample.exists_parted
  refine ⟨report, x, ended, ok, p, p_mem, b, b_mem, checks, Classical.byContradiction fun tight => ?_⟩
  exact loses ((Compiler.keepsValues_iff ended ok plain p_mem b_mem checks).mpr tight)

end Compiler

end ObjectGraph
