import Mathlib.Algebra.Order.BigOperators.Group.Finset
import ObjectGraph.Proofs.Plan.Cost

/-
  What a walk may still make.

  A walk never makes more than it can pay for.  A target pays for what its slots have made inline
  (`Stage.load`), and a block pays for the blocks that it causes (`Stage.debt`); the blocks for
  deferred uses have a budget of their own, one price for each node that has no shared variable yet
  (`Walk.owed`).

  Nothing is paid for twice.  A shared instance is made once in a root, since no storage is due twice
  (`Supplied.not_holds`).  An instance that is not shared is made once in a block, if there is more
  than one use of it (`Stage.spent`); otherwise there is one edge to it, and so one slot of the
  target (`Graph.source_notMem_of_weight`).  So one step lemma for each of the two sums is enough:
  supplying a slot raises neither (`Supplied.load_le`, `Supplied.debt_le`).
-/

namespace ObjectGraph

open Arena

variable {g : Graph} {before a a' : Arena}

/-! ## Uses that are not shared -/

/-- A node that one edge leads to fills one slot of the target of that edge. -/
theorem Graph.source_notMem_of_weight (uniform : g.Uniform) {i : NodeId} {e : Edge}
    {rest : List Edge} (edges : e :: rest <:+ g.dependencies i) (weight : g.weight e.source ≤ 1) :
    e.source ∉ rest.map (·.source) := by
  have lt : i < g.edges.size := lt_of_mem_dependencies (edges.subset List.mem_cons_self)
  have whole : (g.dependencies i).Sublist g.allEdges := by
    rw [g.allEdges_eq, List.flatMap_def]
    exact List.sublist_flatten_of_mem (List.mem_map_of_mem (List.mem_range.mpr lt))
  have uses := ((edges.sublist.trans whole).filter (·.source == e.source)).length_le
  rw [← (uniform.dependents_perm e.source).length_eq] at uses
  have one : (g.dependents e.source).length ≤ 1 := Nat.le_trans (Nat.le_add_right _ _) weight
  rw [List.filter_cons_of_pos (by simp), List.length_cons] at uses
  have none : (rest.filter (·.source == e.source)).length = 0 := by
    have := Nat.le_trans uses one
    omega
  intro mem
  obtain ⟨e', mem, same⟩ := List.mem_map.mp mem
  have kept : e' ∈ rest.filter (·.source == e.source) :=
    List.mem_filter.mpr ⟨mem, beq_iff_eq.mpr same⟩
  rw [List.length_eq_zero_iff.mp none] at kept
  cases kept

namespace Placed

/-- The first use within a block is made in a block of its own, and the others find it. -/
theorem hoisted_of_free {u : NodeUse} {block : VariableId}
    (free : a.lookup (.hoisted u.key block) = none) :
    (hoisted a u block).placement = .block ∧
      (hoisted a u block).arena.lookup (.hoisted u.key block) = some a.vars.size := by
  have idle := isCreated_allocate_self a u.node u.request none
  have placed : hoisted a u block = schedule
      (((a.allocateFor u none).2.store (.hoisted u.key block) a.vars.size).setBlockRoot a.vars.size)
      a.vars.size .block := by
    rw [hoisted, free]
    rfl
  rw [placed, schedule_of_idle (by rw [isCreated_setBlockRoot]; exact idle)]
  refine ⟨rfl, ?_⟩
  rw [(sameValues_setCreated _ _ true).lookup, (sameValues_setBlockRoot _ _).lookup]
  exact lookup_store_self _ _ _

/-- What is stored stays where it is. -/
theorem Outcome.lookup_keep {n : NodeId} {q : Request} {p : Placed} (outcome : Outcome g a n q p)
    {k : StorageKey} {v : VariableId} (found : a.lookup k = some v) :
    p.arena.lookup k = some v := by
  cases outcome with
  | refer => exact found
  | there => exact found
  | again => exact ((sameValues_setCreated a _ true).lookup k).trans found
  | remake _ _ _ _ launches => exact (launches.same.lookup k).trans found
  | stock free _ _ launches =>
    rw [launches.same.lookup]
    exact lookup_store_of_free (a := (a.allocate n q none).2) free found
  | fresh _ launches => exact (launches.same.lookup k).trans found

/-- An instance that is not shared is hoisted if it is used more than once, and made for the use
    alone otherwise. -/
theorem of_unshared {n : NodeId} (unshared : (g.node n).isShared = false) (q : Request)
    (block : VariableId) :
    Placed.of g a n q (some block) =
      if g.weight n > 1 then hoisted a ⟨n, (g.node n).key, q⟩ block
      else fresh a ⟨n, (g.node n).key, q⟩ := by
  simp only [Node.isShared, Bool.or_eq_false_iff] at unshared
  obtain ⟨inside, lifetime⟩ := unshared
  unfold Placed.of
  simp only [inside, Bool.false_eq_true, if_false]
  cases kind : (g.node n).lifetime <;> rw [kind] at lifetime <;> first | rfl | cases lifetime

end Placed

namespace Walk

variable {w : Walk} {block : VariableId} {e : Edge}

theorem place_lookup {isDeferred : Bool} {k : StorageKey} {v : VariableId}
    (found : w.arena.lookup k = some v) :
    (w.place g block isDeferred e).arena.lookup k = some v := by
  obtain ⟨-, existing, -, placed⟩ | ⟨-, p, outcome, placed⟩ := place_cases g block isDeferred w e
  · rw [placed]
    exact found
  · obtain ⟨-, placed⟩ | ⟨-, -, placed⟩ := placed
    · rw [placed]
      exact outcome.lookup_keep found
    · rw [placed]
      exact ((sameValues_setBlockRoot _ _).lookup k).trans (outcome.lookup_keep found)

/-- Where an instance that is not shared is made for a use that is not deferred. -/
theorem place_unshared (w : Walk) (block : VariableId)
    (unshared : (g.node e.source).isShared = false) :
    (w.place g block false e).placement = .inline ∧ g.weight e.source ≤ 1 ∨
      (w.place g block false e).placement = .block ∧
        w.arena.lookup (.hoisted (g.node e.source).key block) = none ∧
        ((w.place g block false e).arena.lookup
          (.hoisted (g.node e.source).key block)).isSome = true ∨
      (w.place g block false e).placement = .reference := by
  have placed : w.place g block false e = Placed.of g w.arena e.source e.request (some block) := by
    simp [place]
  rw [placed, Placed.of_unshared unshared]
  split
  · right
    cases found : w.arena.lookup (.hoisted (g.node e.source).key block) with
    | none =>
      obtain ⟨placed, kept⟩ := Placed.hoisted_of_free
        (u := ⟨e.source, (g.node e.source).key, e.request⟩) found
      exact .inl ⟨placed, rfl, Option.isSome_iff_exists.mpr ⟨_, kept⟩⟩
    | some stored => exact .inr (by rw [Placed.hoisted, found]; rfl)
  · rename_i few
    have idle := Placed.isCreated_allocate_self w.arena e.source e.request none
    refine .inl ⟨?_, Nat.le_of_not_lt few⟩
    exact congrArg Placed.placement (Placed.schedule_of_idle idle .inline)

end Walk

/-! ## What is spent -/

/-- A sum pays for a summand that leaves it. -/
theorem sum_spend {nodes nodes' : Finset NodeId} {j : NodeId} {f : NodeId → Nat}
    (mem : j ∈ nodes) (spent : j ∉ nodes') (sub : nodes' ⊆ nodes) :
    f j + ∑ k ∈ nodes', f k ≤ ∑ k ∈ nodes, f k := by
  rw [← Finset.sum_insert spent]
  exact Finset.sum_le_sum_of_subset (Finset.insert_subset mem sub)

/-- What instances of the nodes of variables may cost. -/
noncomputable def Arena.cost (a : Arena) (g : Graph) : List VariableId → Nat
  | [] => 0
  | v :: vs => g.cost (a.var v).node + a.cost g vs

theorem Arena.cost_perm {vs vs' : List VariableId} (perm : vs.Perm vs') :
    a.cost g vs = a.cost g vs' := by
  induction perm with
  | nil => rfl
  | cons v _ ih => rw [Arena.cost, Arena.cost, ih]
  | swap v u vs => exact Nat.add_left_comm _ _ _
  | trans _ _ ih ih' => exact ih.trans ih'

theorem Arena.Extends.cost (grows : a.Extends a') {vs : List VariableId}
    (lt : ∀ v ∈ vs, v < a.vars.size) : a'.cost g vs = a.cost g vs := by
  induction vs with
  | nil => rfl
  | cons v vs ih =>
    rw [List.forall_mem_cons] at lt
    rw [Arena.cost, Arena.cost, grows.node lt.1, ih lt.2]

/-- The nodes without a shared variable for deferred uses. -/
def Walk.unshared (g : Graph) (w : Walk) : Finset NodeId :=
  (Finset.range g.nodes.size).filter fun j => w.shared.lookup j = none

theorem Walk.mem_unshared {w : Walk} {j : NodeId} :
    j ∈ w.unshared g ↔ j < g.nodes.size ∧ w.shared.lookup j = none := by
  simp [Walk.unshared]

/-- What the pending blocks may cost, and those for deferred uses that are still to come. -/
noncomputable def Walk.owed (g : Graph) (w : Walk) : Nat :=
  w.arena.cost g w.pending + ∑ _j ∈ w.unshared g, g.price

namespace Stage

variable {st st' : Stage}

/-- Tells if a variable of the key of a node is due. -/
def holds (g : Graph) (st : Stage) (j : NodeId) : Bool :=
  st.due.any fun v => (st.arena.node g v).key == (g.node j).key

/-- Tells if no further block is needed in the block `block` for uses of a node. -/
def spent (g : Graph) (st : Stage) (block : VariableId) (j : NodeId) : Bool :=
  if (g.node j).isShared then st.holds g j
  else (st.arena.lookup (.hoisted (g.node j).key block)).isSome

/-- The nodes among some that may need a block yet. -/
def unspent (g : Graph) (scope : Finset NodeId) (block : VariableId) (st : Stage) :
    Finset NodeId := scope.filter fun j => !st.spent g block j

/-- What the walk may cost once the current block is complete, if the instances of the block need
    the nodes of `scope`. -/
noncomputable def debt (g : Graph) (scope : Finset NodeId) (block : VariableId) (st : Stage) :
    Nat := st.walk.owed g + ∑ j ∈ st.unspent g scope block, g.cost j

/-- The edges whose slots are yet to be supplied, and not for later. -/
def pressing (g : Graph) (st : Stage) : List Edge :=
  match st.current with
  | some (_, n) => st.ahead.filter fun e => !Walk.isDeferredUse g (g.node n) e
  | none => []

/-- The nodes of which the current instantiation may yet have an instance made inline. -/
def awaited (g : Graph) (st : Stage) : Finset NodeId :=
  ((st.pressing g).map (·.source)).toFinset.filter fun j =>
    !((g.node j).isShared && st.holds g j)

/-- What the block may cost that the walk is in. -/
noncomputable def load (g : Graph) (st : Stage) : Nat :=
  st.arena.cost g st.walk.targets + ∑ j ∈ st.awaited g, g.cost j

theorem holds_iff {j : NodeId} : st.holds g j = true ↔
    ∃ v ∈ st.due, (st.arena.node g v).key = (g.node j).key := by
  simp only [holds, List.any_eq_true, beq_iff_eq]

theorem mem_unspent {scope : Finset NodeId} {block : VariableId} {j : NodeId} :
    j ∈ st.unspent g scope block ↔ j ∈ scope ∧ st.spent g block j = false := by
  simp [unspent]

theorem mem_awaited {j : NodeId} : j ∈ st.awaited g ↔
    (∃ e ∈ st.pressing g, e.source = j) ∧
      ((g.node j).isShared = true → st.holds g j = false) := by
  rw [awaited, Finset.mem_filter, List.mem_toFinset, List.mem_map, Bool.not_eq_true',
    Bool.and_eq_false_imp]

/-! ## Supplying a slot -/

/-- A step that passes variables on owes what it owed before, if it opens no block. -/
theorem Passes.debt_eq (passes : Passes g st st') (scope : Finset NodeId) (block : VariableId)
    (pending : st'.walk.pending = st.walk.pending) :
    st'.debt g scope block = st.debt g scope block := by
  have arena : st'.arena = st.arena := passes.arena
  have holds (j : NodeId) : st'.holds g j = st.holds g j := by
    rw [Bool.eq_iff_iff, holds_iff, holds_iff, arena]
    simp only [passes.due.mem_iff]
  have spent (j : NodeId) : st'.spent g block j = st.spent g block j := by
    rw [Stage.spent, Stage.spent, holds, arena]
  simp only [debt, Walk.owed, Walk.unshared, unspent, spent, pending, passes.shared, passes.arena]

section Supplied

variable {root target : VariableId} {n : NodeId} {e : Edge} {p : Placed} {s : Supply}
  (uniform : g.Uniform) (sound : Sound g before st)
  (supplied : Supplied g before st st' root target n e p s)

include supplied

/-- The pending blocks after a slot was supplied. -/
theorem Supplied.pending : st'.walk.pending.Perm
    (if p.placement = .block then p.var :: st.walk.pending else st.walk.pending) := by
  have due := supplied.effect.due []
  rw [List.append_nil, List.append_nil, supplied.effect.targets] at due
  cases placed : p.placement with
  | inline =>
    rw [Placed.dueAfter_of_ne (by rw [placed]; decide), if_pos placed] at due
    rw [if_neg (by decide)]
    exact ((List.perm_append_left_iff _).mp ((List.perm_cons _).mp due)).symm
  | block =>
    rw [Placed.dueAfter_of_ne (by rw [placed]; decide), if_neg (by rw [placed]; decide)] at due
    rw [if_pos rfl]
    exact ((List.perm_append_left_iff _).mp (List.perm_middle.trans due)).symm
  | reference =>
    rw [Placed.dueAfter, placed] at due
    rw [if_neg (by decide)]
    exact ((List.perm_append_left_iff _).mp due).symm

include sound

/-- What is due of a key stays so. -/
theorem Supplied.holds_mono {j : NodeId} (holds : st.holds g j = true) :
    st'.holds g j = true := by
  rw [holds_iff] at holds ⊢
  obtain ⟨v, mem, key⟩ := holds
  refine ⟨v, supplied.mem_due mem, ?_⟩
  rw [supplied.grown.node_eq (sound.consistent.due_lt v mem), key]

omit sound in
/-- What is put on a stack is due. -/
theorem Supplied.holds_source (placed : p.placement ≠ .reference) :
    st'.holds g e.source = true := by
  refine holds_iff.mpr ⟨p.var, ?_, ?_⟩
  · rw [← supplied.due.mem_iff, Placed.dueAfter_of_ne placed]
    exact List.mem_cons_self
  · rw [Arena.SameValues.node_eq supplied.same, supplied.serves.key]

theorem Supplied.spent_mono {j : NodeId} (spent : st.spent g root j = true) :
    st'.spent g root j = true := by
  unfold Stage.spent at spent ⊢
  cases shared : (g.node j).isShared with
  | true =>
    rw [if_pos shared] at spent
    exact supplied.holds_mono sound spent
  | false =>
    rw [if_neg (Bool.eq_false_iff.mp shared)] at spent
    obtain ⟨v, found⟩ := Option.isSome_iff_exists.mp spent
    refine Option.isSome_iff_exists.mpr ⟨v, ?_⟩
    have kept : p.arena.lookup (.hoisted (g.node j).key root) = some v := by
      rw [supplied.placed]
      exact Walk.place_lookup found
    exact (supplied.same.lookup _).trans kept

include uniform

/-- No storage is due twice, so what is put on a stack for a shared node is the first of its key. -/
theorem Supplied.not_holds (shared : (g.node e.source).isShared = true)
    (placed : p.placement ≠ .reference) : st.holds g e.source = false := by
  rw [Bool.eq_false_iff]
  intro holds
  obtain ⟨v, mem, key⟩ := holds_iff.mp holds
  have c := supplied.serves.consistent
  rw [Placed.dueAfter_of_ne placed] at c
  have n_lt := supplied.source_lt uniform sound
  have v_lt := sound.consistent.due_lt v mem
  have key' : (p.arena.node g v).key = (g.node e.source).key := by
    rw [supplied.serves.extends'.node_eq v_lt, key]
  have ends (u : VariableId) (due : u ∈ p.var :: st.due)
      (same : (p.arena.node g u).key = (g.node e.source).key) :
      p.arena.lookup (.binding (g.node e.source).key) = some (p.arena.terminal u) := by
    have profile := uniform.profile_eq _ _ (c.node_lt u (c.due_lt u due)) n_lt same
    have kept := c.kept u (c.due_lt u due) ((Node.isShared_eq profile).trans shared)
      (c.due_reach u due)
    rwa [same] at kept
  have found := ends v (List.mem_cons_of_mem _ mem) key'
  rw [ends p.var List.mem_cons_self supplied.serves.key] at found
  have nodup := c.due_nodup
  rw [List.map_cons, Option.some.inj found] at nodup
  exact (List.nodup_cons.mp nodup).1 (List.mem_map_of_mem mem)

/-- What a variable needs that is handed out was needed for the slot: a variable from outside may
    be one of another node of its key, but needs nothing. -/
theorem Supplied.below_subset :
    g.below (st'.arena.var p.var).node ⊆ g.below e.source := by
  have var := supplied.effect.var
  cases outside : (g.node e.source).isOutside with
  | false => rw [← var, supplied.node_var outside]
  | true =>
    have outside' := supplied.isOutside_eq uniform sound
    rw [outside, var] at outside'
    rw [Graph.below_of_outside uniform outside']
    exact Finset.empty_subset _

theorem Supplied.cost_le : g.cost (st'.arena.var p.var).node ≤ g.cost e.source :=
  Nat.pow_le_pow_right (Nat.succ_pos _)
    (Finset.card_le_card (supplied.below_subset uniform sound))

/-- A block for a use that is not deferred is the only one for its node in the current block. -/
theorem Supplied.spends (now : Walk.isDeferredUse g (g.node n) e = false)
    (placed : p.placement = .block) :
    st.spent g root e.source = false ∧ st'.spent g root e.source = true := by
  have made : p.placement ≠ .reference := by rw [placed]; decide
  unfold Stage.spent
  cases shared : (g.node e.source).isShared with
  | true => exact ⟨supplied.not_holds uniform sound shared made, supplied.holds_source made⟩
  | false =>
    have eq := supplied.placed
    rw [now] at eq
    obtain ⟨inline, -⟩ | ⟨-, free, kept⟩ | refers :=
      Walk.place_unshared st.walk root shared
    · rw [← eq, placed] at inline
      cases inline
    · refine ⟨congrArg Option.isSome free, ?_⟩
      rw [← eq, ← supplied.same.lookup] at kept
      exact kept
    · rw [← eq] at refers
      exact (made refers).elim

omit uniform in
theorem Supplied.cost_pending_le : st'.arena.cost g st'.walk.pending ≤
    (if p.placement = .block then g.cost (st'.arena.var p.var).node else 0) +
      st.arena.cost g st.walk.pending := by
  have old : st'.arena.cost g st.walk.pending = st.arena.cost g st.walk.pending :=
    supplied.grown.cost fun v mem => sound.consistent.due_lt v
      (List.mem_append_left _ (List.mem_append_right _ mem))
  rw [Arena.cost_perm supplied.pending, ← old]
  split
  · exact Nat.le_refl _
  · exact Nat.le_add_left _ _

omit uniform sound in
/-- A node that has a shared variable keeps it. -/
theorem Supplied.unshared_subset : st'.walk.unshared g ⊆ st.walk.unshared g := by
  intro j mem
  have effect := supplied.effect
  rw [supplied.placed] at effect
  rw [Walk.mem_unshared] at mem ⊢
  refine ⟨mem.1, Option.eq_none_iff_forall_ne_some.mpr fun v found => ?_⟩
  have kept := effect.lookup_keep found
  rw [mem.2] at kept
  cases kept

omit uniform in
theorem Supplied.unspent_subset (scope : Finset NodeId) :
    st'.unspent g scope root ⊆ st.unspent g scope root := by
  intro j mem
  rw [mem_unspent, Bool.eq_false_iff] at mem ⊢
  exact ⟨mem.1, fun spent => mem.2 (supplied.spent_mono sound spent)⟩

/-- Each new block is paid for: by the block it is caused by, or by the budget for deferred uses. -/
theorem Supplied.debt_le {scope : Finset NodeId}
    (needs : Walk.isDeferredUse g (g.node n) e = false → e.source ∈ scope) :
    st'.debt g scope root ≤ st.debt g scope root := by
  have pending := supplied.cost_pending_le sound
  have cost := supplied.cost_le uniform sound
  have unshared := supplied.unshared_subset
  have unspent := supplied.unspent_subset sound scope
  have shared_le := Finset.sum_le_sum_of_subset (f := fun _ => g.price) unshared
  have spent_le := Finset.sum_le_sum_of_subset (f := g.cost) unspent
  show st'.arena.cost g st'.walk.pending + _ + _ ≤ st.arena.cost g st.walk.pending + _ + _
  by_cases placed : p.placement = .block
  · rw [if_pos placed] at pending
    cases use : Walk.isDeferredUse g (g.node n) e with
    | false =>
      obtain ⟨idle, spent⟩ := supplied.spends uniform sound use placed
      have pays : g.cost e.source + _ ≤ _ := sum_spend (mem_unspent.mpr ⟨needs use, idle⟩)
        (fun mem => by rw [mem_unspent, spent] at mem; cases mem.2) unspent
      omega
    | true =>
      obtain ⟨free, -, -⟩ := supplied.first_use use (by rw [placed]; decide)
      have entered : st'.walk.shared.lookup e.source = some p.var := by
        rw [supplied.effect.shared, use, placed]
        exact List.lookup_cons_self
      have pays : g.price + _ ≤ _ := sum_spend (f := fun _ => g.price)
        (Walk.mem_unshared.mpr ⟨supplied.source_lt uniform sound, free⟩)
        (fun mem => by rw [Walk.mem_unshared, entered] at mem; cases mem.2) unshared
      have := g.cost_le_price e.source
      omega
  · rw [if_neg placed] at pending
    omega

omit uniform sound in
/-- What is made for later gets a block. -/
theorem Supplied.now_of_inline (placed : p.placement = .inline) :
    Walk.isDeferredUse g (g.node n) e = false := by
  rw [Bool.eq_false_iff]
  intro use
  obtain ⟨-, block, -⟩ := supplied.first_use use (by rw [placed]; decide)
  rw [placed] at block
  cases block

omit uniform in
theorem Supplied.cost_targets : st'.arena.cost g st'.walk.targets =
    (if p.placement = .inline then g.cost (st'.arena.var p.var).node else 0) +
      st.arena.cost g st.walk.targets := by
  have old : st'.arena.cost g st.walk.targets = st.arena.cost g st.walk.targets :=
    supplied.grown.cost fun v mem => sound.consistent.due_lt v
      (List.mem_append_left _ (List.mem_append_left _ mem))
  rw [supplied.effect.targets, ← old]
  split
  · rfl
  · exact (Nat.zero_add _).symm

omit uniform sound in
theorem Supplied.pressing_eq : st.pressing g =
    (if Walk.isDeferredUse g (g.node n) e then [] else [e]) ++ st'.pressing g := by
  unfold Stage.pressing
  rw [supplied.current', supplied.current, supplied.ahead]
  cases use : Walk.isDeferredUse g (g.node n) e <;> simp [use]

omit uniform in
theorem Supplied.awaited_subset : st'.awaited g ⊆ st.awaited g := by
  intro j mem
  rw [mem_awaited] at mem ⊢
  obtain ⟨⟨e', later, source⟩, free⟩ := mem
  refine ⟨⟨e', ?_, source⟩, fun shared => ?_⟩
  · rw [supplied.pressing_eq]
    exact List.mem_append_right _ later
  · rw [Bool.eq_false_iff]
    intro holds
    have holds' := supplied.holds_mono sound holds
    rw [free shared] at holds'
    cases holds'

/-- A use is made inline for one slot of a target only. -/
theorem Supplied.load_le (slots : st.ahead <:+ g.dependencies n) :
    st'.load g ≤ st.load g := by
  have targets := supplied.cost_targets sound
  have cost := supplied.cost_le uniform sound
  have awaited := supplied.awaited_subset sound
  have awaited_le := Finset.sum_le_sum_of_subset (f := g.cost) awaited
  unfold Stage.load
  by_cases placed : p.placement = .inline
  · rw [if_pos placed] at targets
    have made : p.placement ≠ .reference := by rw [placed]; decide
    have now := supplied.now_of_inline placed
    have expected : e.source ∈ st.awaited g := by
      refine mem_awaited.mpr ⟨⟨e, ?_, rfl⟩, fun shared =>
        supplied.not_holds uniform sound shared made⟩
      rw [supplied.pressing_eq, now]
      exact List.mem_cons_self
    have settled : e.source ∉ st'.awaited g := by
      intro mem
      obtain ⟨⟨e', later, source⟩, free⟩ := mem_awaited.mp mem
      cases shared : (g.node e.source).isShared with
      | true =>
        have holds := supplied.holds_source made
        rw [free shared] at holds
        cases holds
      | false =>
        have eq := supplied.placed
        rw [now] at eq
        obtain ⟨-, few⟩ | ⟨block, -⟩ | refers :=
          Walk.place_unshared st.walk root shared
        · rw [supplied.ahead] at slots
          refine Graph.source_notMem_of_weight uniform slots few (List.mem_map.mpr ⟨e', ?_, source⟩)
          unfold Stage.pressing at later
          rw [supplied.current', supplied.current] at later
          exact (List.mem_filter.mp later).1
        · rw [← eq, placed] at block
          cases block
        · rw [← eq] at refers
          exact made refers
    have pays : g.cost e.source + _ ≤ _ := sum_spend expected settled awaited
    omega
  · rw [if_neg placed] at targets
    omega

end Supplied

end Stage

end ObjectGraph
