import Mathlib.Algebra.Order.BigOperators.Group.Finset
import ObjectGraph.Proofs.Plan.Budget
import ObjectGraph.Proofs.Plan.Visits
import ObjectGraph.Proofs.Sample

/-
  Walks through resolved graphs come to their end.

  Supplying the slots of a target raises neither of the two sums of the budget (`Stage.Pays`).  To
  take a target lowers the load of its block (`load_take`), and to open a block lowers what is owed
  (`debt_open`).  So each loop ends before its limit does, by induction on the limit:
  `makeTargets_ends` and `makeBlocks_ends`.

  `visit_ends` is the outcome: whatever the roots are, and whatever earlier visits have left, a visit
  that is not cancelled succeeds.
-/

namespace ObjectGraph

open Arena

variable {g : Graph} {before a : Arena} {scope : Finset NodeId} {block : VariableId}

namespace Stage

variable {st st' st'' : Stage}

/-! ## One target -/

/-- What the block has yet to make needs no nodes but those of `scope`. -/
structure Confined (g : Graph) (scope : Finset NodeId) (st : Stage) : Prop where
  targets : ∀ v ∈ st.walk.targets, g.below (st.arena.var v).node ⊆ scope
  current : ∀ t n, st.current = some (t, n) → g.below n ⊆ scope

theorem confined_within {w : Walk} {found : List Block} {made : List Instantiation}
    (targets : ∀ v ∈ w.targets, g.below (w.arena.var v).node ⊆ scope) :
    (within w found block made).Confined g scope := by
  refine ⟨targets, ?_⟩
  intro t n current
  cases current

/-- From one stage of a block to a later one, what is made is paid for. -/
structure Pays (g : Graph) (scope : Finset NodeId) (block : VariableId) (st st' : Stage) :
    Prop where
  load_le : st'.load g ≤ st.load g
  debt_le : st'.debt g scope block ≤ st.debt g scope block
  confined : st'.Confined g scope

theorem Pays.trans (first : Pays g scope block st st') (later : Pays g scope block st' st'') :
    Pays g scope block st st'' where
  load_le := Nat.le_trans later.load_le first.load_le
  debt_le := Nat.le_trans later.debt_le first.debt_le
  confined := later.confined

theorem Supplied.pays {target : VariableId} {n : NodeId} {e : Edge} {p : Placed} {s : Supply}
    (uniform : g.Uniform) (sound : Sound g before st)
    (supplied : Supplied g before st st' block target n e p s)
    (slots : st.ahead <:+ g.dependencies n) (confined : st.Confined g scope) :
    Pays g scope block st st' := by
  have within := confined.current target n supplied.current
  have needs (now : Walk.isDeferredUse g (g.node n) e = false) : e.source ∈ g.below n :=
    Graph.mem_below_of_edge uniform (supplied.edge sound) now
  have old : ∀ v ∈ st.walk.targets, g.below (st'.arena.var v).node ⊆ scope := by
    intro v mem
    have lt := sound.consistent.due_lt v (List.mem_append_left _ (List.mem_append_left _ mem))
    rw [supplied.grown.node lt]
    exact confined.targets v mem
  refine ⟨supplied.load_le uniform sound slots,
    supplied.debt_le uniform sound fun now => within (needs now), ?_, fun t m eq => ?_⟩
  · rw [supplied.effect.targets]
    split
    · rename_i inline
      refine List.forall_mem_cons.mpr ⟨?_, old⟩
      exact (supplied.below_subset uniform sound).trans
        ((Graph.below_subset uniform (needs (supplied.now_of_inline inline))).trans within)
    · exact old
  · rw [supplied.current'] at eq
    exact confined.current t m eq

/-- Supplying the slots of a target makes nothing that is not paid for. -/
theorem supplyAll_pays (uniform : g.Uniform) (found : List Block) (made : List Instantiation)
    (target : VariableId) (n : NodeId) (edges : List Edge) :
    ∀ {w : Walk} {supplies : List Supply},
      Sound g before (supplying w found block made target n supplies edges) →
      edges <:+ g.dependencies n →
      (supplying w found block made target n supplies edges).Confined g scope →
      Pays g scope block (supplying w found block made target n supplies edges)
        (supplying (w.supplyAll g block (g.node n) edges).2 found block made target n
          (supplies ++ (w.supplyAll g block (g.node n) edges).1) []) := by
  induction edges with
  | nil =>
    intro w supplies _ _ confined
    rw [Walk.supplyAll, List.append_nil]
    exact ⟨Nat.le_refl _, Nat.le_refl _, confined⟩
  | cons e rest ih =>
    intro w supplies sound slots confined
    have supplied := sound.supplied uniform
    have first := supplied.pays uniform sound slots confined
    have later := ih (supplied.sound uniform sound) ((List.suffix_cons e rest).trans slots)
      first.confined
    rw [List.append_assoc] at later
    exact first.trans later

/-! ## One block -/

section Within

variable {w : Walk} {found : List Block} {made : List Instantiation} {target : VariableId}
  {n : NodeId} {supplies : List Supply}

theorem awaited_within : (within w found block made).awaited g = ∅ := rfl

theorem load_within :
    (within w found block made).load g = w.arena.cost g w.targets := by
  unfold load
  rw [awaited_within, Finset.sum_empty, Nat.add_zero]
  rfl

/-- A target pays for what its slots have made inline, and is itself not made again. -/
theorem load_take (founded : g.Founded) (found : List Block) (block : VariableId)
    (made : List Instantiation) {targets : List VariableId}
    (next : w.targets = target :: targets) :
    (supplying { w with targets } found block made target (w.arena.var target).node []
      (g.dependencies (w.arena.var target).node)).load g < (within w found block made).load g := by
  set st := supplying { w with targets } found block made target (w.arena.var target).node []
    (g.dependencies (w.arena.var target).node)
  have below : st.awaited g ⊆ g.below (w.arena.var target).node := by
    intro j mem
    obtain ⟨⟨e, pressing, rfl⟩, -⟩ := mem_awaited.mp mem
    obtain ⟨edge, now⟩ := List.mem_filter.mp pressing
    exact Graph.mem_below_of_edge founded.uniform edge (Bool.not_eq_true' _ ▸ now)
  have awaited := Finset.sum_le_sum_of_subset (f := g.cost) below
  have paid := founded.sum_cost_lt (w.arena.var target).node
  rw [load_within, next, Arena.cost]
  show w.arena.cost g targets + ∑ j ∈ st.awaited g, g.cost j < _
  omega

theorem load_finish :
    (within w found block ({ target, supplies } :: made)).load g =
      (supplying w found block made target n supplies []).load g := by
  rw [load_within, load, show (supplying w found block made target n supplies []).awaited g = ∅
    from rfl, Finset.sum_empty, Nat.add_zero]
  rfl

end Within

/-- What a target needs is paid for when it is made, and it is not made again. -/
theorem makeTarget_pays (founded : g.Founded) {w : Walk} {found : List Block}
    {made : List Instantiation} {target : VariableId} {targets : List VariableId}
    (sound : Sound g before (within w found block made))
    (confined : (within w found block made).Confined g scope)
    (next : w.targets = target :: targets) :
    let n := (w.arena.var target).node
    let all := Walk.supplyAll g block (g.node n) { w with targets } (g.dependencies n)
    let later := within all.2 found block ({ target, supplies := all.1 } :: made)
    Sound g before later ∧ Pays g scope block (within w found block made) later ∧
      later.load g < (within w found block made).load g := by
  intro n all later
  -- the target is taken from the stack
  have take := Step.take (g := g) w found block made target targets next
  have start := take.sound founded.uniform sound
  have lighter := load_take founded found block made next
  have taken := (take.passes rfl).debt_eq scope block rfl
  have first : (supplying { w with targets } found block made target n []
      (g.dependencies n)).Confined g scope := by
    have known : ∀ v ∈ target :: targets, g.below (w.arena.var v).node ⊆ scope := by
      rw [← next]
      exact confined.targets
    refine ⟨fun v mem => known v (List.mem_cons_of_mem target mem), ?_⟩
    intro t m current
    cases current
    exact known target List.mem_cons_self
  -- its slots are supplied
  have pays := supplyAll_pays founded.uniform found made target n (g.dependencies n) start
    List.suffix_rfl first
  have supplied := (supplyAll_run found block made target n (g.dependencies n)
    { w with targets } []).sound founded.uniform start
  rw [List.nil_append] at pays supplied
  -- and its instantiation is complete
  have finish := Step.finish (g := g) all.2 found block made target n all.1
  have finished := (finish.passes rfl).debt_eq scope block rfl
  have load : later.load g < (within w found block made).load g := by
    rw [load_finish]
    exact Nat.lt_of_le_of_lt pays.load_le lighter
  refine ⟨finish.sound founded.uniform supplied, ⟨Nat.le_of_lt load, ?_,
    confined_within pays.confined.targets⟩, load⟩
  rw [finished, ← taken]
  exact pays.debt_le

/-- The targets of a block are made within their load. -/
theorem makeTargets_ends (founded : g.Founded) (found : List Block) (limit : Nat) :
    ∀ {w : Walk} {made : List Instantiation}, Sound g before (within w found block made) →
      (within w found block made).Confined g scope →
      (within w found block made).load g ≤ limit →
      ∃ made' w', Walk.makeTargets g block limit w made = some (made', w') ∧
        (within w' found block made').debt g scope block ≤
          (within w found block made).debt g scope block := by
  induction limit with
  | zero =>
    intro w made _ _ load
    cases next : w.targets with
    | nil => exact ⟨made, w, by simp [Walk.makeTargets, next], Nat.le_refl _⟩
    | cons target targets =>
      rw [load_within, next, Arena.cost] at load
      have := g.cost_pos (w.arena.var target).node
      omega
  | succ limit ih =>
    intro w made sound confined load
    cases next : w.targets with
    | nil => exact ⟨made, w, by simp [Walk.makeTargets, next], Nat.le_refl _⟩
    | cons target targets =>
      obtain ⟨sound', pays, lighter⟩ := makeTarget_pays founded sound confined next
      obtain ⟨made', w', ends, debt⟩ := ih sound' pays.confined (by omega)
      refine ⟨made', w', ?_, Nat.le_trans debt pays.debt_le⟩
      simp only [Walk.makeTargets, next]
      exact ends

/-! ## One root -/

/-- A block pays for the blocks that it causes, and is itself not made again. -/
theorem debt_open (founded : g.Founded) {w : Walk} (found : List Block) {root : VariableId}
    {pending : List VariableId} (next : w.pending = root :: pending) :
    (within { w with pending, targets := [root] } found root []).debt g
      (g.below (w.arena.var root).node) root < w.owed g := by
  set st := within { w with pending, targets := [root] } found root []
  have unspent : st.unspent g (g.below (w.arena.var root).node) root ⊆
      g.below (w.arena.var root).node := Finset.filter_subset _ _
  have unspent_le := Finset.sum_le_sum_of_subset (f := g.cost) unspent
  have paid := founded.sum_cost_lt (w.arena.var root).node
  rw [Walk.owed, next, Arena.cost]
  show w.arena.cost g pending + ∑ _j ∈ w.unshared g, g.price +
    ∑ j ∈ st.unspent g (g.below (w.arena.var root).node) root, g.cost j < _
  omega

/-- A block is made within the price of an instance, and less is owed afterwards. -/
theorem makeBlock_ends (founded : g.Founded) {inner : Nat} (price : g.price ≤ inner) {w : Walk}
    {found : List Block} {root : VariableId} {pending : List VariableId}
    (sound : Sound g before (between w found)) (idle : w.targets = [])
    (next : w.pending = root :: pending) :
    ∃ made w', Walk.makeTargets g root inner { w with pending, targets := [root] } [] =
        some (made, w') ∧
      Sound g before (between w' ({ root, instantiations := made } :: found)) ∧
      w'.targets = [] ∧ w'.owed g < w.owed g := by
  have start := (Step.openBlock (g := g) w found root pending next idle).sound
    founded.uniform sound
  have opened := debt_open founded found next
  have confined : (within { w with pending, targets := [root] } found root []).Confined g
      (g.below (w.arena.var root).node) := by
    refine confined_within fun v mem => ?_
    cases List.mem_singleton.mp mem
    exact Finset.Subset.refl _
  have load : (within { w with pending, targets := [root] } found root []).load g ≤ inner := by
    rw [load_within]
    exact Nat.le_trans (g.cost_le_price _) price
  obtain ⟨made, w', ends, debt⟩ := makeTargets_ends founded found inner start confined load
  obtain ⟨run, idle'⟩ := makeTargets_run found root inner ends
  have sound' := run.sound founded.uniform start
  refine ⟨made, w', ends, ?_, idle', ?_⟩
  · exact (Step.closeBlock w' found root made idle').sound founded.uniform sound'
  · have owed : w'.owed g ≤ (within w' found root made).debt g
      (g.below (w.arena.var root).node) root := Nat.le_add_right _ _
    omega

/-- The blocks of a root are made within what is owed for them. -/
theorem makeBlocks_ends (founded : g.Founded) {inner : Nat} (price : g.price ≤ inner)
    (limit : Nat) : ∀ {w : Walk} {found : List Block}, Sound g before (between w found) →
      w.targets = [] → w.owed g ≤ limit →
      ∃ blocks w', Walk.makeBlocks g inner limit w found = some (blocks, w') := by
  induction limit with
  | zero =>
    intro w found _ _ owed
    cases next : w.pending with
    | nil => exact ⟨found.reverse, w, by simp [Walk.makeBlocks, next]⟩
    | cons root pending =>
      rw [Walk.owed, next, Arena.cost] at owed
      have := g.cost_pos (w.arena.var root).node
      omega
  | succ limit ih =>
    intro w found sound idle owed
    cases next : w.pending with
    | nil => exact ⟨found.reverse, w, by simp [Walk.makeBlocks, next]⟩
    | cons root pending =>
      obtain ⟨made, w₁, inside, sound₁, idle₁, less⟩ :=
        makeBlock_ends founded price sound idle next
      obtain ⟨blocks, w', ends⟩ := ih sound₁ idle₁ (by omega)
      refine ⟨blocks, w', ?_⟩
      simp only [Walk.makeBlocks, next]
      exact Option.bind_eq_some_iff.mpr ⟨_, inside, ends⟩

end Stage

/-! ## All roots -/

namespace Graph

/-- The limit of a walk pays for a first block and for those of all deferred uses. -/
theorem price_le_walkLimit (g : Graph) : (g.nodes.size + 1) * g.price ≤ g.walkLimit := by
  calc (g.nodes.size + 1) * g.price
      = (g.nodes.size + 1) ^ (g.nodes.size + 1) := by rw [price, Nat.pow_succ, Nat.mul_comm]
    _ ≤ (g.nodes.size + 2) ^ (g.nodes.size + 1) := Nat.pow_le_pow_left (Nat.le_succ _) _
    _ ≤ (g.nodes.size + 2) ^ (g.nodes.size + 2) :=
      Nat.pow_le_pow_right (Nat.succ_pos _) (Nat.le_succ _)

theorem owed_first_le (g : Graph) (a : Arena) (v : VariableId) :
    ({ arena := a, pending := [v] } : Walk).owed g ≤ g.walkLimit := by
  set w : Walk := { arena := a, pending := [v] }
  have nodes : (w.unshared g).card ≤ g.nodes.size := by
    rw [← Finset.card_range g.nodes.size]
    exact Finset.card_le_card (Finset.filter_subset _ _)
  have shared : ∑ _j ∈ w.unshared g, g.price = (w.unshared g).card * g.price :=
    Finset.sum_const_nat fun _ _ => rfl
  calc w.owed g
      = g.cost (a.var v).node + (w.unshared g).card * g.price := by
        rw [Walk.owed, shared, Arena.cost]
        rfl
    _ ≤ g.price + g.nodes.size * g.price :=
      Nat.add_le_add (g.cost_le_price _) (Nat.mul_le_mul_right _ nodes)
    _ = (g.nodes.size + 1) * g.price := by rw [Nat.succ_mul, Nat.add_comm]
    _ ≤ g.walkLimit := g.price_le_walkLimit

/-- The walk through a root that starts at rest comes to its end. -/
theorem tour_ends (founded : g.Founded) (rested : Rested g a) {root : Root}
    (known : root ∈ g.roots) : ∃ t, g.tour g.walkLimit a root = some t ∧ t.root = root := by
  have outcome := Placed.of_outcome g a root.node root.request none
  have price : g.price ≤ g.walkLimit :=
    Nat.le_trans (Nat.le_mul_of_pos_left _ (Nat.succ_pos _)) g.price_le_walkLimit
  obtain ⟨blocks, w, ends⟩ := Stage.makeBlocks_ends founded price g.walkLimit
    (rested.sound_first founded.uniform known outcome) rfl (g.owed_first_le _ _)
  exact ⟨_, Option.bind_eq_some_iff.mpr ⟨_, ends, rfl⟩, rfl⟩

/-- So do the walks through roots one after another, and the last one leads back to rest. -/
theorem tours_end (founded : g.Founded) (roots : List Root) :
    ∀ {a : Arena}, Rested g a → (∀ root ∈ roots, root ∈ g.roots) →
      ∃ tours a', g.tours g.walkLimit a roots = some (tours, a') ∧ Rested g a' ∧
        tours.map (·.root) = roots := by
  induction roots with
  | nil => exact fun {a} rested _ => ⟨[], a, rfl, rested, rfl⟩
  | cons root rest ih =>
    intro a rested known
    obtain ⟨t, ends, same⟩ := tour_ends founded rested (known root List.mem_cons_self)
    obtain ⟨first, last, traced⟩ :=
      tour_traced rested founded.uniform (known root List.mem_cons_self) ends
    have next : Rested g (t.remaining g) :=
      .of_evict founded.uniform (traced.leg_sound founded.uniform).consistent
    obtain ⟨tours, a', others, rested', all⟩ :=
      ih next fun r mem => known r (List.mem_cons_of_mem root mem)
    refine ⟨t :: tours, a', ?_, rested', by rw [List.map_cons, same, all]⟩
    exact Option.bind_eq_some_iff.mpr ⟨t, ends, Option.bind_eq_some_iff.mpr ⟨_, others, rfl⟩⟩

end Graph

/-! ## How much is made -/

namespace Walk

theorem length_makeTargets (limit : Nat) : ∀ {w w' : Walk} {made made' : List Instantiation},
    makeTargets g block limit w made = some (made', w') → made'.length ≤ made.length + limit := by
  induction limit with
  | zero =>
    intro w w' made made' ends
    simp only [makeTargets] at ends
    split at ends
    · cases ends; exact Nat.le_refl _
    · cases ends
  | succ limit ih =>
    intro w w' made made' ends
    simp only [makeTargets] at ends
    split at ends
    · cases ends; exact Nat.le_add_right _ _
    · have := ih ends
      rw [List.length_cons] at this
      omega

theorem length_makeBlocks {inner : Nat} (limit : Nat) :
    ∀ {w w' : Walk} {found blocks : List Block},
      makeBlocks g inner limit w found = some (blocks, w') →
      (∀ b ∈ found, b.instantiations.length ≤ inner) →
      blocks.length ≤ found.length + limit ∧ ∀ b ∈ blocks, b.instantiations.length ≤ inner := by
  have idle {found : List Block} (limit : Nat)
      (small : ∀ b ∈ found, b.instantiations.length ≤ inner) :
      found.reverse.length ≤ found.length + limit ∧
        ∀ b ∈ found.reverse, b.instantiations.length ≤ inner :=
    ⟨by simp, fun b mem => small b (List.mem_reverse.mp mem)⟩
  induction limit with
  | zero =>
    intro w w' found blocks ends small
    simp only [makeBlocks] at ends
    split at ends
    · cases ends; exact idle 0 small
    · cases ends
  | succ limit ih =>
    intro w w' found blocks ends small
    simp only [makeBlocks] at ends
    split at ends
    · cases ends; exact idle _ small
    · obtain ⟨⟨made, w₁⟩, inside, rest⟩ := Option.bind_eq_some_iff.mp ends
      have length := length_makeTargets inner inside
      rw [List.length_nil, Nat.zero_add] at length
      obtain ⟨count, all⟩ := ih rest (List.forall_mem_cons.mpr ⟨length, small⟩)
      rw [List.length_cons] at count
      exact ⟨by omega, all⟩

end Walk

/-- A plan of so many blocks at most, with so many instantiations at most in each. -/
def Plan.Within (limit : Nat) (p : Plan) : Prop :=
  p.blocks.length ≤ limit ∧ ∀ b ∈ p.blocks, b.instantiations.length ≤ limit

theorem Graph.tour_within {limit : Nat} {root : Root} {t : Tour}
    (ends : g.tour limit a root = some t) : t.plan.Within limit := by
  obtain ⟨⟨blocks, w⟩, walked, eq⟩ := Option.bind_eq_some_iff.mp ends
  cases eq
  have perm : (Block.inOrder w.arena blocks).Perm blocks := Block.inOrder_perm
  obtain ⟨count, all⟩ := Walk.length_makeBlocks limit walked nofun
  rw [List.length_nil, Nat.zero_add] at count
  exact ⟨perm.length_eq ▸ count, fun b mem => all b (perm.mem_iff.mp mem)⟩

theorem Graph.tours_within {limit : Nat} (roots : List Root) :
    ∀ {a a' : Arena} {tours : List Tour}, g.tours limit a roots = some (tours, a') →
      ∀ t ∈ tours, t.plan.Within limit := by
  induction roots with
  | nil =>
    intro a a' tours ends t mem
    cases ends
    cases mem
  | cons root rest ih =>
    intro a a' tours ends
    obtain ⟨t, walked, others⟩ := Option.bind_eq_some_iff.mp ends
    obtain ⟨⟨later, a'⟩, others, eq⟩ := Option.bind_eq_some_iff.mp others
    cases eq
    exact List.forall_mem_cons.mpr ⟨tour_within walked, ih others⟩

/-! ## Visits -/

/-- The graph with other roots. -/
def Graph.withRoots (g : Graph) (roots : List Root) : Graph := { g with roots }

/-- An arena that visits of a graph have left, each of them with roots of its own. -/
inductive Graph.Leaves (g : Graph) : Arena → Prop where
  | start : Leaves g {}
  | visit {a : Arena} {roots : List Root} {isCancelled : Bool} {v : Visit} (earlier : Leaves g a)
      (known : ∀ root ∈ roots, root.node < g.nodes.size)
      (ends : (g.withRoots roots).visit isCancelled a = some v) : Leaves g v.arena

theorem Graph.Founded.withRoots (founded : g.Founded) {roots : List Root}
    (known : ∀ root ∈ roots, root.node < g.nodes.size) : (g.withRoots roots).Founded where
  uniform := {
    source_lt := founded.uniform.source_lt
    dependents_perm := founded.uniform.dependents_perm
    root_lt := known
    outside := founded.uniform.outside
    profile_eq := founded.uniform.profile_eq }
  acyclic := founded.acyclic

/-- Rest is a matter of the nodes, whatever the roots are. -/
theorem Rested.withRoots (rested : Rested g a) (roots : List Root) :
    Rested (g.withRoots roots) a := by
  obtain ⟨c, marked⟩ := rested
  exact ⟨{ c with stored := fun key v found => { c.stored key v found with } }, marked⟩

theorem Graph.Leaves.rested (founded : g.Founded) (left : g.Leaves a) : Rested g a := by
  induction left with
  | start => exact rested_empty g
  | @visit a roots isCancelled v _ known ends ih =>
    unfold Graph.visit at ends
    split at ends
    · cases ends
      exact ih
    · obtain ⟨tours, a', walked, rested, -⟩ := Graph.tours_end (founded.withRoots known)
        (g.withRoots roots).roots (ih.withRoots roots) fun _ mem => mem
      rw [walked] at ends
      cases ends
      exact rested.withRoots g.roots

/-- A visit of a resolved graph that is not cancelled always succeeds: for whatever roots, and for
    whatever arena earlier visits have left, it finds finitely many blocks for each root, with
    finitely many instantiations in each. -/
theorem visit_ends (resolved : g.IsResolved) {roots : List Root}
    (known : ∀ root ∈ roots, root.node < g.nodes.size) (left : g.Leaves a) :
    ∃ v plans, (g.withRoots roots).visit false a = some v ∧ v.result = .ok plans ∧
      plans.map (·.name) = roots.map (·.name) ∧ ∀ p ∈ plans, p.Within g.walkLimit := by
  have founded := resolved.founded
  obtain ⟨tours, a', walked, -, all⟩ := Graph.tours_end (founded.withRoots known) roots
    ((left.rested founded).withRoots roots) fun _ mem => mem
  let journal := (tours.map (Tour.journal (g.withRoots roots))).foldl (· ++ ·) #[]
  refine ⟨⟨.ok (tours.map Tour.plan), a', journal⟩, tours.map Tour.plan, ?_, rfl, ?_,
    fun p mem => ?_⟩
  · show Option.bind ((g.withRoots roots).tours (g.withRoots roots).walkLimit a roots) _ = _
    rw [walked]
    rfl
  · rw [← all, List.map_map, List.map_map]
    rfl
  · obtain ⟨t, toured, rfl⟩ := List.mem_map.mp mem
    exact Graph.tours_within roots walked t toured

/-- A class that needs itself, by way of a factory that comes later, and a singleton. -/
def Sample.circular : Graph := Sample.graph <| Sample.setup [
  Sample.service "A" ["B", "S"] .transient,
  Sample.service "B" ["F", "S"] .transient,
  Sample.later "F" ["A", "B"],
  Sample.service "S" [] .singleton] ["A"]

/-- A visit goes through the circle, and the next one through its roots twice. -/
theorem visit_ends_circular :
    Sample.circular.allEdges.map (fun e => (e.target, e.source)) =
        [(0, 1), (0, 2), (1, 3), (1, 2), (3, 0), (3, 1)] ∧
      ∃ a, Sample.circular.Leaves a ∧ a.vars.size = 17 ∧ ∃ v plans,
        (Sample.circular.withRoots (Sample.circular.roots ++ Sample.circular.roots)).visit
          false a = some v ∧ v.result = .ok plans ∧ plans.map (·.name) = ["A", "A"] ∧
        ∀ p ∈ plans, p.Within Sample.circular.walkLimit := by
  have resolved : Sample.circular.IsResolved := Sample.isResolved _ (by decide +kernel)
  have known : ∀ root ∈ Sample.circular.roots, root.node < Sample.circular.nodes.size := by
    decide +kernel
  obtain ⟨v, ends, size⟩ := (Option.any_eq_true _ _).mp
    (show (Sample.circular.visit false {}).any (fun v => v.arena.vars.size == 17) = true by
      decide +kernel)
  have left : Sample.circular.Leaves v.arena := .visit .start known ends
  have twice : ∀ root ∈ Sample.circular.roots ++ Sample.circular.roots,
      root.node < Sample.circular.nodes.size := by decide +kernel
  obtain ⟨v', plans, again, ok, names, within⟩ := visit_ends resolved twice left
  refine ⟨by decide +kernel, v.arena, left, beq_iff_eq.mp size, v', plans, again, ok, ?_, within⟩
  rw [names]
  decide +kernel

end ObjectGraph
