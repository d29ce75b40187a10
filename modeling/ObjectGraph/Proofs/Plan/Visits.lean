import ObjectGraph.Proofs.Plan.Order
import ObjectGraph.Proofs.Plan.Walk

/-
  Sequences of visits over one arena.

  A visit walks all roots of a graph one after another, and the next visit goes on with the
  variables that the last one left.  `Graph.Visits` lists the legs of such a sequence, one for each
  root that was walked; `Graph.Toured` is the same sequence taken leg by leg, which is the form to
  do induction on.

  Between two roots the variables are `Rested`: the books are in order and nothing is due.  A walk
  through a root starts from there (`Graph.tour_traced`), and the eviction after it leads back
  (`Rested.remaining`).  So every leg is sound, and what it made stays as it is for good.
-/

namespace ObjectGraph

open Arena

/-! ## Legs -/

/-- All instantiations of a plan, block by block in order. -/
def Plan.instantiations (p : Plan) : List Instantiation := p.blocks.flatMap (·.instantiations)

/-- The variables that a plan makes. -/
def Plan.targets (p : Plan) : List VariableId := p.instantiations.map (·.target)

/-- The walk through one root in the course of visits. -/
structure Leg where
  /-- The variables that the walk started from. -/
  before : Arena
  /-- What the walk found. -/
  tour : Tour

namespace Graph

variable {g : Graph} {a a' : Arena} {legs : List Leg}

/-- The legs of tours that start one after another. -/
def legsFrom (g : Graph) (a : Arena) : List Tour → List Leg
  | [] => []
  | t :: rest => ⟨a, t⟩ :: g.legsFrom (t.remaining g) rest

/-- The legs of a visit; none if it is cancelled. -/
def legsOf (g : Graph) (isCancelled : Bool) (a : Arena) : List Leg :=
  if isCancelled && !g.roots.isEmpty then []
  else (g.tours g.walkLimit a g.roots).elim [] fun (tours, _) => g.legsFrom a tours

/-- A sequence of visits over one arena, empty at first: its legs, and the arena at its end. -/
inductive Visits (g : Graph) : List Leg → Arena → Prop where
  | start : Visits g [] {}
  | visit {legs : List Leg} {a : Arena} {isCancelled : Bool} {v : Visit} (earlier : Visits g legs a)
      (ends : g.visit isCancelled a = some v) : Visits g (legs ++ g.legsOf isCancelled a) v.arena

/-- The same, leg by leg. -/
inductive Toured (g : Graph) : List Leg → Arena → Prop where
  | start : Toured g [] {}
  | leg {legs : List Leg} {a : Arena} {root : Root} {limit : Nat} {t : Tour}
      (earlier : Toured g legs a) (known : root ∈ g.roots) (ends : g.tour limit a root = some t) :
      Toured g (legs ++ [⟨a, t⟩]) (t.remaining g)

theorem tour_root {limit : Nat} {root : Root} {t : Tour} (ends : g.tour limit a root = some t) :
    t.root = root := by
  obtain ⟨_, -, eq⟩ := Option.bind_eq_some_iff.mp ends
  cases eq
  rfl

theorem tour_var {limit : Nat} {root : Root} {t : Tour} (ends : g.tour limit a root = some t) :
    t.var = (Placed.of g a root.node root.request none).var := by
  obtain ⟨_, -, eq⟩ := Option.bind_eq_some_iff.mp ends
  cases eq
  rfl

/-- There is a tour for each root, in order. -/
theorem tours_roots {limit : Nat} {roots : List Root} {tours : List Tour}
    (ends : g.tours limit a roots = some (tours, a')) : tours.map (·.root) = roots := by
  induction roots generalizing a tours with
  | nil =>
    cases ends
    rfl
  | cons root rest ih =>
    obtain ⟨t, walked, others⟩ := Option.bind_eq_some_iff.mp ends
    obtain ⟨⟨later, _⟩, others, eq⟩ := Option.bind_eq_some_iff.mp others
    cases eq
    rw [List.map_cons, tour_root walked, ih others]

theorem tour_legsFrom (tours : List Tour) : (g.legsFrom a tours).map (·.tour) = tours := by
  induction tours generalizing a with
  | nil => rfl
  | cons t rest ih => exact congrArg (t :: ·) ih

/-- Tours from roots of the graph continue the legs. -/
theorem tours_toured (limit : Nat) (roots : List Root) :
    ∀ {legs : List Leg} {a a' : Arena} {tours : List Tour}, (∀ root ∈ roots, root ∈ g.roots) →
      Toured g legs a → g.tours limit a roots = some (tours, a') →
      Toured g (legs ++ g.legsFrom a tours) a' := by
  induction roots with
  | nil =>
    intro legs a a' tours _ earlier ends
    cases ends
    rw [legsFrom, List.append_nil]
    exact earlier
  | cons root rest ih =>
    intro legs a a' tours known earlier ends
    obtain ⟨t, walked, others⟩ := Option.bind_eq_some_iff.mp ends
    obtain ⟨⟨later, a'⟩, others, eq⟩ := Option.bind_eq_some_iff.mp others
    cases eq
    have next := ih (fun r mem => known r (List.mem_cons_of_mem root mem))
      (.leg earlier (known root List.mem_cons_self) walked) others
    rwa [List.append_assoc] at next

theorem Visits.toured (visits : g.Visits legs a) : g.Toured legs a := by
  induction visits with
  | start => exact .start
  | @visit legs a isCancelled v _ ends ih =>
    unfold Graph.visit at ends
    unfold legsOf
    split at ends
    · rename_i cancelled
      cases ends
      rw [if_pos cancelled, List.append_nil]
      exact ih
    · rename_i going
      obtain ⟨⟨tours, a'⟩, walked, eq⟩ := Option.bind_eq_some_iff.mp ends
      cases eq
      rw [if_neg going, walked]
      exact tours_toured g.walkLimit g.roots (fun _ mem => mem) ih walked

/-- The plans of a visit are those of its legs. -/
theorem plans_legsOf {isCancelled : Bool} {v : Visit} {plans : List Plan}
    (ends : g.visit isCancelled a = some v) (ok : v.result = .ok plans) :
    (g.legsOf isCancelled a).map (·.tour.plan) = plans := by
  unfold Graph.visit at ends
  unfold legsOf
  split at ends
  · cases ends
    cases ok
  · rename_i going
    obtain ⟨⟨tours, a'⟩, walked, eq⟩ := Option.bind_eq_some_iff.mp ends
    cases eq
    cases ok
    rw [if_neg going, walked]
    have plans := congrArg (List.map Tour.plan) (g.tour_legsFrom (a := a) tours)
    rwa [List.map_map] at plans

end Graph

/-! ## Between two roots -/

/-- The variables between two roots: the books are in order, nothing is due, and nothing counts as
    created. -/
def Rested (g : Graph) (a : Arena) : Prop := Consistent g a [] a ∧ Marked g [] a

variable {g : Graph} {a before : Arena}

/-- Before the first visit the arena is at rest. -/
theorem rested_empty (g : Graph) : Rested g {} :=
  ⟨{ linked := linked_empty
     extends' := .refl _
     node_lt := nofun
     key_link := nofun
     once := .nil
     stored := nofun
     stays := nofun
     stored_old := nofun
     stored_new := nofun
     kept := nofun
     due_lt := nofun
     due_reach := nofun
     due_nodup := .nil }, nofun⟩

/-- The eviction after a root leads back to rest. -/
theorem Rested.of_evict (uniform : g.Uniform) {due : List VariableId}
    (c : Consistent g before due a) : Rested g (a.evict (Tour.outlivesRoot g)) := by
  set rest := a.evict (Tour.outlivesRoot g)
  have grows : a.Extends rest := extends_evict a _
  have size : rest.vars.size = a.vars.size := size_evict a _
  have linked : rest.Linked := c.linked.of_extends grows size
  have keep (v : VariableId) : Tour.outlivesRoot g (a.var v) = (a.node g v).outlivesRoot :=
    Bool.or_comm _ _
  have lookup_iff (key : StorageKey) (v : Nat) : rest.lookup key = some v ↔
      a.lookup key = some v ∧ (a.node g v).outlivesRoot = true := by
    rw [lookup_evict c.once, keep]
  have storage {key : StorageKey} {v : Nat} (found : rest.lookup key = some v) :
      a.IsStorage g key v := c.stored key v ((lookup_iff key v).mp found).1
  have consistent : Consistent g rest [] rest := {
    linked := linked
    extends' := .refl rest
    node_lt := by
      intro v lt
      rw [size] at lt
      rw [grows.node lt]
      exact c.node_lt v lt
    key_link := by
      intro v lt u leads
      rw [size] at lt
      rw [grows.link lt] at leads
      rw [grows.node_eq lt, grows.node_eq (Nat.lt_trans (c.linked.link_lt v lt u leads) lt)]
      exact c.key_link v lt u leads
    once := c.once.evict _
    stored := fun key v found => (storage found).mono grows
    stays := fun key v found => found
    stored_old := by
      intro key v found _
      rw [grows.node_eq (storage found).lt]
      exact ⟨found, ((lookup_iff key v).mp found).2⟩
    stored_new := by
      intro key v found le
      rw [size] at le
      exact absurd (storage found).lt (Nat.not_lt_of_le le)
    kept := by
      intro v lt shared reach
      rw [size] at lt
      rw [grows.node_eq lt] at shared reach ⊢
      rw [grows.terminal_eq c.linked linked v lt, lookup_iff]
      have outlives : (a.node g v).outlivesRoot = true :=
        reach.resolve_right fun le => by rw [size] at le; omega
      have found := c.kept v lt shared (.inl outlives)
      refine ⟨found, ?_⟩
      -- the storage has the key of the variable, so it outlives the root as well
      have profile := c.profile_of_lookup uniform (c.node_lt v lt) found rfl
      rw [Node.outlivesRoot_eq profile]
      exact outlives
    due_lt := nofun
    due_reach := nofun
    due_nodup := .nil }
  refine ⟨consistent, ?_⟩
  intro key v found _
  have idle : (rest.var v).isCreated = false := isCreated_evict c.once _ (storage found).lt found
  rw [idle]
  exact ⟨nofun, nofun⟩

/-- At rest, variables of a binding that outlives roots end in one storage. -/
theorem Rested.terminal_eq (rested : Rested g a) (uniform : g.Uniform) {v w : Nat}
    (v_lt : v < a.vars.size) (w_lt : w < a.vars.size)
    (outlives : (a.node g v).outlivesRoot = true) (key : (a.node g v).key = (a.node g w).key) :
    a.terminal v = a.terminal w := by
  have c := rested.1
  have shared := Node.isShared_of_isFlagged (Node.isFlagged_of_outlivesRoot outlives)
  have same := c.profile_eq uniform v_lt w_lt key
  have found := c.kept v v_lt shared (.inl outlives)
  have found' := c.kept w w_lt (by rw [Node.isShared_eq same, shared])
    (.inl (by rw [Node.outlivesRoot_eq same, outlives]))
  rw [← key, found] at found'
  exact Option.some.inj found'

/-! ## The walk through one root -/

/-- The first state of the walk through a root. -/
def Walk.start (p : Placed) : Walk :=
  { arena := (p.arena.setBlockRoot p.var).setCreated p.var true, pending := [p.var] }

/-- A tour with the walk that led to it, from its first state to its last. -/
structure Tour.Traced (g : Graph) (before : Arena) (t : Tour) (first last : Walk) : Prop where
  rested : Rested g before
  known : t.root ∈ g.roots
  placed : ∃ p, Placed.Outcome g before t.root.node t.root.request p ∧
    Placed.Serves g before [] before t.root.node p ∧ p.placement ≠ .reference ∧
    p.arena.SameValues first.arena ∧ (Stage.between first []).due = [p.var]
  shared : first.shared = []
  sound : Stage.Sound g before (.between first [])
  run : Stage.Run g (.between first []) (.between last t.blocks.reverse)
  arena : last.arena = t.arena
  pending : last.pending = []
  targets : last.targets = []

/-- At rest, the variable of a root is always made anew. -/
theorem Rested.placement_ne (rested : Rested g a) (uniform : g.Uniform) {root : Root}
    (known : root ∈ g.roots) {p : Placed}
    (outcome : Placed.Outcome g a root.node root.request p) : p.placement ≠ .reference := by
  obtain ⟨c, marked⟩ := rested
  have idle {key : BindingKey} {s : Nat} (found : a.lookup (.binding key) = some s)
      (flagged : (a.node g s).isFlagged = true) (ready : (a.var s).isCreated = true) : False :=
    List.not_mem_nil ((marked key s found flagged).mp ready)
  cases outcome with
  | @refer k s found bound kind ready inside =>
    have profile := c.profile_of_lookup uniform (uniform.root_lt root known) found bound
    have outlives := (c.stored_old k s found (c.stored k s found).lt).2
    have flagged := Node.isFlagged_of_outlivesRoot outlives
    have shared := Node.isShared_of_isFlagged flagged
    rw [(c.stored k s found).isShared] at shared
    cases k with
    | hoisted key block => cases shared
    | binding key =>
      exact (idle found flagged (ready (by rw [← Node.isFlagged_eq profile, flagged]))).elim
  | @there s found outside ready =>
    have profile := c.profile_of_lookup uniform (uniform.root_lt root known) found rfl
    refine (idle found ?_ ready).elim
    rw [Node.isFlagged_eq profile, Node.isFlagged, outside]
    rfl
  | again => intro placed; cases placed
  | remake _ _ _ _ launches => exact launches.placed
  | stock _ _ _ launches => exact launches.placed
  | fresh _ launches => exact launches.placed

/-- A walk through a root that starts at rest starts in order: the variable of the root is due, and
    the flag that is set on top was set already, where anybody asks for it. -/
theorem Rested.sound_first (rested : Rested g a) (uniform : g.Uniform) {root : Root}
    (known : root ∈ g.roots) {p : Placed} (outcome : Placed.Outcome g a root.node root.request p) :
    Stage.Sound g a (.between {
      arena := (p.arena.setBlockRoot p.var).setCreated p.var true, pending := [p.var] } []) := by
  have serves := Placed.Serves.of_outcome rested.1 rested.2 uniform
    (uniform.root_lt root known) outcome
  set arena := (p.arena.setBlockRoot p.var).setCreated p.var true
  have same : p.arena.SameValues arena :=
    (sameValues_setBlockRoot _ _).trans (sameValues_setCreated _ _ true)
  have consistent := serves.consistent
  have marked := serves.marked
  rw [Placed.dueAfter_of_ne (rested.placement_ne uniform known outcome)] at consistent marked
  have flags : ∀ key (w : Nat), p.arena.lookup (.binding key) = some w →
      (p.arena.node g w).isFlagged = true →
      (arena.var w).isCreated = (p.arena.var w).isCreated := by
    intro key w found flagged
    by_cases eq : w = p.var
    · have mem : w ∈ [p.var].map p.arena.terminal := by
        rw [← consistent.terminal_of_lookup found, eq]
        exact List.mem_map_of_mem List.mem_cons_self
      have lt : p.var < (p.arena.setBlockRoot p.var).vars.size := by
        rw [(sameValues_setBlockRoot _ _).size_eq]
        exact serves.provided.1
      rw [(marked key w found flagged).mpr mem, eq]
      exact isCreated_setCreated_self lt true
    · exact (isCreated_setCreated_of_ne eq true).trans (isCreated_setBlockRoot _ _ _)
  exact {
    consistent := consistent.of_sameValues same
    marked := Placed.marked_of_sameValues marked same flags
    shared := nofun
    provided := nofun
    giver := nofun
    ahead := nofun
    current := nofun }

/-- A walk through a root that starts at rest is a sound run. -/
theorem Graph.tour_traced_start (rested : Rested g a) (uniform : g.Uniform) {limit : Nat}
    {root : Root} (known : root ∈ g.roots) {t : Tour} (ends : g.tour limit a root = some t) :
    ∃ last, t.Traced g a (.start (Placed.of g a root.node root.request none)) last := by
  obtain ⟨⟨blocks, last⟩, walked, eq⟩ := Option.bind_eq_some_iff.mp ends
  cases eq
  set p := Placed.of g a root.node root.request none
  have outcome : Placed.Outcome g a root.node root.request p := Placed.of_outcome g a _ _ none
  have placed := rested.placement_ne uniform known outcome
  have serves := Placed.Serves.of_outcome rested.1 rested.2 uniform
    (uniform.root_lt root known) outcome
  have same := (sameValues_setBlockRoot p.arena p.var).trans (sameValues_setCreated _ p.var true)
  obtain ⟨run, pending, targets⟩ := Stage.makeBlocks_run limit limit rfl walked
  exact ⟨last, rested, known, ⟨p, outcome, serves, placed, same, rfl⟩, rfl,
    rested.sound_first uniform known outcome, run, rfl, pending, targets⟩

/-- A tour is traced by the stages of its walk. -/
theorem Graph.tour_traced (rested : Rested g a) (uniform : g.Uniform) {limit : Nat} {root : Root}
    (known : root ∈ g.roots) {t : Tour} (ends : g.tour limit a root = some t) :
    ∃ first last, t.Traced g a first last :=
  ⟨_, Graph.tour_traced_start rested uniform known ends⟩

/-! ## What a leg leaves behind -/

/-- The books of a leg when it is over: what its plan makes is what was due, and everything handed
    out is made by it. -/
structure Leg.Sound (g : Graph) (l : Leg) : Prop where
  consistent : Consistent g l.before l.tour.plan.targets l.tour.arena
  provided : ∀ i ∈ l.tour.plan.instantiations, ∀ s ∈ i.supplies,
    l.tour.arena.Provided l.tour.plan.targets s.var
  giver : ∀ i ∈ l.tour.plan.instantiations, ∀ s ∈ i.supplies,
    (l.tour.arena.node g i.target).isOutside = false

theorem Tour.instantiations_perm (t : Tour) (w : Walk) :
    (Stage.between w t.blocks.reverse).instantiations.Perm t.plan.instantiations :=
  (t.blocks.reverse_perm.trans (Block.inOrder_perm (a := t.arena)).symm).flatMap_right _

section Traced

variable {t : Tour} {first last : Walk}

theorem Tour.Traced.arena_eq (traced : t.Traced g before first last) :
    (Stage.between last t.blocks.reverse).arena = t.arena := traced.arena

/-- What was due in a walk is what its plan makes. -/
theorem Tour.Traced.due_perm (traced : t.Traced g before first last) :
    (Stage.between last t.blocks.reverse).due.Perm t.plan.targets := by
  simp only [Stage.due, Stage.walk, traced.targets, traced.pending, List.append_nil,
    List.nil_append]
  exact (t.instantiations_perm last).map _

theorem Tour.Traced.handed_perm (_ : t.Traced g before first last) :
    (Stage.between last t.blocks.reverse).handed.Perm
      (Instantiation.handed t.plan.instantiations) :=
  (t.instantiations_perm last).flatMap_right _

/-- A tour is sound. -/
theorem Tour.Traced.leg_sound (uniform : g.Uniform) (traced : t.Traced g before first last) :
    Leg.Sound g ⟨before, t⟩ := by
  have sound := traced.run.sound uniform traced.sound
  have handed {i : Instantiation} {s : Supply} (mem : i ∈ t.plan.instantiations)
      (mem' : s ∈ i.supplies) : (i.target, s) ∈ (Stage.between last t.blocks.reverse).handed :=
    traced.handed_perm.mem_iff.mpr (List.mem_flatMap.mpr ⟨i, mem, List.mem_map_of_mem mem'⟩)
  refine ⟨traced.arena_eq ▸ sound.consistent.perm traced.due_perm, fun i mem s mem' => ?_,
    fun i mem s mem' => ?_⟩
  · exact traced.arena_eq ▸ (sound.provided _ (handed mem mem')).perm traced.due_perm
  · exact traced.arena_eq ▸ sound.giver _ (handed mem mem')

end Traced

namespace Graph.Toured

variable {legs earlier later : List Leg} {l l' : Leg}

/-- After each tour the arena is at rest. -/
theorem rested (uniform : g.Uniform) (toured : g.Toured legs a) : Rested g a := by
  induction toured with
  | start => exact rested_empty g
  | leg _ known ends ih =>
    obtain ⟨first, last, traced⟩ := Graph.tour_traced ih uniform known ends
    exact .of_evict uniform (traced.leg_sound uniform).consistent

/-- Every leg is the walk through a root that starts at rest. -/
theorem exists_tour (uniform : g.Uniform) (toured : g.Toured legs a) (mem : l ∈ legs) :
    Rested g l.before ∧ l.tour.root ∈ g.roots ∧
      ∃ limit, g.tour limit l.before l.tour.root = some l.tour := by
  induction toured with
  | start => cases mem
  | @leg _ _ root limit t earlier known ends ih =>
    rcases List.mem_append.mp mem with mem | mem
    · exact ih mem
    · rw [List.mem_singleton] at mem
      subst mem
      have same := Graph.tour_root ends
      exact ⟨earlier.rested uniform, same ▸ known, limit, same ▸ ends⟩

/-- Every leg started at rest, and is the result of a walk. -/
theorem traced (uniform : g.Uniform) (toured : g.Toured legs a) (mem : l ∈ legs) :
    ∃ first last, l.tour.Traced g l.before first last := by
  induction toured with
  | start => cases mem
  | leg earlier known ends ih =>
    rcases List.mem_append.mp mem with mem | mem
    · exact ih mem
    · rw [List.mem_singleton] at mem
      subst mem
      exact Graph.tour_traced (earlier.rested uniform) uniform known ends

theorem sound (uniform : g.Uniform) (toured : g.Toured legs a) (mem : l ∈ legs) :
    l.Sound g := by
  obtain ⟨first, last, traced⟩ := toured.traced uniform mem
  exact traced.leg_sound uniform

/-- What a leg made stays. -/
theorem extends_of_mem (uniform : g.Uniform) (toured : g.Toured legs a) (mem : l ∈ legs) :
    l.tour.arena.Extends a := by
  induction toured with
  | start => cases mem
  | leg earlier known ends ih =>
    rename_i legs a root limit t
    have evicted : t.arena.Extends (t.remaining g) := extends_evict _ _
    rcases List.mem_append.mp mem with mem | mem
    · obtain ⟨first, last, traced⟩ :=
        Graph.tour_traced (earlier.rested uniform) uniform known ends
      exact ((ih mem).trans (traced.leg_sound uniform).consistent.extends').trans evicted
    · rw [List.mem_singleton] at mem
      subst mem
      exact evicted

/-- A leg starts from what the legs before it left. -/
theorem extends_of_precedes (uniform : g.Uniform) (toured : g.Toured legs a)
    (first : Precedes legs l l') : l.tour.arena.Extends l'.before := by
  induction toured with
  | start => cases first
  | leg known _ _ ih =>
    rcases Precedes.append_iff.mp first with first | ⟨mem, mem'⟩ | first
    · exact ih first
    · rw [List.mem_singleton] at mem'
      subst mem'
      exact known.extends_of_mem uniform mem
    · exact absurd first (by simp [Precedes])

end Graph.Toured

end ObjectGraph
