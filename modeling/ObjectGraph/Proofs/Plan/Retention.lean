import ObjectGraph.Proofs.Graph.Table
import ObjectGraph.Proofs.Plan.Interruption
import ObjectGraph.Proofs.Plan.Walk
import ObjectGraph.Proofs.Plan.Storage

/-
  What is left of the variables between two roots.

  `Arena.Orderly` holds at every moment of every walk: links lead to earlier variables, a variable
  is stored under the key of its node and holds its own value, and if it outlives its root, it is
  declared as well.  It is kept by each of the few operations that a walk is made of, so by what
  places a use (`Placed.orderly_of`), what supplies a slot (`Walk.Orderly.supply`), a step and a run.

  The eviction at the end of a root turns it into `Arena.Cleared`: what is still stored outlives the
  root, so it is found by its binding alone, and it counts as not created.  A visit that is
  interrupted goes back to where it started, so it leaves a cleared arena, too (`visits_cleared`).
-/

namespace ObjectGraph

namespace Arena

variable {g : Graph} {a b : Arena} {k : StorageKey} {n : NodeId} {q : Request} {v : Nat}

/-! ## What holds at every moment -/

/-- The variables are in order, whatever is due and whatever is created. -/
structure Orderly (g : Graph) (a : Arena) : Prop where
  linked : a.Linked
  stored : ∀ k (v : Nat), (k, v) ∈ a.stored → a.IsStorage g k v
  declared : ∀ k (v : Nat), (k, v) ∈ a.stored → (a.node g v).outlivesRoot = true →
    (a.var v).isDeclared = true

namespace Orderly

theorem of_lookup (o : Orderly g a) (found : a.lookup k = some v) : a.IsStorage g k v :=
  o.stored k v (mem_of_lookup found)

theorem allocate (o : Orderly g a) (n : NodeId) (q : Request) {link : Option VariableId}
    (lt : ∀ u : Nat, link = some u → u < a.vars.size) : Orderly g (a.allocate n q link).2 where
  linked := o.linked.allocate n q lt
  stored k v mem := (o.stored k v mem).mono (extends_allocate a n q link)
  declared k v mem outlives := by
    have old := (o.stored k v mem).lt
    rw [(extends_allocate a n q link).node_eq old] at outlives
    rw [var_allocate_of_ne a n q link (Nat.ne_of_lt old)]
    exact o.declared k v mem outlives

/-- A flag may be set, and all but the one of declared variables may be taken back. -/
theorem update (o : Orderly g a) (id : VariableId) {f : Variable → Variable}
    (flags : ∀ v, (f v).unflagged = v.unflagged)
    (keeps : ∀ v, v.isDeclared = true → (f v).isDeclared = true) : Orderly g (a.update id f) := by
  have same : a.SameValues (a.update id f) := ⟨size_update a id f, unflagged_update a id flags, rfl⟩
  refine ⟨same.linked o.linked, fun k v mem => (o.stored k v mem).mono same.toExtends, ?_⟩
  intro k v mem outlives
  rw [same.node_eq] at outlives
  have declared := o.declared k v mem outlives
  by_cases eq : v = id
  · rw [eq, var_update_self a (eq ▸ (o.stored k v mem).lt)]
    exact keeps _ (eq ▸ declared)
  · rw [var_update_of_ne a eq]
    exact declared

theorem setCreated (o : Orderly g a) (id : VariableId) (created : Bool) :
    Orderly g (a.setCreated id created) := o.update id (fun _ => rfl) fun _ declared => declared

theorem setBlockRoot (o : Orderly g a) (id : VariableId) : Orderly g (a.setBlockRoot id) :=
  o.update id (fun _ => rfl) fun _ declared => declared

theorem setDeclared (o : Orderly g a) (id : VariableId) : Orderly g (a.setDeclared id) :=
  o.update id (fun _ => rfl) fun _ _ => rfl

/-- A variable may be stored under a key that it is an instance for, if it is declared in case it
    stays when a root is done. -/
theorem store (o : Orderly g a) (storage : a.IsStorage g k v)
    (declared : (a.node g v).outlivesRoot = true → (a.var v).isDeclared = true) :
    Orderly g (a.store k v) := by
  have entries {k' : StorageKey} {v' : Nat} (mem : (k', v') ∈ (a.store k v).stored) :
      k' = k ∧ v' = v ∨ (k', v') ∈ a.stored := by
    rcases List.mem_cons.mp mem with eq | mem
    · cases eq
      exact .inl ⟨rfl, rfl⟩
    · exact .inr (List.mem_filter.mp mem).1
  refine ⟨o.linked.of_extends (extends_store a k v) rfl, fun k' v' mem => ?_, fun k' v' mem => ?_⟩
  · rcases entries mem with ⟨rfl, rfl⟩ | old
    · exact storage.mono (extends_store a k' v')
    · exact (o.stored k' v' old).mono (extends_store a k v)
  · rcases entries mem with ⟨rfl, rfl⟩ | old
    · exact declared
    · exact o.declared k' v' old

/-- A new variable may be stored under a key of its node, once it is declared if it outlives its
    root. -/
theorem stock (o : Orderly g b) (same : (a.allocate n q none).2.SameValues b)
    (bound : k.bindingKey = (g.node n).key) (kind : (g.node n).isShared = k.block?.isNone)
    (declared : (g.node n).outlivesRoot = true → (b.var a.vars.size).isDeclared = true) :
    Orderly g (b.store k a.vars.size) := by
  have node : b.node g a.vars.size = g.node n := (same.node_eq _).trans (node_allocate_self a n q none)
  refine o.store ⟨?_, ?_, by rw [node, bound], by rw [node, kind]⟩ (by rwa [node])
  · rw [same.size_eq, size_allocate]
    exact Nat.lt_succ_self _
  · rw [same.link, var_allocate_self]

end Orderly

end Arena

open Arena

/-! ## Placing a use -/

namespace Placed

variable {g : Graph} {a : Arena} {n : NodeId} {q : Request} {p : Placed} {s : Nat}

/-- To schedule an instance touches flags only. -/
theorem orderly_schedule (o : Orderly g a) (v : VariableId) (placement : Placement) :
    Orderly g (schedule a v placement).arena := by
  unfold schedule
  split
  · exact o
  · exact o.setCreated v true

theorem orderly_promote (o : Orderly g a) (v : VariableId) : Orderly g (promote a v).arena :=
  orderly_schedule (o.setBlockRoot v) v .block

theorem orderly_refer (o : Orderly g a) (u : NodeUse) (lt : s < a.vars.size) :
    Orderly g (refer a u s).arena :=
  o.allocate u.node u.request fun _ leads => by cases leads; exact lt

theorem orderly_allocate (o : Orderly g a) (n : NodeId) (q : Request) :
    Orderly g (a.allocate n q none).2 := o.allocate n q nofun

/-- A variable that is not stored cannot be out of order. -/
theorem orderly_fresh (o : Orderly g a) (u : NodeUse) : Orderly g (fresh a u).arena :=
  orderly_schedule (orderly_allocate o u.node u.request) _ _

/-- A new variable that is declared and stored under its binding. -/
theorem orderly_declared (o : Orderly g a) (shared : (g.node n).isShared = true) :
    Orderly g (((a.allocate n q none).2.setDeclared a.vars.size).store (.binding (g.node n).key)
      a.vars.size) := by
  refine ((orderly_allocate o n q).setDeclared _).stock (sameValues_setDeclared _ _) rfl shared
    fun _ => ?_
  rw [setDeclared, var_update_self _ (by rw [size_allocate]; exact Nat.lt_succ_self _)]

/-- A new variable that is stored though it does not outlive its root. -/
theorem orderly_undeclared (o : Orderly g a) {k : StorageKey} (bound : k.bindingKey = (g.node n).key)
    (kind : (g.node n).isShared = k.block?.isNone) (ends : (g.node n).outlivesRoot = false) :
    Orderly g ((a.allocate n q none).2.store k a.vars.size) :=
  (orderly_allocate o n q).stock (.refl _) bound kind fun outlives => by
    rw [ends] at outlives
    cases outlives

/-- A value from outside is declared before it is stored ... -/
theorem orderly_outside (o : Orderly g a) (outside : (g.node n).isOutside = true) :
    Orderly g (Placed.outside a ⟨n, (g.node n).key, q⟩).arena := by
  unfold Placed.outside
  split
  · exact orderly_schedule o _ _
  · exact orderly_schedule (orderly_declared o (by rw [Node.isShared, outside]; rfl)) _ _

/-- ... and so is one for the whole composition. -/
theorem orderly_compositionWide (o : Orderly g a)
    (wide : (g.node n).lifetime.isCompositionWide = true) :
    Orderly g (compositionWide a ⟨n, (g.node n).key, q⟩).arena := by
  have flagged : (g.node n).isFlagged = true := by rw [Node.isFlagged, wide, Bool.or_true]
  unfold compositionWide
  split
  · rename_i s found
    have lt := (o.of_lookup found).lt
    split
    · exact orderly_refer o _ lt
    · refine orderly_promote ((o.setCreated s true).allocate n q fun u leads => ?_) _
      cases leads
      rwa [(sameValues_setCreated a s true).size_eq]
  · exact orderly_promote (orderly_declared o (Node.isShared_of_isFlagged flagged)) _

theorem orderly_perResolve (o : Orderly g a) (inside : (g.node n).isOutside = false)
    (lifetime : (g.node n).lifetime = .perResolve) (isReused : Bool) :
    Orderly g (perResolve a ⟨n, (g.node n).key, q⟩ isReused).arena := by
  obtain ⟨shared, ends⟩ := Node.isShared_of_lifetime inside (.inr lifetime)
  unfold perResolve
  split
  · rename_i s found
    exact orderly_refer o _ (o.of_lookup found).lt
  · have stored := orderly_undeclared (q := q) o (k := .binding (g.node n).key) rfl shared ends
    cases isReused
    · exact orderly_schedule stored _ _
    · exact orderly_promote stored _

theorem orderly_hoisted (o : Orderly g a) (unshared : (g.node n).isShared = false)
    (block : VariableId) : Orderly g (hoisted a ⟨n, (g.node n).key, q⟩ block).arena := by
  have ends : (g.node n).outlivesRoot = false := by
    rw [Bool.eq_false_iff]
    intro outlives
    have shared := Node.isShared_of_isFlagged (Node.isFlagged_of_outlivesRoot outlives)
    rw [unshared] at shared
    cases shared
  unfold hoisted
  split
  · rename_i s found
    exact orderly_refer o _ (o.of_lookup found).lt
  · exact orderly_promote (orderly_undeclared o (k := .hoisted _ block) rfl unshared ends) _

/-- Placing a use keeps the order, whatever the lifetime of the node. -/
theorem orderly_of (o : Orderly g a) (n : NodeId) (q : Request) (block : Option VariableId) :
    Orderly g (Placed.of g a n q block).arena := by
  by_cases outside : (g.node n).isOutside = true
  · simp only [Placed.of, if_pos outside]
    exact orderly_outside o outside
  · have inside := Bool.eq_false_iff.mpr outside
    simp only [Placed.of, if_neg outside]
    split
    · rename_i lifetime
      exact orderly_compositionWide o (by rw [lifetime]; rfl)
    · rename_i lifetime
      exact orderly_compositionWide o (by rw [lifetime]; rfl)
    · rename_i lifetime
      exact orderly_perResolve o inside lifetime _
    all_goals
      rename_i lifetime
      have unshared : (g.node n).isShared = false := by rw [Node.isShared, lifetime, inside]; rfl
      split
      · split
        · exact orderly_hoisted o unshared _
        · exact orderly_fresh o _
      · exact orderly_fresh o _

/-- What was placed is there. -/
theorem Outcome.var_lt (outcome : Outcome g a n q p) (o : Orderly g a) :
    p.var < p.arena.vars.size := by
  have new {b : Arena} {link : Option VariableId} :
      b.vars.size < (b.allocate n q link).2.vars.size := by
    rw [size_allocate]
    exact Nat.lt_succ_self _
  cases outcome with
  | refer => exact new
  | there found => exact (o.of_lookup found).lt
  | again found =>
    rw [(sameValues_setCreated a _ true).size_eq]
    exact (o.of_lookup found).lt
  | remake _ _ _ _ launches =>
    rw [launches.var, launches.same.size_eq, ← (sameValues_setCreated a _ true).size_eq]
    exact new
  | stock _ _ _ launches =>
    rw [launches.var, launches.same.size_eq]
    exact new
  | fresh _ launches =>
    rw [launches.var, launches.same.size_eq]
    exact new

end Placed

/-! ## The walk through one root -/

namespace Walk

variable {g : Graph} {w : Walk} {block : VariableId} {e : Edge}

/-- The state of a walk is in order: its variables are, and the table of shared variables lists
    variables that are there. -/
structure Orderly (g : Graph) (w : Walk) : Prop where
  arena : w.arena.Orderly g
  shared : ∀ n (v : Nat), w.shared.lookup n = some v → v < w.arena.vars.size

/-- Every choice keeps the order ... -/
theorem Orderly.place (o : w.Orderly g) (block : VariableId) (isDeferred : Bool) (e : Edge) :
    (w.place g block isDeferred e).arena.Orderly g := by
  unfold Walk.place
  split
  · rename_i found
    exact Placed.orderly_refer o.arena _ (o.shared _ _ found)
  · have placed := Placed.orderly_of o.arena e.source e.request (some block)
    simp only
    split
    · exact placed.setBlockRoot _
    · exact placed

theorem Orderly.var_lt_place (o : w.Orderly g) (block : VariableId) (isDeferred : Bool) (e : Edge) :
    (w.place g block isDeferred e).var < (w.place g block isDeferred e).arena.vars.size := by
  obtain ⟨-, existing, -, placed⟩ | ⟨-, p, outcome, ⟨-, placed⟩ | ⟨-, -, placed⟩⟩ :=
    place_cases g block isDeferred w e
  · rw [placed]
    show w.arena.vars.size < _
    rw [Placed.refer, Arena.allocateFor, size_allocate]
    exact Nat.lt_succ_self _
  · rw [placed]
    exact outcome.var_lt o.arena
  · rw [placed, (sameValues_setBlockRoot p.arena p.var).size_eq]
    exact outcome.var_lt o.arena

/-- To supply a slot places a variable, and takes back that it is created at most. -/
theorem arena_supply (g : Graph) (block : VariableId) (n : Node) (w : Walk) (e : Edge) :
    (w.supply g block n e).2.arena = (w.place g block (isDeferredUse g n e) e).arena ∨
      (w.supply g block n e).2.arena = (w.place g block (isDeferredUse g n e) e).arena.setCreated
        (w.place g block (isDeferredUse g n e) e).var false := by
  unfold supply
  simp only
  split
  · right
    rw [enqueue_arena]
    rfl
  · left
    rw [enqueue_arena]
    rfl

/-- ... and so does supplying an edge. -/
theorem Orderly.supply (o : w.Orderly g) (block : VariableId) (n : Node) (e : Edge) :
    (w.supply g block n e).2.Orderly g where
  arena := by
    have placed := o.place block (isDeferredUse g n e) e
    rcases arena_supply g block n w e with eq | eq
    · rw [eq]; exact placed
    · rw [eq]; exact placed.setCreated _ false
  shared m v found := by
    have effect := supply_effect g block n w e
    rcases effect.lookup_shared found with ⟨-, -, -, rfl⟩ | old
    · rw [effect.same.size_eq]
      exact o.var_lt_place block _ e
    · exact Nat.lt_of_lt_of_le (o.shared m v old) (extends_supply g block n w e).size_le

end Walk

namespace Stage

variable {g : Graph} {st st' : Stage}

/-- Each step of a walk keeps the order. -/
theorem Step.orderly (o : st.walk.Orderly g) (step : Step g st st') : st'.walk.Orderly g := by
  obtain passes | ⟨w, found, root, made, target, n, supplies, e, rest, rfl, rfl⟩ := step.cases
  · refine ⟨?_, fun m v found => ?_⟩
    · rw [passes.arena]
      exact o.arena
    · rw [passes.shared] at found
      rw [passes.arena]
      exact o.shared m v found
  · exact Walk.Orderly.supply o root (g.node n) e

/-- So does a run. -/
theorem Run.orderly (o : st.walk.Orderly g) (run : Run g st st') : st'.walk.Orderly g := by
  induction run with
  | refl => exact o
  | tail _ step ih => exact step.orderly ih

end Stage

/-! ## Between two roots -/

/-- The variable `v` may be left under the key between two roots: it is the storage of a singleton or
    of a value from outside, found by its binding, and nothing counts it as created. -/
structure Arena.Remains (g : Graph) (a : Arena) (k : StorageKey) (v : VariableId) : Prop where
  lt : v < a.vars.size
  key : k = .binding (a.node g v).key
  link : (a.var v).link = none
  declared : (a.var v).isDeclared = true
  idle : (a.var v).isCreated = false
  outlives : (a.node g v).isOutside = true ∨ (a.node g v).lifetime = .singleton

/-- What is left between two roots. -/
structure Arena.Cleared (g : Graph) (a : Arena) : Prop where
  remains : ∀ k (v : Nat), (k, v) ∈ a.stored → a.Remains g k v
  id_eq : ∀ v : Nat, v < a.vars.size → (a.var v).id = v
  link_lt : ∀ v : Nat, v < a.vars.size → ∀ u : Nat, (a.var v).link = some u → u < v

namespace Arena

variable {g : Graph} {a : Arena}

theorem cleared_empty (g : Graph) : Cleared g {} := ⟨nofun, nofun, nofun⟩

/-- A cleared arena is in order. -/
theorem Cleared.orderly (c : Cleared g a) : Orderly g a := by
  refine ⟨⟨c.id_eq, c.link_lt⟩, fun k v mem => ?_, fun k v mem _ => (c.remains k v mem).declared⟩
  obtain ⟨lt, rfl, link, -, -, outlives⟩ := c.remains k v mem
  have shared := Node.isShared_of_isFlagged
    (Node.isFlagged_of_outlivesRoot (Node.outlivesRoot_iff.mpr outlives))
  exact ⟨lt, link, rfl, shared⟩

/-- Marks do not matter to the order. -/
theorem Orderly.unmark (entries : List (StorageKey × VariableId)) :
    ∀ {a : Arena}, Orderly g a → Orderly g (a.unmark entries) := by
  induction entries with
  | nil => intro a o; exact o
  | cons entry rest ih => intro a o; exact ih (o.setCreated entry.2 false)

theorem Orderly.thin (o : Orderly g a) (keep : StorageKey × VariableId → Bool) :
    Orderly g { a with stored := a.stored.filter keep } :=
  ⟨⟨o.linked.id_eq, o.linked.link_lt⟩,
    fun k v mem => (o.stored k v (List.mem_filter.mp mem).1).mono ⟨Nat.le_refl _, fun _ _ => rfl⟩,
    fun k v mem => o.declared k v (List.mem_filter.mp mem).1⟩

/-- The eviction at the end of a root leaves what may be left. -/
theorem Orderly.cleared (o : Orderly g a) : Cleared g (a.evict (Tour.outlivesRoot g)) := by
  have evicted : Orderly g (a.evict (Tour.outlivesRoot g)) := (o.thin _).unmark _
  have grows := extends_evict a (Tour.outlivesRoot g)
  refine ⟨fun k v mem => ?_, evicted.linked.id_eq, evicted.linked.link_lt⟩
  have storage := evicted.stored k v mem
  have mem' := mem
  rw [stored_evict] at mem'
  obtain ⟨old, keep⟩ := List.mem_filter.mp mem'
  have lt := (o.stored k v old).lt
  have outlives : ((a.evict (Tour.outlivesRoot g)).node g v).outlivesRoot = true := by
    rw [grows.node_eq lt, ← keep]
    exact Bool.or_comm _ _
  have shared := Node.isShared_of_isFlagged (Node.isFlagged_of_outlivesRoot outlives)
  refine ⟨storage.lt, ?_, storage.link, evicted.declared k v mem outlives,
    isCreated_unmark (a := { a with stored := _ }) lt mem', Node.outlivesRoot_iff.mp outlives⟩
  -- a shared instance is stored under no block
  rw [storage.isShared] at shared
  cases k with
  | binding key => rw [storage.key]; rfl
  | hoisted key block => cases shared

end Arena

namespace Graph

variable {g : Graph} {a a' : Arena}

/-- A root that starts from a cleared arena leaves one, with all variables that were there. -/
theorem tour_cleared (c : a.Cleared g) {limit : Nat} {root : Root} {t : Tour}
    (ends : g.tour limit a root = some t) :
    (t.remaining g).Cleared g ∧ a.Extends (t.remaining g) := by
  obtain ⟨⟨blocks, last⟩, walked, eq⟩ := Option.bind_eq_some_iff.mp ends
  cases eq
  obtain ⟨run, -, -⟩ := Stage.makeBlocks_run limit limit rfl walked
  set p := Placed.of g a root.node root.request none
  have placed : a.Extends p.arena := (Placed.of_outcome g a root.node root.request none).extends
  have begun := (sameValues_setBlockRoot p.arena p.var).trans (sameValues_setCreated _ p.var true)
  have orderly : p.arena.Orderly g := Placed.orderly_of c.orderly root.node root.request none
  have first : (Walk.start p).Orderly g := ⟨(orderly.setBlockRoot _).setCreated _ true, nofun⟩
  exact ⟨(run.orderly first).arena.cleared,
    ((placed.trans begun.toExtends).trans run.extends).trans (extends_evict _ _)⟩

/-- So does each root of a sequence. -/
theorem tours_cleared {limit : Nat} {roots : List Root} {tours : List Tour} (c : a.Cleared g)
    (ends : g.tours limit a roots = some (tours, a')) :
    (a'.Cleared g ∧ a.Extends a') ∧
      ∀ t ∈ tours, (t.remaining g).Cleared g ∧ a.Extends (t.remaining g) := by
  induction roots generalizing a tours with
  | nil =>
    cases ends
    exact ⟨⟨c, .refl _⟩, nofun⟩
  | cons root rest ih =>
    obtain ⟨t, walked, others⟩ := Option.bind_eq_some_iff.mp ends
    obtain ⟨⟨later, _⟩, others, eq⟩ := Option.bind_eq_some_iff.mp others
    cases eq
    obtain ⟨cleared, grows⟩ := tour_cleared c walked
    obtain ⟨⟨cleared', grows'⟩, all⟩ := ih cleared others
    refine ⟨⟨cleared', grows.trans grows'⟩, fun t' mem => ?_⟩
    rcases List.mem_cons.mp mem with rfl | mem
    · exact ⟨cleared, grows⟩
    · exact ⟨(all t' mem).1, grows.trans (all t' mem).2⟩

/-- The variables after any number of visits, each under a token of its own. -/
inductive Visited (g : Graph) : Arena → Prop where
  | start : Visited g {}
  | visit {a : Arena} {token : Token} {v : Visit} (earlier : Visited g a)
      (ends : g.visitUntil token a = some v) : Visited g v.arena

/-- What a visit under a token does to cleared variables. -/
theorem visitUntil_cleared (c : a.Cleared g) {token : Token} {v : Visit}
    (ends : g.visitUntil token a = some v) : v.arena.Cleared g ∧ a.Extends v.arena := by
  obtain ⟨⟨tours, after⟩, walked, eq⟩ := Option.bind_eq_some_iff.mp ends
  obtain ⟨done, rest, a', -, plain, complete⟩ := toursUntil_prefix walked
  cases after with
  | error told =>
    cases eq
    exact ⟨c, .refl a⟩
  | ok a'' =>
    cases eq
    obtain ⟨-, rfl⟩ := complete a'' rfl
    exact (tours_cleared c plain).1

theorem Visited.cleared (visited : g.Visited a) : a.Cleared g := by
  induction visited with
  | start => exact cleared_empty g
  | visit _ ends ih => exact (visitUntil_cleared ih ends).1

/-- After any number of visits of a graph, be they complete or cancelled on the way, the next one
    leaves a cleared arena behind, at its end as well as after each root that it completes, and all
    variables that were there before it are still there, with the same node, request and link. -/
theorem visits_cleared (visited : g.Visited a) :
    a.Cleared g ∧ ∀ token v, g.visitUntil token a = some v →
      (v.arena.Cleared g ∧ a.Extends v.arena) ∧
      ∀ tours after, g.toursUntil g.walkLimit token a g.roots = some (tours, after) →
        ∀ t ∈ tours, (t.remaining g).Cleared g ∧ a.Extends (t.remaining g) := by
  have cleared := visited.cleared
  refine ⟨cleared, fun token v ends => ⟨visitUntil_cleared cleared ends, ?_⟩⟩
  intro tours after walked
  obtain ⟨done, rest, a', -, plain, -⟩ := toursUntil_prefix walked
  exact (tours_cleared cleared plain).2

/-- A second visit that is cancelled in the middle of its second root, while the first one has left a
    singleton and a value from outside. -/
theorem visits_cleared_stopped : ∃ a, Sample.mixed.Visited a ∧ a.stored.length = 2 ∧
    ∃ v tours told, Sample.mixed.visitUntil (some 12) a = some v ∧
      v.result = .error (.cancelled Sample.mixed.name) ∧
      Sample.mixed.toursUntil Sample.mixed.walkLimit (some 12) a Sample.mixed.roots =
        some (tours, .error told) ∧ tours.length = 1 ∧
      a.Cleared Sample.mixed ∧ (v.arena.Cleared Sample.mixed ∧ a.Extends v.arena) ∧
      ∀ t ∈ tours, (t.remaining Sample.mixed).Cleared Sample.mixed ∧
        a.Extends (t.remaining Sample.mixed) := by
  have found : ((Sample.mixed.visitUntil none {}).bind fun v =>
      (Sample.mixed.toursUntil Sample.mixed.walkLimit (some 12) v.arena Sample.mixed.roots).map
        fun p => (v.arena.stored.length, p.1.length, p.2.isOk)) = some (2, 1, false) := by
    decide +kernel
  obtain ⟨first, ends, found⟩ := Option.bind_eq_some_iff.mp found
  obtain ⟨⟨tours, after⟩, walked, eq⟩ := Option.map_eq_some_iff.mp found
  simp only [Prod.mk.injEq] at eq
  obtain ⟨two, one, stopped⟩ := eq
  cases after with
  | ok arena => cases stopped
  | error told =>
    have visited : Sample.mixed.Visited first.arena := .visit .start ends
    obtain ⟨v, next, failed⟩ : ∃ v, Sample.mixed.visitUntil (some 12) first.arena = some v ∧
        v.result = .error (.cancelled Sample.mixed.name) := by
      rw [visitUntil, walked]
      exact ⟨_, rfl, rfl⟩
    obtain ⟨cleared, later⟩ := visits_cleared visited
    obtain ⟨left, roots⟩ := later (some 12) v next
    exact ⟨first.arena, visited, two, v, tours, told, next, failed, walked, one, cleared, left,
      roots tours (.error told) walked⟩

end Graph

end ObjectGraph
