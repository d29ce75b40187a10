import ObjectGraph.Proofs.Plan.Consistency

/-
  What a use of a node is served with.

  `Placed.Outcome` lists what placing a use can come to, whatever the lifetime; `of_outcome` is the
  one place where the definition of `Placed.of` is taken apart.

  `Placed.Serves` is the contract that every outcome meets: the books stay in order, the variable is
  an instance of the node (or, for a value from outside, of its key), and its storage is made in the
  current root.  Three lemmas cover the outcomes: a reference to a storage that is due
  (`Serves.refer`), a storage that is there and was not due yet (`Serves.again`), and a variable
  that is put on a stack (`Serves.new`).
-/

namespace ObjectGraph

open Arena

namespace Placed

variable {g : Graph} {a b before : Arena} {due : List VariableId} {n : NodeId} {s t : Nat}
  {p : Placed}

/-! ## What placing a use can come to -/

/-- `p` puts the variable `v` of the arena `b` on a stack and marks it as created. -/
structure Launches (b : Arena) (v : VariableId) (p : Placed) : Prop where
  var : p.var = v
  placed : p.placement ≠ .reference
  same : b.SameValues p.arena
  created : (p.arena.var v).isCreated = true
  others : ∀ w : Nat, w ≠ v → (p.arena.var w).isCreated = (b.var w).isCreated

theorem schedule_of_idle {v : VariableId} (idle : (b.var v).isCreated = false)
    (placement : Placement) : schedule b v placement = ⟨v, placement, b.setCreated v true⟩ := by
  rw [schedule, idle, if_neg Bool.false_ne_true]

theorem promote_of_idle {v : VariableId} (idle : (b.var v).isCreated = false) :
    promote b v = ⟨v, .block, (b.setBlockRoot v).setCreated v true⟩ :=
  schedule_of_idle ((isCreated_setBlockRoot b v v).trans idle) _

theorem launches_schedule {v : Nat} (lt : v < b.vars.size) (idle : (b.var v).isCreated = false) :
    Launches b v (schedule b v .inline) := by
  rw [schedule_of_idle idle]
  exact ⟨rfl, nofun, sameValues_setCreated b v true, isCreated_setCreated_self lt true,
    fun w ne => isCreated_setCreated_of_ne ne true⟩

theorem launches_promote {v : Nat} (lt : v < b.vars.size) (idle : (b.var v).isCreated = false) :
    Launches b v (promote b v) := by
  have lt' : v < (b.setBlockRoot v).vars.size := by simpa [setBlockRoot] using lt
  rw [promote_of_idle idle]
  refine ⟨rfl, (by intro placed; cases placed), (sameValues_setBlockRoot b v).trans (sameValues_setCreated _ v true),
    isCreated_setCreated_self lt' true, fun w ne => ?_⟩
  rw [isCreated_setCreated_of_ne ne, isCreated_setBlockRoot]

theorem Launches.of_setDeclared {v u : VariableId} (launches : Launches (b.setDeclared u) v p) :
    Launches b v p where
  var := launches.var
  placed := launches.placed
  same := (sameValues_setDeclared b u).trans launches.same
  created := launches.created
  others w ne := by rw [launches.others w ne, isCreated_setDeclared]

/-- What placing a use of the node `n` can come to. -/
inductive Outcome (g : Graph) (a : Arena) (n : NodeId) (q : Request) : Placed → Prop where
  /-- A reference to a storage found under the key; a flagged one is created already. -/
  | refer {k : StorageKey} {s : VariableId} (found : a.lookup k = some s)
      (bound : k.bindingKey = (g.node n).key) (kind : (g.node n).isShared = k.block?.isNone)
      (ready : (g.node n).isFlagged = true → (a.var s).isCreated = true)
      (inside : (g.node n).isOutside = false) :
      Outcome g a n q (Placed.refer a ⟨n, (g.node n).key, q⟩ s)
  /-- The value from outside itself, which is there. -/
  | there {s : VariableId} (found : a.lookup (.binding (g.node n).key) = some s)
      (outside : (g.node n).isOutside = true) (ready : (a.var s).isCreated = true) :
      Outcome g a n q ⟨s, .reference, a⟩
  /-- The value from outside itself, for the first time in this root. -/
  | again {s : VariableId} (found : a.lookup (.binding (g.node n).key) = some s)
      (outside : (g.node n).isOutside = true) (idle : (a.var s).isCreated = false) :
      Outcome g a n q ⟨s, .inline, a.setCreated s true⟩
  /-- A variable that makes a storage of an earlier root once more. -/
  | remake {s : VariableId} {p : Placed} (found : a.lookup (.binding (g.node n).key) = some s)
      (inside : (g.node n).isOutside = false) (flagged : (g.node n).isFlagged = true)
      (idle : (a.var s).isCreated = false)
      (launches : Launches ((a.setCreated s true).allocate n q (some s)).2 a.vars.size p) :
      Outcome g a n q p
  /-- A new storage. -/
  | stock {k : StorageKey} {p : Placed} (free : a.lookup k = none)
      (bound : k.bindingKey = (g.node n).key) (kind : (g.node n).isShared = k.block?.isNone)
      (launches : Launches ((a.allocate n q none).2.store k a.vars.size) a.vars.size p) :
      Outcome g a n q p
  /-- A variable for this use alone. -/
  | fresh {p : Placed} (unshared : (g.node n).isShared = false)
      (launches : Launches (a.allocate n q none).2 a.vars.size p) : Outcome g a n q p

/-- A new variable is not created. -/
theorem isCreated_allocate_self (a : Arena) (n : NodeId) (q : Request)
    (link : Option VariableId) :
    ((a.allocate n q link).2.var a.vars.size).isCreated = false := by
  rw [var_allocate_self]

section Outcomes

variable {q : Request}

theorem outside_outcome (outside : (g.node n).isOutside = true) :
    Outcome g a n q (Placed.outside a ⟨n, (g.node n).key, q⟩) := by
  have shared : (g.node n).isShared = true := by rw [Node.isShared, outside]; rfl
  unfold Placed.outside
  split
  · rename_i s found
    rw [schedule]
    split
    · rename_i ready
      exact .there found outside ready
    · rename_i idle
      exact .again found outside (Bool.eq_false_iff.mpr idle)
  · rename_i free
    refine .stock free rfl shared (Launches.of_setDeclared (u := a.vars.size) ?_)
    exact launches_schedule (by simp [setDeclared, store])
      (by rw [isCreated_setDeclared]; exact isCreated_allocate_self a n q none)

theorem compositionWide_outcome (inside : (g.node n).isOutside = false)
    (wide : (g.node n).lifetime.isCompositionWide = true) :
    Outcome g a n q (compositionWide a ⟨n, (g.node n).key, q⟩) := by
  have flagged : (g.node n).isFlagged = true := by rw [Node.isFlagged, wide, Bool.or_true]
  have shared := Node.isShared_of_isFlagged flagged
  unfold compositionWide
  split
  · rename_i s found
    split
    · rename_i ready
      exact .refer found rfl shared (fun _ => ready) inside
    · rename_i idle
      refine .remake found inside flagged (Bool.eq_false_iff.mpr idle) ?_
      rw [← size_update a s fun v => { v with isCreated := true }]
      exact launches_promote (by simp [setCreated])
        (isCreated_allocate_self (a.setCreated s true) n q (some s))
  · rename_i free
    refine .stock free rfl shared (Launches.of_setDeclared (u := a.vars.size) ?_)
    exact launches_promote (by simp [setDeclared, store])
      (by rw [isCreated_setDeclared]; exact isCreated_allocate_self a n q none)

theorem perResolve_outcome (inside : (g.node n).isOutside = false)
    (lifetime : (g.node n).lifetime = .perResolve) (isReused : Bool) :
    Outcome g a n q (perResolve a ⟨n, (g.node n).key, q⟩ isReused) := by
  have shared : (g.node n).isShared = true := by rw [Node.isShared, lifetime, inside]; rfl
  have unflagged : (g.node n).isFlagged = false := by rw [Node.isFlagged, lifetime, inside]; rfl
  unfold perResolve
  split
  · rename_i s found
    exact .refer found rfl shared (fun flagged => by rw [unflagged] at flagged; cases flagged)
      inside
  · rename_i free
    have lt : a.vars.size < ((a.allocate n q none).2.store (.binding (g.node n).key)
        a.vars.size).vars.size := by simp [store]
    have idle := isCreated_allocate_self a n q none
    cases isReused
    · exact .stock free rfl shared (launches_schedule lt idle)
    · exact .stock free rfl shared (launches_promote lt idle)

theorem hoisted_outcome (inside : (g.node n).isOutside = false)
    (unshared : (g.node n).isShared = false) (block : VariableId) :
    Outcome g a n q (hoisted a ⟨n, (g.node n).key, q⟩ block) := by
  unfold hoisted
  split
  · rename_i s found
    refine .refer found rfl unshared (fun flagged => ?_) inside
    rw [Node.isShared_of_isFlagged flagged] at unshared
    cases unshared
  · rename_i free
    exact .stock free rfl unshared
      (launches_promote (by simp [store]) (isCreated_allocate_self a n q none))

theorem fresh_outcome (unshared : (g.node n).isShared = false) :
    Outcome g a n q (Placed.fresh a ⟨n, (g.node n).key, q⟩) :=
  .fresh unshared (launches_schedule (by simp) (isCreated_allocate_self a n q none))

/-- Whatever the lifetime of the node, placing a use of it has one of the outcomes listed. -/
theorem of_outcome (g : Graph) (a : Arena) (n : NodeId) (q : Request)
    (block : Option VariableId) : Outcome g a n q (Placed.of g a n q block) := by
  by_cases outside : (g.node n).isOutside = true
  · simp only [Placed.of, if_pos outside]
    exact outside_outcome outside
  · have inside := Bool.eq_false_iff.mpr outside
    simp only [Placed.of, if_neg outside]
    -- one goal for each lifetime; the last two depend on the block and on the weight, too
    split
    · rename_i lifetime
      exact compositionWide_outcome inside (by rw [lifetime]; rfl)
    · rename_i lifetime
      exact compositionWide_outcome inside (by rw [lifetime]; rfl)
    · rename_i lifetime
      exact perResolve_outcome inside lifetime _
    all_goals
      rename_i lifetime
      have unshared : (g.node n).isShared = false := by rw [Node.isShared, lifetime, inside]; rfl
      split
      · split
        · exact hoisted_outcome inside unshared _
        · exact fresh_outcome unshared
      · exact fresh_outcome unshared

end Outcomes

/-- What is due once a placed variable is put where it is to be made. -/
def dueAfter (p : Placed) (due : List VariableId) : List VariableId :=
  match p.placement with
  | .reference => due
  | .inline | .block => p.var :: due

theorem dueAfter_of_ne (ne : p.placement ≠ .reference) : p.dueAfter due = p.var :: due := by
  unfold dueAfter
  split
  · contradiction
  · rfl
  · rfl

theorem mem_dueAfter {v : VariableId} (mem : v ∈ due) : v ∈ p.dueAfter due := by
  by_cases placed : p.placement = .reference
  · rwa [dueAfter, placed]
  · rw [dueAfter_of_ne placed]
    exact List.mem_cons_of_mem _ mem

/-- For what is not from outside, placing a use always takes a new variable. -/
theorem Outcome.var_eq {q : Request} (outcome : Outcome g a n q p)
    (inside : (g.node n).isOutside = false) : p.var = a.vars.size := by
  cases outcome with
  | refer => rfl
  | there _ outside => rw [outside] at inside; cases inside
  | again _ outside => rw [outside] at inside; cases inside
  | remake _ _ _ _ launches => exact launches.var
  | stock _ _ _ launches => exact launches.var
  | fresh _ launches => exact launches.var

/-- Placing a use adds to the variables and takes nothing away. -/
theorem Outcome.extends {q : Request} (outcome : Outcome g a n q p) : a.Extends p.arena := by
  cases outcome with
  | refer => exact extends_allocate a n q _
  | there => exact .refl a
  | again => exact (sameValues_setCreated a _ true).toExtends
  | remake _ _ _ _ launches =>
    exact ((sameValues_setCreated a _ true).toExtends.trans (extends_allocate _ n q _)).trans
      launches.same.toExtends
  | stock _ _ _ launches =>
    exact ((extends_allocate a n q none).trans (extends_store _ _ _)).trans launches.same.toExtends
  | fresh _ launches => exact (extends_allocate a n q none).trans launches.same.toExtends

/-! ## Flags -/

/-- Flags stay right when a variable that ends in `t` becomes due and `t` is marked. -/
theorem marked_cons (c : Consistent g before due a) (m : Marked g due a) (extends' : a.Extends b)
    (linked : b.Linked) {v : Nat} (ends : b.terminal v = t)
    (lookup : ∀ key (w : Nat), b.lookup (.binding key) = some w →
      a.lookup (.binding key) = some w ∨ w = t)
    (created : (b.var t).isCreated = true)
    (others : ∀ w : Nat, w < a.vars.size → w ≠ t → (b.var w).isCreated = (a.var w).isCreated) :
    Marked g (v :: due) b := by
  intro key w found flagged
  rw [List.map_cons, c.map_terminal_eq extends' linked, ends, List.mem_cons]
  by_cases eq : w = t
  · subst eq
    exact ⟨fun _ => .inl rfl, fun _ => created⟩
  · have old := (lookup key w found).resolve_right eq
    have lt := (c.stored _ w old).lt
    rw [extends'.node_eq lt] at flagged
    rw [others w lt eq, m key w old flagged]
    exact ⟨.inr, fun mem => mem.resolve_left eq⟩

/-- Flags stay right when a variable that is not stored is added. -/
theorem marked_allocate (c : Consistent g before due a) (m : Marked g due a) (q : Request)
    {link : Option VariableId} (linked : (a.allocate n q link).2.Linked) :
    Marked g due (a.allocate n q link).2 := by
  intro key w found flagged
  have grows := extends_allocate a n q link
  have lt := (c.stored _ w found).lt
  rw [grows.node_eq lt] at flagged
  rw [c.map_terminal_eq grows linked, var_allocate_of_ne a n q link (Nat.ne_of_lt lt)]
  exact m key w found flagged

/-- Flags of variables that are not flagged may be set at will. -/
theorem marked_of_sameValues (m : Marked g due a) (same : a.SameValues b)
    (flags : ∀ key (w : Nat), a.lookup (.binding key) = some w → (a.node g w).isFlagged = true →
      (b.var w).isCreated = (a.var w).isCreated) : Marked g due b := by
  intro key w found flagged
  rw [same.lookup] at found
  rw [same.node_eq] at flagged
  rw [flags key w found flagged, funext same.terminal]
  exact m key w found flagged

/-! ## The contract -/

/-- The contract of placing a use of the node `n`, from the arena `a` on. -/
structure Serves (g : Graph) (before : Arena) (due : List VariableId) (a : Arena) (n : NodeId)
    (p : Placed) : Prop where
  extends' : a.Extends p.arena
  consistent : Consistent g before (p.dueAfter due) p.arena
  marked : Marked g (p.dueAfter due) p.arena
  provided : p.arena.Provided (p.dueAfter due) p.var
  key : (p.arena.node g p.var).key = (g.node n).key
  node : (g.node n).isOutside = false → (p.arena.var p.var).node = n

/-- The contract speaks neither of the flags of unflagged nodes nor of which stack a variable is put
    on. -/
theorem Serves.of_sameValues {p' : Placed} (serves : Serves g before due a n p)
    (var : p'.var = p.var) (due_eq : p'.dueAfter due = p.dueAfter due)
    (same : p.arena.SameValues p'.arena)
    (flags : ∀ key (w : Nat), p.arena.lookup (.binding key) = some w →
      (p.arena.node g w).isFlagged = true →
      (p'.arena.var w).isCreated = (p.arena.var w).isCreated) : Serves g before due a n p' where
  extends' := serves.extends'.trans same.toExtends
  consistent := by rw [due_eq]; exact serves.consistent.of_sameValues same
  marked := by rw [due_eq]; exact marked_of_sameValues serves.marked same flags
  provided := by
    rw [due_eq, var]
    exact serves.consistent.provided_mono same.toExtends (same.linked serves.consistent.linked)
      (fun _ mem => mem) serves.provided
  key := by rw [var, same.node_eq, serves.key]
  node inside := by rw [var, same.node, serves.node inside]

/-! ## The three ways to serve a use -/

/-- By a new variable that refers to one whose storage is due. -/
theorem Serves.refer (c : Consistent g before due a) (m : Marked g due a)
    (n_lt : n < g.nodes.size) (q : Request) (provided : a.Provided due s)
    (key : (a.node g s).key = (g.node n).key)
    (kept : (g.node n).isShared = true →
      a.lookup (.binding (g.node n).key) = some (a.terminal s)) :
    Serves g before due a n (Placed.refer a ⟨n, (g.node n).key, q⟩ s) := by
  have grows := extends_allocate a n q (some s)
  have leads : ((a.allocate n q (some s)).2.var a.vars.size).link = some s := by
    rw [var_allocate_self]
  have consistent : Consistent g before due (a.allocate n q (some s)).2 := by
    refine c.allocate n_lt q ?_ fun shared => ⟨s, rfl, kept shared⟩
    rintro u ⟨⟩
    exact ⟨provided.1, key⟩
  have linked := consistent.linked
  have lt : a.vars.size < (a.allocate n q (some s)).2.vars.size := by simp
  exact {
    extends' := grows
    consistent := consistent
    marked := marked_allocate c m q linked
    provided := by
      refine ⟨lt, ?_⟩
      show (a.allocate n q (some s)).2.terminal a.vars.size ∈
        due.map (a.allocate n q (some s)).2.terminal
      rw [linked.terminal_of_some lt leads, c.map_terminal_eq grows linked,
        grows.terminal_eq c.linked linked s provided.1]
      exact provided.2
    key := congrArg Node.key (node_allocate_self a n q (some s))
    node := fun _ => congrArg Variable.node (var_allocate_self a n q (some s)) }

/-- By a storage of the key of the node that was not due. -/
theorem Serves.again (c : Consistent g before due a) (m : Marked g due a)
    {key : BindingKey} (found : a.lookup (.binding key) = some s) (bound : key = (g.node n).key)
    (outside : (g.node n).isOutside = true) (outlives : (a.node g s).outlivesRoot = true)
    (idle : (a.var s).isCreated = false) :
    Serves g before due a n ⟨s, .inline, a.setCreated s true⟩ := by
  have storage := c.stored _ s found
  have ends := c.terminal_of_lookup found
  have same := sameValues_setCreated a s true
  have fresh : a.terminal s ∉ due.map a.terminal := by
    rw [ends]
    intro mem
    rw [(m key s found (Node.isFlagged_of_outlivesRoot outlives)).mpr mem] at idle
    cases idle
  have consistent := (c.schedule storage.lt (.inl outlives) fresh).of_sameValues same
  have ends' : (a.setCreated s true).terminal s = s := by rw [same.terminal, ends]
  exact {
    extends' := same.toExtends
    consistent := consistent
    marked := marked_cons c m same.toExtends consistent.linked ends'
      (fun key w found => .inl found) (isCreated_setCreated_self storage.lt true)
      (fun w _ ne => isCreated_setCreated_of_ne ne true)
    provided := by
      refine ⟨Nat.lt_of_lt_of_le storage.lt same.toExtends.size_le, ?_⟩
      exact List.mem_map_of_mem List.mem_cons_self
    key := by rw [same.node_eq, storage.key, bound]; rfl
    node := fun inside => by rw [outside] at inside; cases inside }

/-- By the newest variable, put on a stack.  It ends in `t`, which is marked as created. -/
theorem Serves.new (c : Consistent g before due a) (m : Marked g due a) (extends' : a.Extends b)
    (consistent : Consistent g before (a.vars.size :: due) b)
    (launches : Launches b a.vars.size p) (node : (b.var a.vars.size).node = n)
    (ends : b.terminal a.vars.size = t)
    (lookup : ∀ key (w : Nat), b.lookup (.binding key) = some w →
      a.lookup (.binding key) = some w ∨ w = t)
    (created : (p.arena.var t).isCreated = true)
    (others : ∀ w : Nat, w < a.vars.size → w ≠ t → (b.var w).isCreated = (a.var w).isCreated) :
    Serves g before due a n p := by
  obtain ⟨var, placed, same, -, flags⟩ := launches
  have grown := extends'.trans same.toExtends
  have due_eq : p.dueAfter due = p.var :: due := dueAfter_of_ne placed
  rw [var] at due_eq
  have consistent' := consistent.of_sameValues same
  have node' : (p.arena.var a.vars.size).node = n := by rw [same.node, node]
  exact {
    extends' := grown
    consistent := by rw [due_eq]; exact consistent'
    marked := by
      rw [due_eq]
      refine marked_cons c m grown consistent'.linked (by rw [same.terminal, ends]) ?_ created ?_
      · intro key w found
        exact lookup key w (by rw [← same.lookup, found])
      · intro w lt ne
        rw [flags w (Nat.ne_of_lt lt), others w lt ne]
    provided := by
      rw [due_eq, var]
      exact ⟨consistent'.due_lt _ List.mem_cons_self, List.mem_map_of_mem List.mem_cons_self⟩
    key := by rw [var]; exact congrArg (fun i => (g.node i).key) node'
    node := fun _ => by rw [var]; exact node' }

/-! ## The contract is met -/

/-- A storage of an earlier root is made once more, by a new variable that refers to it. -/
theorem Serves.remake (c : Consistent g before due a) (m : Marked g due a) (uniform : g.Uniform)
    (n_lt : n < g.nodes.size) {q : Request}
    (found : a.lookup (.binding (g.node n).key) = some s)
    (flagged : (g.node n).isFlagged = true) (idle : (a.var s).isCreated = false)
    (launches : Launches ((a.setCreated s true).allocate n q (some s)).2 a.vars.size p) :
    Serves g before due a n p := by
  have storage := c.stored _ s found
  have profile := c.profile_of_lookup uniform n_lt found rfl
  have ends_s := c.terminal_of_lookup found
  -- the storage is marked, and then referred to
  have same := sameValues_setCreated a s true
  have grows : a.Extends ((a.setCreated s true).allocate n q (some s)).2 :=
    same.toExtends.trans (extends_allocate _ n q (some s))
  have consistent : Consistent g before due ((a.setCreated s true).allocate n q (some s)).2 := by
    refine (c.of_sameValues same).allocate n_lt q ?_ fun _ => ⟨s, rfl, ?_⟩
    · rintro u ⟨⟩
      exact ⟨Nat.lt_of_lt_of_le storage.lt same.toExtends.size_le, by
        rw [same.node_eq, storage.key]; rfl⟩
    · rw [same.lookup, same.terminal, ends_s, found]
  have linked := consistent.linked
  have var_self := var_allocate_self (a.setCreated s true) n q (some s)
  rw [same.size_eq] at var_self
  have lt : a.vars.size < ((a.setCreated s true).allocate n q (some s)).2.vars.size := by
    rw [size_allocate, same.size_eq]; exact Nat.lt_succ_self _
  have ends : ((a.setCreated s true).allocate n q (some s)).2.terminal a.vars.size = s := by
    rw [linked.terminal_of_some lt (by rw [var_self]),
      grows.terminal_eq c.linked linked s storage.lt, ends_s]
  have flags : ∀ w : Nat, w < a.vars.size →
      (((a.setCreated s true).allocate n q (some s)).2.var w).isCreated =
        ((a.setCreated s true).var w).isCreated := by
    intro w lt
    rw [var_allocate_of_ne _ n q (some s) (by rw [same.size_eq]; exact Nat.ne_of_lt lt)]
  refine .new c m grows (consistent.schedule lt (.inr c.extends'.size_le) ?_) launches
    (by rw [var_self]) ends
    (fun key w found => .inl (by rwa [lookup_allocate, same.lookup] at found)) ?_ ?_
  · rw [ends, c.map_terminal_eq grows linked]
    intro mem
    rw [(m _ s found (by rw [Node.isFlagged_eq profile, flagged])).mpr mem] at idle
    cases idle
  · rw [launches.others s (Nat.ne_of_lt storage.lt), flags s storage.lt,
      isCreated_setCreated_self storage.lt]
  · intro w lt ne
    rw [flags w lt, isCreated_setCreated_of_ne ne]

/-- What is stored under a key of the node is referred to: a flagged storage is due because it is
    created, any other one because it is new. -/
theorem Serves.found (c : Consistent g before due a) (m : Marked g due a) (uniform : g.Uniform)
    (n_lt : n < g.nodes.size) {q : Request} {k : StorageKey} (found : a.lookup k = some s)
    (bound : k.bindingKey = (g.node n).key) (kind : (g.node n).isShared = k.block?.isNone)
    (ready : (g.node n).isFlagged = true → (a.var s).isCreated = true) :
    Serves g before due a n (Placed.refer a ⟨n, (g.node n).key, q⟩ s) := by
  have profile := c.profile_of_lookup uniform n_lt found bound
  have ends := c.terminal_of_lookup found
  -- a key of a shared node is the one of its binding
  have key_eq (shared : (g.node n).isShared = true) : k = .binding (g.node n).key := by
    cases k with
    | binding key => exact congrArg _ bound
    | hoisted key block => rw [shared] at kind; cases kind
  refine .refer c m n_lt q ⟨(c.stored k s found).lt, ?_⟩ ?_ fun shared => ?_
  · rw [ends]
    by_cases flagged : (g.node n).isFlagged = true
    · rw [key_eq (Node.isShared_of_isFlagged flagged)] at found
      exact (m _ s found (by rw [Node.isFlagged_eq profile, flagged])).mp (ready flagged)
    · refine c.stored_new k s found (Nat.le_of_not_lt fun old => flagged ?_)
      have outlives := (c.stored_old k s found old).2
      rw [Node.outlivesRoot_eq profile] at outlives
      exact Node.isFlagged_of_outlivesRoot outlives
  · rw [(c.stored k s found).key, bound]
  · rw [ends, ← key_eq shared, found]

/-- A new variable is stored under a free key. -/
theorem Serves.stock (c : Consistent g before due a) (m : Marked g due a)
    (n_lt : n < g.nodes.size) {q : Request} {k : StorageKey} (free : a.lookup k = none)
    (bound : k.bindingKey = (g.node n).key) (kind : (g.node n).isShared = k.block?.isNone)
    (launches : Launches ((a.allocate n q none).2.store k a.vars.size) a.vars.size p) :
    Serves g before due a n p := by
  have consistent := c.stock n_lt q bound kind free
  refine .new c m ((extends_allocate a n q none).trans (extends_store _ k _)) consistent
    launches (congrArg Variable.node (var_allocate_self a n q none))
    (consistent.terminal_of_lookup (lookup_store_self _ k _)) ?_ launches.created ?_
  · intro key w found
    exact (lookup_store_cases found).symm.imp_right (·.2)
  · intro w lt _
    exact congrArg Variable.isCreated (var_allocate_of_ne a n q none (Nat.ne_of_lt lt))

/-- A new variable that is not shared is not stored. -/
theorem Serves.fresh (c : Consistent g before due a) (m : Marked g due a)
    (n_lt : n < g.nodes.size) {q : Request} (unshared : (g.node n).isShared = false)
    (launches : Launches (a.allocate n q none).2 a.vars.size p) : Serves g before due a n p := by
  have grows := extends_allocate a n q none
  have consistent : Consistent g before due (a.allocate n q none).2 :=
    c.allocate n_lt q (fun u leads => by cases leads)
      (fun shared => by rw [unshared] at shared; cases shared)
  have lt : a.vars.size < (a.allocate n q none).2.vars.size := by simp
  have ends : (a.allocate n q none).2.terminal a.vars.size = a.vars.size :=
    consistent.linked.terminal_of_none lt (by rw [var_allocate_self])
  refine .new c m grows (consistent.schedule lt (.inr c.extends'.size_le) ?_) launches
    (congrArg Variable.node (var_allocate_self a n q none)) ends
    (fun key w found => .inl found) launches.created ?_
  · rw [ends, c.map_terminal_eq grows consistent.linked]
    exact c.size_notMem_due
  · intro w lt _
    exact congrArg Variable.isCreated (var_allocate_of_ne a n q none (Nat.ne_of_lt lt))

theorem Serves.of_outcome (c : Consistent g before due a) (m : Marked g due a)
    (uniform : g.Uniform) (n_lt : n < g.nodes.size) {q : Request}
    (outcome : Outcome g a n q p) : Serves g before due a n p := by
  cases outcome with
  | refer found bound kind ready => exact .found c m uniform n_lt found bound kind ready
  | @there s found outside ready =>
    have profile := c.profile_of_lookup uniform n_lt found rfl
    have flagged : (a.node g s).isFlagged = true := by
      rw [Node.isFlagged_eq profile, Node.isFlagged, outside]; rfl
    have storage := c.stored _ s found
    refine ⟨.refl a, c, m, ⟨storage.lt, ?_⟩, storage.key, fun inside => ?_⟩
    · show a.terminal s ∈ due.map a.terminal
      rw [c.terminal_of_lookup found]
      exact (m _ s found flagged).mp ready
    · rw [outside] at inside; cases inside
  | again found outside idle =>
    have profile := c.profile_of_lookup uniform n_lt found rfl
    exact .again c m found rfl outside
      (by rw [Node.outlivesRoot_eq profile, Node.outlivesRoot, outside]; rfl) idle
  | remake found inside flagged idle launches =>
    exact .remake c m uniform n_lt found flagged idle launches
  | stock free bound kind launches => exact .stock c m n_lt free bound kind launches
  | fresh unshared launches => exact .fresh c m n_lt unshared launches

end Placed

end ObjectGraph
