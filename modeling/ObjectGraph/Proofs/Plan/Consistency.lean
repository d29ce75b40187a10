import ObjectGraph.Plan.Placement
import ObjectGraph.Proofs.Graph.Resolution
import ObjectGraph.Proofs.Plan.Arena

/-
  What holds of the variables at every moment of a walk through one root.

  `Consistent g before due a` speaks of the arena `a` in the middle of a root that started from the
  arena `before`.  `due` lists the variables that the root makes: those that have an instantiation
  already and those that wait for theirs.  The three statements that matter are

    * `kept`: the variables of a shared instance all end in the storage that its key is found
      under, over all roots for what outlives a root and within the root for the rest;
    * `due_nodup`: no storage is made twice;
    * `stored_new`: a storage that came into being in this root is made in this root.

  `Marked` adds what the flags are for: a storage counts as created exactly if it is due.

  Both are shown to survive the few ways in which a walk changes its arena: a variable that refers
  to another one or stands alone (`Consistent.allocate`), a new storage (`Consistent.stock`), and
  a variable that is put on a stack (`Consistent.schedule`).
-/

namespace ObjectGraph

/-! ## Kinds of nodes -/

namespace Node

/-- Tells nodes whose instance is found again by its storage key. -/
def isShared (n : Node) : Bool := n.isOutside || n.lifetime.isShared

/-- Tells nodes for which the walk asks the flag of the storage before it is made. -/
def isFlagged (n : Node) : Bool := n.isOutside || n.lifetime.isCompositionWide

/-- Tells nodes whose storage is handed on to the next root. -/
def outlivesRoot (n : Node) : Bool := n.isOutside || n.lifetime == .singleton

/-- Values from outside and singletons stay when a root is done. -/
theorem outlivesRoot_iff {n : Node} :
    n.outlivesRoot = true ↔ n.isOutside = true ∨ n.lifetime = .singleton := by
  simp only [outlivesRoot, Bool.or_eq_true, beq_iff_eq]

/-- What stays is asked for its flag ... -/
theorem isFlagged_of_outlivesRoot {n : Node} (outlives : n.outlivesRoot = true) :
    n.isFlagged = true := by
  simp only [outlivesRoot, isFlagged, Bool.or_eq_true, beq_iff_eq] at outlives ⊢
  rcases outlives with outside | singleton
  · exact .inl outside
  · exact .inr (by rw [singleton]; rfl)

/-- ... and what is asked for its flag is shared. -/
theorem isShared_of_isFlagged {n : Node} (flagged : n.isFlagged = true) : n.isShared = true := by
  simp only [isFlagged, isShared, Bool.or_eq_true] at flagged ⊢
  rcases flagged with outside | wide
  · exact .inl outside
  · right
    cases lifetime : n.lifetime <;> rw [lifetime] at wide <;> first | rfl | cases wide

variable {n m : Node}

theorem isOutside_eq (same : n.profile = m.profile) : n.isOutside = m.isOutside :=
  congrArg Prod.snd same

theorem lifetime_eq (same : n.profile = m.profile) : n.lifetime = m.lifetime :=
  congrArg Prod.fst same

theorem isShared_eq (same : n.profile = m.profile) : n.isShared = m.isShared := by
  unfold isShared
  rw [isOutside_eq same, lifetime_eq same]

theorem isFlagged_eq (same : n.profile = m.profile) : n.isFlagged = m.isFlagged := by
  unfold isFlagged
  rw [isOutside_eq same, lifetime_eq same]

theorem outlivesRoot_eq (same : n.profile = m.profile) : n.outlivesRoot = m.outlivesRoot := by
  unfold outlivesRoot
  rw [isOutside_eq same, lifetime_eq same]

end Node

namespace Arena

variable {g : Graph} {a a' before : Arena} {due due' : List VariableId} {v u s : Nat}

/-- The node that a variable is an instance of. -/
def node (a : Arena) (g : Graph) (v : VariableId) : Node := g.node (a.var v).node

/-- Variables stay of the nodes that they are of ... -/
theorem Extends.node_eq (extends' : a.Extends a') (lt : v < a.vars.size) :
    a'.node g v = a.node g v := by
  unfold Arena.node
  rw [extends'.node lt]

/-- ... and flags make no difference. -/
theorem SameValues.node_eq (same : a.SameValues a') (v : VariableId) :
    a'.node g v = a.node g v := by
  unfold Arena.node
  rw [same.node]

/-- A new variable is of the node that it was made for. -/
theorem node_allocate_self (a : Arena) (node : NodeId) (q : Request)
    (link : Option VariableId) :
    (a.allocate node q link).2.node g a.vars.size = g.node node := by
  simp only [Arena.node, var_allocate_self]

/-! ## Consistent arenas -/

/-- The variable `v` may be stored under the key: it holds its own value, its binding has the key,
    and a key without a block is for shared instances. -/
structure IsStorage (a : Arena) (g : Graph) (k : StorageKey) (v : VariableId) : Prop where
  lt : v < a.vars.size
  link : (a.var v).link = none
  key : (a.node g v).key = k.bindingKey
  isShared : (a.node g v).isShared = k.block?.isNone

theorem IsStorage.mono {k : StorageKey} (storage : a.IsStorage g k v)
    (extends' : a.Extends a') : a'.IsStorage g k v where
  lt := Nat.lt_of_lt_of_le storage.lt extends'.size_le
  link := by rw [extends'.link storage.lt, storage.link]
  key := by rw [extends'.node_eq storage.lt, storage.key]
  isShared := by rw [extends'.node_eq storage.lt, storage.isShared]

/-- The books of a walk through one root that started from `before` and makes the variables
    `due`. -/
structure Consistent (g : Graph) (before : Arena) (due : List VariableId) (a : Arena) : Prop where
  linked : a.Linked
  extends' : before.Extends a
  node_lt : ∀ v : Nat, v < a.vars.size → (a.var v).node < g.nodes.size
  key_link : ∀ v : Nat, v < a.vars.size → ∀ u : Nat, (a.var v).link = some u →
    (a.node g u).key = (a.node g v).key
  once : a.KeysOnce
  stored : ∀ key (v : Nat), a.lookup key = some v → a.IsStorage g key v
  stays : ∀ key (v : Nat), before.lookup key = some v → a.lookup key = some v
  stored_old : ∀ key (v : Nat), a.lookup key = some v → v < before.vars.size →
    before.lookup key = some v ∧ (a.node g v).outlivesRoot = true
  stored_new : ∀ key (v : Nat), a.lookup key = some v → before.vars.size ≤ v →
    v ∈ due.map a.terminal
  kept : ∀ v : Nat, v < a.vars.size → (a.node g v).isShared = true →
    ((a.node g v).outlivesRoot = true ∨ before.vars.size ≤ v) →
    a.lookup (.binding (a.node g v).key) = some (a.terminal v)
  due_lt : ∀ v ∈ due, v < a.vars.size
  due_reach : ∀ v ∈ due, (a.node g v).outlivesRoot = true ∨ before.vars.size ≤ v
  due_nodup : (due.map a.terminal).Nodup

/-- For the storages of flagged nodes, the flag says whether they are due. -/
def Marked (g : Graph) (due : List VariableId) (a : Arena) : Prop :=
  ∀ key (v : Nat), a.lookup (.binding key) = some v → (a.node g v).isFlagged = true →
    ((a.var v).isCreated = true ↔ v ∈ due.map a.terminal)

/-- A variable whose storage is made in this root. -/
def Provided (a : Arena) (due : List VariableId) (v : VariableId) : Prop :=
  v < a.vars.size ∧ a.terminal v ∈ due.map a.terminal

/-- The order of what is due does not matter ... -/
theorem Marked.perm (m : Marked g due a) (perm : due.Perm due') : Marked g due' a :=
  fun key v found flagged => (m key v found flagged).trans (perm.map _).mem_iff

theorem Provided.of_mem (lt : v < a.vars.size) (mem : v ∈ due) : a.Provided due v :=
  ⟨lt, List.mem_map_of_mem mem⟩

/-- ... nor does it to what is provided. -/
theorem Provided.perm (provided : a.Provided due v) (perm : due.Perm due') :
    a.Provided due' v := ⟨provided.1, (perm.map _).mem_iff.mp provided.2⟩

namespace Consistent

/-- A storage found by its key is its own terminal storage. -/
theorem terminal_of_lookup (c : Consistent g before due a) {key : StorageKey}
    (found : a.lookup key = some v) : a.terminal v = v :=
  c.linked.terminal_of_none (c.stored key v found).lt (c.stored key v found).link

/-- The storage found under the key of a node has the profile of the node. -/
theorem profile_of_lookup (c : Consistent g before due a) (uniform : g.Uniform) {n : NodeId}
    (lt : n < g.nodes.size) {key : StorageKey} (found : a.lookup key = some v)
    (bound : key.bindingKey = (g.node n).key) : (a.node g v).profile = (g.node n).profile := by
  have storage := c.stored key v found
  exact uniform.profile_eq _ n (c.node_lt v storage.lt) lt (storage.key.trans bound)

/-- Variables of one key belong to nodes of one profile. -/
theorem profile_eq (c : Consistent g before due a) (uniform : g.Uniform) {w : Nat}
    (v_lt : v < a.vars.size) (w_lt : w < a.vars.size)
    (key : (a.node g v).key = (a.node g w).key) :
    (a.node g w).profile = (a.node g v).profile :=
  uniform.profile_eq _ _ (c.node_lt w w_lt) (c.node_lt v v_lt) key.symm

/-- Links lead to variables of the same storage key. -/
theorem key_terminal (c : Consistent g before due a) :
    ∀ v : Nat, v < a.vars.size → (a.node g (a.terminal v)).key = (a.node g v).key := by
  refine c.linked.link_induction ?_ ?_
  · intro v lt link
    rw [c.linked.terminal_of_none lt link]
  · intro v lt u _ link ih
    rw [c.linked.terminal_of_some lt link, ih, c.key_link v lt u link]

theorem terminal_lt (c : Consistent g before due a) (lt : v < a.vars.size) :
    a.terminal v < a.vars.size :=
  Nat.lt_of_le_of_lt (c.linked.terminal_le v lt) lt

/-! ### What leaves the books as they are -/

/-- Flags do not matter to consistency. -/
theorem of_sameValues (c : Consistent g before due a) (same : a.SameValues a') :
    Consistent g before due a' where
  linked := same.linked c.linked
  extends' := c.extends'.trans same.toExtends
  node_lt v lt := by rw [same.node]; exact c.node_lt v (same.size_eq ▸ lt)
  key_link v lt u link := by
    rw [same.node_eq, same.node_eq]
    exact c.key_link v (same.size_eq ▸ lt) u (by rw [← same.link, link])
  once := same.keysOnce c.once
  stored key v found := (c.stored key v (by rw [← same.lookup, found])).mono same.toExtends
  stays key v found := by rw [same.lookup, c.stays key v found]
  stored_old key v found lt := by
    rw [same.node_eq]
    exact c.stored_old key v (by rw [← same.lookup, found]) lt
  stored_new key v found le := by
    rw [funext same.terminal]
    exact c.stored_new key v (by rw [← same.lookup, found]) le
  kept v lt shared reach := by
    rw [same.node_eq] at shared reach ⊢
    rw [same.lookup, same.terminal]
    exact c.kept v (same.size_eq ▸ lt) shared reach
  due_lt v mem := by rw [same.size_eq]; exact c.due_lt v mem
  due_reach v mem := by rw [same.node_eq]; exact c.due_reach v mem
  due_nodup := by rw [funext same.terminal]; exact c.due_nodup

theorem perm (c : Consistent g before due a) (perm : due.Perm due') :
    Consistent g before due' a where
  linked := c.linked
  extends' := c.extends'
  node_lt := c.node_lt
  key_link := c.key_link
  once := c.once
  stored := c.stored
  stays := c.stays
  stored_old := c.stored_old
  stored_new key v found le := (perm.map _).mem_iff.mp (c.stored_new key v found le)
  kept := c.kept
  due_lt v mem := c.due_lt v (perm.mem_iff.mpr mem)
  due_reach v mem := c.due_reach v (perm.mem_iff.mpr mem)
  due_nodup := (perm.map _).nodup_iff.mp c.due_nodup

/-- A variable whose storage is not made yet can be put on a stack. -/
theorem schedule (c : Consistent g before due a) (lt : v < a.vars.size)
    (reach : (a.node g v).outlivesRoot = true ∨ before.vars.size ≤ v)
    (new : a.terminal v ∉ due.map a.terminal) : Consistent g before (v :: due) a where
  linked := c.linked
  extends' := c.extends'
  node_lt := c.node_lt
  key_link := c.key_link
  once := c.once
  stored := c.stored
  stays := c.stays
  stored_old := c.stored_old
  stored_new key v found le := List.mem_cons_of_mem _ (c.stored_new key v found le)
  kept := c.kept
  due_lt w mem := by
    rcases List.mem_cons.mp mem with rfl | mem
    · exact lt
    · exact c.due_lt w mem
  due_reach w mem := by
    rcases List.mem_cons.mp mem with rfl | mem
    · exact reach
    · exact c.due_reach w mem
  due_nodup := List.nodup_cons.mpr ⟨new, c.due_nodup⟩

/-- What is due keeps its terminal storages when the arena grows. -/
theorem map_terminal_eq (c : Consistent g before due a) (extends' : a.Extends a')
    (linked' : a'.Linked) : due.map a'.terminal = due.map a.terminal :=
  List.map_congr_left fun v mem => extends'.terminal_eq c.linked linked' v (c.due_lt v mem)

/-- What is provided stays so when the arena grows and more becomes due. -/
theorem provided_mono (c : Consistent g before due a) (extends' : a.Extends a')
    (linked' : a'.Linked) (more : ∀ v ∈ due, v ∈ due') (provided : a.Provided due v) :
    a'.Provided due' v := by
  refine ⟨Nat.lt_of_lt_of_le provided.1 extends'.size_le, ?_⟩
  obtain ⟨t, mem, eq⟩ := List.mem_map.mp provided.2
  rw [extends'.terminal_eq c.linked linked' v provided.1, ← eq,
    ← extends'.terminal_eq c.linked linked' t (c.due_lt t mem)]
  exact List.mem_map_of_mem (more t mem)

/-- What was due stays in order when the arena grows. -/
theorem due_extends (c : Consistent g before due a) (extends' : a.Extends a')
    (linked' : a'.Linked) :
    (∀ v ∈ due, v < a'.vars.size) ∧
      (∀ v ∈ due, (a'.node g v).outlivesRoot = true ∨ before.vars.size ≤ v) ∧
      (due.map a'.terminal).Nodup := by
  refine ⟨fun v mem => Nat.lt_of_lt_of_le (c.due_lt v mem) extends'.size_le, fun v mem => ?_, ?_⟩
  · rw [extends'.node_eq (c.due_lt v mem)]
    exact c.due_reach v mem
  · rw [c.map_terminal_eq extends' linked']
    exact c.due_nodup

/-- The storage of what is due is there already. -/
theorem size_notMem_due (c : Consistent g before due a) : a.vars.size ∉ due.map a.terminal := by
  intro mem
  obtain ⟨v, due, eq⟩ := List.mem_map.mp mem
  exact absurd eq (Nat.ne_of_lt (c.terminal_lt (c.due_lt v due)))

/-! ### New variables -/

section Allocate

variable {n : NodeId} {link : Option VariableId}

theorem node_lt_allocate (c : Consistent g before due a) (n_lt : n < g.nodes.size) (q : Request) :
    ∀ v : Nat, v < (a.allocate n q link).2.vars.size →
      ((a.allocate n q link).2.var v).node < g.nodes.size := by
  intro v lt
  rcases lt_or_eq_of_lt_allocate lt with old | rfl
  · rw [(extends_allocate a n q link).node old]
    exact c.node_lt v old
  · rw [var_allocate_self]
    exact n_lt

theorem key_link_allocate (c : Consistent g before due a) (q : Request)
    (inside : ∀ u : Nat, link = some u → u < a.vars.size ∧ (a.node g u).key = (g.node n).key) :
    ∀ v : Nat, v < (a.allocate n q link).2.vars.size → ∀ u : Nat,
      ((a.allocate n q link).2.var v).link = some u →
      ((a.allocate n q link).2.node g u).key = ((a.allocate n q link).2.node g v).key := by
  intro v lt u leads
  have grows := extends_allocate a n q link
  rcases lt_or_eq_of_lt_allocate lt with old | rfl
  · rw [grows.link old] at leads
    have earlier := c.linked.link_lt v old u leads
    rw [grows.node_eq old, grows.node_eq (Nat.lt_trans earlier old)]
    exact c.key_link v old u leads
  · rw [var_allocate_self] at leads
    rw [node_allocate_self, grows.node_eq (inside u leads).1, (inside u leads).2]

/-- A new variable that is not stored.  It refers to a variable of the same key, or stands alone;
    if its node is shared, it has to end in the storage of the key. -/
theorem allocate (c : Consistent g before due a) (n_lt : n < g.nodes.size) (q : Request)
    (inside : ∀ u : Nat, link = some u → u < a.vars.size ∧ (a.node g u).key = (g.node n).key)
    (kept : (g.node n).isShared = true → ∃ u : Nat, link = some u ∧
      a.lookup (.binding (g.node n).key) = some (a.terminal u)) :
    Consistent g before due (a.allocate n q link).2 := by
  have grows := extends_allocate a n q link
  have linked' := c.linked.allocate n q fun u leads => (inside u leads).1
  have terminal_eq := grows.terminal_eq c.linked linked'
  obtain ⟨due_lt, due_reach, due_nodup⟩ := c.due_extends grows linked'
  exact {
    linked := linked'
    extends' := c.extends'.trans grows
    node_lt := c.node_lt_allocate n_lt q
    key_link := c.key_link_allocate q inside
    once := c.once
    stored := fun key v found => (c.stored key v found).mono grows
    stays := c.stays
    stored_old := by
      intro key v found lt
      rw [grows.node_eq (c.stored key v found).lt]
      exact c.stored_old key v found lt
    stored_new := by
      intro key v found le
      rw [c.map_terminal_eq grows linked']
      exact c.stored_new key v found le
    kept := by
      intro v lt shared reach
      rcases lt_or_eq_of_lt_allocate lt with old | rfl
      · rw [grows.node_eq old] at shared reach ⊢
        rw [terminal_eq v old]
        exact c.kept v old shared reach
      · rw [node_allocate_self] at shared ⊢
        obtain ⟨u, rfl, found⟩ := kept shared
        have leads : ((a.allocate n q (some u)).2.var a.vars.size).link = some u := by
          rw [var_allocate_self]
        rw [linked'.terminal_of_some lt leads, terminal_eq u (inside u rfl).1]
        exact found
    due_lt, due_reach, due_nodup }

/-- A new storage, found from now on under a key that was free.  It is due at once. -/
theorem stock (c : Consistent g before due a) (n_lt : n < g.nodes.size) (q : Request)
    {k : StorageKey} (bound : k.bindingKey = (g.node n).key)
    (kind : (g.node n).isShared = k.block?.isNone) (free : a.lookup k = none) :
    Consistent g before (a.vars.size :: due)
      ((a.allocate n q none).2.store k a.vars.size) := by
  set a₁ := (a.allocate n q none).2 with allocated
  have grows : a.Extends (a₁.store k a.vars.size) :=
    (extends_allocate a n q none).trans (extends_store a₁ k _)
  have linked₁ : a₁.Linked := c.linked.allocate n q fun _ leads => by cases leads
  have linked' : (a₁.store k a.vars.size).Linked := linked₁.of_extends (extends_store a₁ k _) rfl
  have terminal_eq := grows.terminal_eq c.linked linked'
  have map_eq := c.map_terminal_eq grows linked'
  obtain ⟨due_lt, due_reach, due_nodup⟩ := c.due_extends grows linked'
  -- the new variable is its own storage
  have new_lt : a.vars.size < (a₁.store k a.vars.size).vars.size := by
    show a.vars.size < (a.allocate n q none).2.vars.size
    rw [size_allocate]
    omega
  have new_var : (a₁.store k a.vars.size).var a.vars.size =
      { id := a.vars.size, node := n, request := q } := var_allocate_self a n q none
  have new_node : (a₁.store k a.vars.size).node g a.vars.size = g.node n :=
    node_allocate_self a n q none
  have terminal_new : (a₁.store k a.vars.size).terminal a.vars.size = a.vars.size :=
    linked'.terminal_of_none new_lt (by rw [new_var])
  exact {
    linked := linked'
    extends' := c.extends'.trans grows
    node_lt := c.node_lt_allocate n_lt q
    key_link := c.key_link_allocate q fun _ leads => by cases leads
    once := KeysOnce.store (a := a₁) c.once k _
    stored := by
      intro key v found
      rcases lookup_store_cases found with ⟨rfl, rfl⟩ | old
      · exact ⟨new_lt, by rw [new_var], by rw [new_node, bound], by rw [new_node, kind]⟩
      · exact (c.stored key v old).mono grows
    stays := fun key v found => lookup_store_of_free (a := a₁) free (c.stays key v found)
    stored_old := by
      intro key v found lt
      rcases lookup_store_cases found with ⟨-, rfl⟩ | old
      · exact absurd lt (Nat.not_lt_of_le c.extends'.size_le)
      · rw [grows.node_eq (c.stored key v old).lt]
        exact c.stored_old key v old lt
    stored_new := by
      intro key v found le
      rw [List.map_cons, map_eq, terminal_new]
      rcases lookup_store_cases found with ⟨-, rfl⟩ | old
      · exact List.mem_cons_self
      · exact List.mem_cons_of_mem _ (c.stored_new key v old le)
    kept := by
      intro v lt shared reach
      rcases lt_or_eq_of_lt_allocate lt with old | rfl
      · rw [grows.node_eq old] at shared reach ⊢
        rw [terminal_eq v old]
        exact lookup_store_of_free (a := a₁) free (c.kept v old shared reach)
      · rw [new_node] at shared ⊢
        rw [terminal_new, ← bound]
        cases k with
        | binding key => exact lookup_store_self _ _ _
        | hoisted key block => rw [shared] at kind; cases kind
    due_lt := List.forall_mem_cons.mpr ⟨new_lt, due_lt⟩
    due_reach := List.forall_mem_cons.mpr ⟨.inr c.extends'.size_le, due_reach⟩
    due_nodup := by
      rw [List.map_cons, terminal_new]
      refine List.nodup_cons.mpr ⟨?_, due_nodup⟩
      rw [map_eq]
      exact c.size_notMem_due }

end Allocate

end Consistent

end Arena

end ObjectGraph
