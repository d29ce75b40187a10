import Mathlib.Data.List.TFAE
import Mathlib.Tactic.TFAE
import ObjectGraph.Proofs.Plan.Visits
import ObjectGraph.Proofs.Sample

/-
  How far the links of variables go.

  A variable that refers to another one is meant to refer to the one that holds the value.  There is
  one way for a second hop to come about.  When a root makes a singleton of an earlier root again,
  the new variable refers to the old storage.  If that happens for the slot of a deferred factory,
  the new variable enters the table of shared variables, and each further deferred use of the node
  in this root refers to it instead of the storage.

  `Leg.Rehands` describes such a root by what its plan makes and hands out.  `links_direct_tfae`
  shows that it is the only way: links lead to storages directly exactly if no root rehands, and the
  same holds for the one storage of all variables of a singleton.
-/

namespace ObjectGraph

open Arena

variable {g : Graph} {a before : Arena} {due : List VariableId}

/-! ## Links of new variables -/

namespace Placed

variable {n : NodeId} {q : Request} {p : Placed} {v u : Nat}

theorem link_allocate_new {link : Option VariableId} (new : a.vars.size ≤ v)
    (lt : v < (a.allocate n q link).2.vars.size) :
    ((a.allocate n q link).2.var v).link = link := by
  have eq : v = a.vars.size := by
    rw [size_allocate] at lt
    omega
  rw [eq, var_allocate_self]

/-- A variable placed by lifetime refers to a storage, if to anything. -/
theorem Outcome.link_new (outcome : Outcome g a n q p) (c : Consistent g before due a)
    (new : a.vars.size ≤ v) (lt : v < p.arena.vars.size)
    (leads : (p.arena.var v).link = some u) : (p.arena.var u).link = none := by
  -- what is found under a key is no new variable, and it holds its own value
  have unlinked {b : Arena} {k : StorageKey} {s : Nat} (found : a.lookup k = some s)
      (grows : a.Extends b) : (b.var s).link = none := by
    have storage := c.stored k s found
    rw [grows.link storage.lt, storage.link]
  cases outcome with
  | @refer k s found bound kind ready inside =>
    have leads : ((a.allocate n q (some s)).2.var v).link = some u := leads
    rw [link_allocate_new new lt] at leads
    cases leads
    exact unlinked found (extends_allocate a n q _)
  | there => exact absurd lt (Nat.not_lt_of_le new)
  | again => exact absurd lt (by simpa [setCreated] using new)
  | @remake s _ found _ _ _ launches =>
    have same := launches.same
    rw [same.size_eq] at lt
    rw [same.link] at leads ⊢
    have marked := sameValues_setCreated a s true
    rw [link_allocate_new (by rw [marked.size_eq]; exact new) lt] at leads
    cases leads
    exact unlinked found (marked.toExtends.trans (extends_allocate _ n q _))
  | @stock k _ _ _ _ launches =>
    have same := launches.same
    rw [same.size_eq] at lt
    rw [same.link, show ((((a.allocate n q none).2.store k a.vars.size)).var v).link = none from
      link_allocate_new new lt] at leads
    cases leads
  | fresh _ launches =>
    have same := launches.same
    rw [same.size_eq] at lt
    rw [same.link, link_allocate_new new lt] at leads
    cases leads

/-- A variable that is put on a stack and refers to another one makes a storage of an earlier root
    again. -/
theorem Outcome.link_made (outcome : Outcome g a n q p) (c : Consistent g before due a)
    (m : Marked g due a) (uniform : g.Uniform) (n_lt : n < g.nodes.size)
    (placed : p.placement ≠ .reference) (linked : (p.arena.var p.var).link ≠ none) :
    before.contains (g.node n).key = true := by
  have alone {b : Arena} (launches : Launches b a.vars.size p)
      (new : (b.var a.vars.size).link = none) : False := by
    rw [launches.var, launches.same.link, new] at linked
    exact linked rfl
  cases outcome with
  | refer => exact (placed rfl).elim
  | there => exact (placed rfl).elim
  | @again s found outside idle =>
    have same := sameValues_setCreated a s true
    exact (linked ((same.link s).trans (c.stored _ s found).link)).elim
  | @remake s _ found inside flagged idle launches =>
    -- a storage of this root would be due, and so created
    have profile := c.profile_of_lookup uniform n_lt found rfl
    have old : s < before.vars.size := by
      refine Nat.lt_of_not_le fun le => ?_
      have mem := c.stored_new _ s found le
      rw [(m _ s found (by rw [Node.isFlagged_eq profile, flagged])).mpr mem] at idle
      cases idle
    rw [contains, (c.stored_old _ s found old).1]
    rfl
  | @stock k _ free bound kind launches =>
    exact (alone launches (congrArg Variable.link (var_allocate_self a n q none))).elim
  | fresh unshared launches =>
    exact (alone launches (congrArg Variable.link (var_allocate_self a n q none))).elim

/-- What is put on a stack by its lifetime is no storage that is due. -/
theorem Outcome.not_due (outcome : Outcome g a n q p) (c : Consistent g before due a)
    (m : Marked g due a) (uniform : g.Uniform) (n_lt : n < g.nodes.size)
    (placed : p.placement ≠ .reference) {s : Nat}
    (found : a.lookup (.binding (g.node n).key) = some s) (flagged : (g.node n).isFlagged = true) :
    s ∉ due.map a.terminal := by
  have profile := c.profile_of_lookup uniform n_lt found rfl
  rw [← m _ s found (by rw [Node.isFlagged_eq profile, flagged])]
  have shared := Node.isShared_of_isFlagged flagged
  cases outcome with
  | refer => exact (placed rfl).elim
  | there => exact (placed rfl).elim
  | again found' outside idle =>
    rw [found] at found'
    cases found'
    rw [idle]
    exact Bool.false_ne_true
  | remake found' inside flagged' idle launches =>
    rw [found] at found'
    cases found'
    rw [idle]
    exact Bool.false_ne_true
  | @stock k _ free bound kind launches =>
    rw [shared] at kind
    cases k with
    | binding key =>
      cases bound
      rw [found] at free
      cases free
    | hoisted key block => cases kind
  | fresh unshared launches =>
    rw [shared] at unshared
    cases unshared

end Placed

/-! ## Variables that are handed on -/

/-- Two deferred uses of one node.  For `x` a variable is made, though an earlier root has made its
    storage already; `y` is another variable. -/
structure Rehand (g : Graph) (before a : Arena) (made : List VariableId)
    (x y : VariableId × Supply) : Prop where
  deferred : (a.node g x.1).isDeferred = true
  deferred' : (a.node g y.1).isDeferred = true
  node : (a.var x.2.var).node = (a.var y.2.var).node
  inside : (a.node g x.2.var).isOutside = false
  made : x.2.var ∈ made
  ne : x.2.var ≠ y.2.var
  earlier : before.contains (a.node g x.2.var).key = true

/-- The plan of the root makes a storage of an earlier root again for a deferred use, and hands out
    another variable for a second deferred use of the same node. -/
def Leg.Rehands (g : Graph) (l : Leg) : Prop :=
  ∃ x ∈ Instantiation.handed l.tour.plan.instantiations,
    ∃ y ∈ Instantiation.handed l.tour.plan.instantiations,
      Rehand g l.before l.tour.arena l.tour.plan.targets x y

/-- When the arena grows, the same pairs hand on, unless other variables are made. -/
theorem Rehand.extends_iff {a' : Arena} {made : List VariableId} {x y : VariableId × Supply}
    (grows : a.Extends a') (x_lt : x.1 < a.vars.size ∧ x.2.var < a.vars.size)
    (y_lt : y.1 < a.vars.size ∧ y.2.var < a.vars.size)
    (made_iff : (a.node g x.2.var).isOutside = false → (x.2.var ∈ made ↔ x.2.var ∈ due)) :
    Rehand g before a' made x y ↔ Rehand g before a due x y := by
  have giver := grows.node_eq (g := g) x_lt.1
  have giver' := grows.node_eq (g := g) y_lt.1
  have given := grows.node_eq (g := g) x_lt.2
  have node := grows.node x_lt.2
  have node' := grows.node y_lt.2
  constructor
  · rintro ⟨deferred, deferred', same, inside, mem, ne, earlier⟩
    rw [giver] at deferred
    rw [giver'] at deferred'
    rw [node, node'] at same
    rw [given] at inside earlier
    exact ⟨deferred, deferred', same, inside, (made_iff inside).mp mem, ne, earlier⟩
  · rintro ⟨deferred, deferred', same, inside, mem, ne, earlier⟩
    rw [← giver] at deferred
    rw [← giver'] at deferred'
    rw [← node, ← node'] at same
    have mem' := (made_iff inside).mpr mem
    rw [← given] at inside earlier
    exact ⟨deferred, deferred', same, inside, mem', ne, earlier⟩

namespace Stage

variable {st st' : Stage}

/-- What holds of links at each stage of a walk that started from the arena `before`. -/
structure LinkSound (g : Graph) (before : Arena) (st : Stage) : Prop where
  /-- The shared variables were handed out. -/
  table : ∀ n (v : Nat), st.walk.shared.lookup n = some v → (g.node n).isOutside = false ∧
    ∃ x ∈ st.handed, x.2.var = v ∧ (st.arena.node g x.1).isDeferred = true
  /-- What is made for a deferred use is shared. -/
  entered : ∀ x ∈ st.handed, (st.arena.node g x.1).isDeferred = true →
    (st.arena.node g x.2.var).isOutside = false → x.2.var ∈ st.due →
    st.walk.shared.lookup (st.arena.var x.2.var).node = some x.2.var
  /-- Handed out are new variables, values from outside apart. -/
  recent : ∀ x ∈ st.handed, (st.arena.node g x.2.var).isOutside = false →
    before.vars.size ≤ x.2.var
  /-- A variable to be made that refers to another one makes a storage of an earlier root again. -/
  again : ∀ v : Nat, v ∈ st.due → (st.arena.var v).link ≠ none →
    before.contains (st.arena.node g v).key = true
  /-- A second hop comes from handing on. -/
  hop : ∀ v u : Nat, before.vars.size ≤ v → v < st.arena.vars.size →
    (st.arena.var v).link = some u → (st.arena.var u).link = none ∨
      ∃ x ∈ st.handed, ∃ y ∈ st.handed, Rehand g before st.arena st.due x y
  /-- Handing on makes a link. -/
  back : ∀ x ∈ st.handed, ∀ y ∈ st.handed, Rehand g before st.arena st.due x y →
    (st.arena.var y.2.var).link = some x.2.var

theorem LinkSound.of_passes (sound : LinkSound g before st) (passes : Passes g st st') :
    LinkSound g before st' := by
  have arena : st'.arena = st.arena := passes.arena
  have rehand {x y : VariableId × Supply} :
      Rehand g before st'.arena st'.due x y ↔ Rehand g before st.arena st.due x y := by
    rw [arena]
    exact ⟨fun r => { r with made := passes.due.mem_iff.mpr r.made },
      fun r => { r with made := passes.due.mem_iff.mp r.made }⟩
  constructor
  · rw [passes.shared, passes.handed, arena]
    exact sound.table
  · intro x mem deferred inside made
    rw [passes.handed] at mem
    rw [arena] at deferred inside ⊢
    rw [passes.shared]
    exact sound.entered x mem deferred inside (passes.due.mem_iff.mpr made)
  · rw [passes.handed, arena]
    exact sound.recent
  · intro v mem
    rw [arena]
    exact sound.again v (passes.due.mem_iff.mpr mem)
  · intro v u
    simp only [rehand, passes.handed]
    rw [arena]
    exact sound.hop v u
  · intro x x_mem y y_mem r
    rw [passes.handed] at x_mem y_mem
    rw [arena]
    exact sound.back x x_mem y y_mem (rehand.mp r)

section Supplied

variable {root target : VariableId} {n : NodeId} {e : Edge} {p : Placed} {s : Supply}

/-- A variable that becomes due is new, or from outside. -/
theorem Supplied.due_of_lt (uniform : g.Uniform) (sound : Sound g before st)
    (supplied : Supplied g before st st' root target n e p s) {v : Nat}
    (lt : v < st.arena.vars.size) (inside : (st'.arena.node g v).isOutside = false)
    (mem : v ∈ st'.due) : v ∈ st.due := by
  refine (supplied.due_cases mem).resolve_left ?_
  rintro ⟨rfl, -⟩
  rw [supplied.isOutside_eq uniform sound] at inside
  exact absurd (supplied.var_eq inside) (Nat.ne_of_lt lt)

/-- What is made for a slot was put on a stack for it. -/
theorem Supplied.placement_ne (sound : Sound g before st)
    (supplied : Supplied g before st st' root target n e p s)
    (inside : (g.node e.source).isOutside = false) (mem : s.var ∈ st'.due) :
    p.placement ≠ .reference := by
  intro placed
  rw [← supplied.due.mem_iff, Placed.dueAfter, placed, supplied.var_eq inside] at mem
  exact absurd (sound.consistent.due_lt _ mem) (Nat.lt_irrefl _)

theorem Supplied.isDeferredUse_eq (sound : Sound g before st)
    (supplied : Supplied g before st st' root target n e p s)
    (deferred : (st'.arena.node g target).isDeferred = true)
    (inside : (g.node e.source).isOutside = false) :
    Walk.isDeferredUse g (g.node n) e = true := by
  rw [Walk.isDeferredUse, ← supplied.node_target sound, deferred, inside]
  rfl

/-- A variable put on a stack that refers to another one makes a storage of an earlier root. -/
theorem Supplied.earlier_of_link (uniform : g.Uniform) (sound : Sound g before st)
    (supplied : Supplied g before st st' root target n e p s) (placed : p.placement ≠ .reference)
    (linked : (p.arena.var p.var).link ≠ none) :
    before.contains (g.node e.source).key = true := by
  have n_lt := supplied.source_lt uniform sound
  have eq := supplied.placed
  obtain ⟨-, existing, -, refers⟩ | ⟨-, p', outcome, same | same⟩ :=
    Walk.place_cases g root (Walk.isDeferredUse g (g.node n) e) st.walk e
  · rw [eq, refers] at placed
    exact (placed rfl).elim
  · obtain ⟨-, same⟩ := same
    rw [same] at eq
    subst eq
    exact outcome.link_made sound.consistent sound.marked uniform n_lt placed linked
  · obtain ⟨-, inline, same⟩ := same
    rw [same] at eq
    subst eq
    have linked : ((p'.arena.setBlockRoot p'.var).var p'.var).link ≠ none := linked
    rw [(sameValues_setBlockRoot _ _).link] at linked
    exact outcome.link_made sound.consistent sound.marked uniform n_lt (by rw [inline]; nofun)
      linked

/-- The link of a variable that is new after the step: it leads to a storage, or, for a deferred
    use, to the shared variable of the node. -/
theorem Supplied.link_new (sound : Sound g before st)
    (supplied : Supplied g before st st' root target n e p s) {v u : Nat}
    (new : st.arena.vars.size ≤ v) (lt : v < st'.arena.vars.size)
    (leads : (st'.arena.var v).link = some u) :
    (st'.arena.var u).link = none ∨ v = s.var ∧ Walk.isDeferredUse g (g.node n) e = true ∧
      st.walk.shared.lookup e.source = some u := by
  have same := supplied.same
  rw [same.size_eq] at lt
  rw [same.link] at leads ⊢
  rw [supplied.effect.var]
  have eq := supplied.placed
  obtain ⟨isDeferred, existing, found, refers⟩ | ⟨-, p', outcome, same' | same'⟩ :=
    Walk.place_cases g root (Walk.isDeferredUse g (g.node n) e) st.walk e
  · rw [refers] at eq
    subst eq
    have lt : v < (st.arena.allocate e.source e.request (some existing)).2.vars.size := lt
    have leads : ((st.arena.allocate e.source e.request (some existing)).2.var v).link = some u :=
      leads
    rw [Placed.link_allocate_new new lt] at leads
    rw [size_allocate] at lt
    have eq : v = st.arena.vars.size := Nat.le_antisymm (Nat.le_of_lt_succ lt) new
    cases leads
    exact .inr ⟨eq, isDeferred, found⟩
  · obtain ⟨-, same'⟩ := same'
    rw [same'] at eq
    subst eq
    exact .inl (outcome.link_new sound.consistent new lt leads)
  · obtain ⟨-, -, same'⟩ := same'
    rw [same'] at eq
    subst eq
    have flags := sameValues_setBlockRoot p'.arena p'.var
    have lt : v < (p'.arena.setBlockRoot p'.var).vars.size := lt
    have leads : ((p'.arena.setBlockRoot p'.var).var v).link = some u := leads
    rw [flags.size_eq] at lt
    rw [flags.link] at leads
    exact .inl ((flags.link u).trans (outcome.link_new sound.consistent new lt leads))

theorem Supplied.link_of_shared (supplied : Supplied g before st st' root target n e p s)
    (isDeferred : Walk.isDeferredUse g (g.node n) e = true) {u : Nat}
    (found : st.walk.shared.lookup e.source = some u) : (st'.arena.var s.var).link = some u := by
  have eq := supplied.placed
  rw [supplied.effect.var, supplied.same.link]
  obtain ⟨-, existing, found', refers⟩ | ⟨free, -⟩ :=
    Walk.place_cases g root (Walk.isDeferredUse g (g.node n) e) st.walk e
  · rw [found] at found'
    cases found'
    rw [eq, refers]
    exact congrArg Variable.link (var_allocate_self _ _ _ _)
  · rw [free isDeferred] at found
    cases found

/-- Once a variable was handed out for a storage of an earlier root, none is made for it. -/
theorem Supplied.not_made_again (uniform : g.Uniform) (rested : Rested g before)
    (sound : Sound g before st) (supplied : Supplied g before st st' root target n e p s)
    (isDeferred : Walk.isDeferredUse g (g.node n) e = true) (placed : p.placement ≠ .reference)
    {v : Nat} (provided : st.arena.Provided st.due v) (node : (st.arena.var v).node = e.source)
    (earlier : before.contains (g.node e.source).key = true) : False := by
  have c := sound.consistent
  have n_lt := supplied.source_lt uniform sound
  obtain ⟨k, found⟩ := Option.isSome_iff_exists.mp earlier
  -- the storage outlives roots, so the variable ends in it, and it is due
  have found' := c.stays _ k found
  have profile := c.profile_of_lookup uniform n_lt found' rfl
  have outlives := (c.stored_old _ k found' (rested.1.stored _ k found).lt).2
  rw [Node.outlivesRoot_eq profile] at outlives
  have flagged := Node.isFlagged_of_outlivesRoot outlives
  have node' : st.arena.node g v = g.node e.source := congrArg g.node node
  have ends := c.kept v provided.1 (by rw [node', Node.isShared_of_isFlagged flagged])
    (.inl (by rw [node', outlives]))
  rw [node', found'] at ends
  have due := provided.2
  rw [← Option.some.inj ends] at due
  obtain ⟨-, -, p', outcome, placed'⟩ := supplied.first_use isDeferred placed
  exact outcome.not_due c sound.marked uniform n_lt placed' found' flagged due

/-! ### Supplying a slot keeps links as they should be -/

theorem Sound.handed_lt (sound : Sound g before st) {x : VariableId × Supply}
    (mem : x ∈ st.handed) : x.1 < st.arena.vars.size ∧ x.2.var < st.arena.vars.size :=
  ⟨sound.consistent.due_lt x.1 (mem_due_of_handed mem), (sound.provided x mem).1⟩

theorem Supplied.mem_new (supplied : Supplied g before st st' root target n e p s) :
    (target, s) ∈ st'.handed := (supplied.handed _).mpr (.inl rfl)

theorem Supplied.mem_old (supplied : Supplied g before st st' root target n e p s)
    {x : VariableId × Supply} (mem : x ∈ st.handed) : x ∈ st'.handed :=
  (supplied.handed x).mpr (.inr mem)

/-- The pairs that were handed out hand on as before. -/
theorem Supplied.rehand_iff (uniform : g.Uniform) (sound : Sound g before st)
    (supplied : Supplied g before st st' root target n e p s) {x y : VariableId × Supply}
    (x_mem : x ∈ st.handed) (y_mem : y ∈ st.handed) :
    Rehand g before st'.arena st'.due x y ↔ Rehand g before st.arena st.due x y := by
  have x_lt := sound.handed_lt x_mem
  refine Rehand.extends_iff supplied.grown x_lt (sound.handed_lt y_mem) fun inside => ?_
  rw [← supplied.grown.node_eq x_lt.2] at inside
  exact ⟨supplied.due_of_lt uniform sound x_lt.2 inside, supplied.mem_due⟩

theorem LinkSound.table_of_supplied (sound : Sound g before st) (links : LinkSound g before st)
    (supplied : Supplied g before st st' root target n e p s) {m : NodeId} {v : Nat}
    (found : st'.walk.shared.lookup m = some v) : (g.node m).isOutside = false ∧
      ∃ x ∈ st'.handed, x.2.var = v ∧ (st'.arena.node g x.1).isDeferred = true := by
  obtain ⟨isDeferred, -, rfl, rfl⟩ | old := supplied.effect.lookup_shared found
  · simp only [Walk.isDeferredUse, Bool.and_eq_true, Bool.not_eq_true'] at isDeferred
    refine ⟨isDeferred.2, (target, s), supplied.mem_new, supplied.effect.var, ?_⟩
    rw [supplied.node_target sound, isDeferred.1]
  · obtain ⟨inside, x, mem, var, deferred⟩ := links.table m v old
    refine ⟨inside, x, supplied.mem_old mem, var, ?_⟩
    rw [supplied.grown.node_eq (sound.handed_lt mem).1, deferred]

theorem LinkSound.entered_of_supplied (uniform : g.Uniform) (sound : Sound g before st)
    (links : LinkSound g before st) (supplied : Supplied g before st st' root target n e p s)
    {x : VariableId × Supply} (mem : x ∈ st'.handed)
    (deferred : (st'.arena.node g x.1).isDeferred = true)
    (inside : (st'.arena.node g x.2.var).isOutside = false) (made : x.2.var ∈ st'.due) :
    st'.walk.shared.lookup (st'.arena.var x.2.var).node = some x.2.var := by
  have grown := supplied.grown
  rcases (supplied.handed x).mp mem with rfl | mem
  · rw [supplied.isOutside_eq uniform sound] at inside
    have isDeferred := supplied.isDeferredUse_eq sound deferred inside
    obtain ⟨-, block, -⟩ := supplied.first_use isDeferred
      (supplied.placement_ne sound inside made)
    rw [supplied.effect.shared, isDeferred, block, supplied.node_var inside, supplied.effect.var]
    exact List.lookup_cons_self
  · obtain ⟨giver_lt, x_lt⟩ := sound.handed_lt mem
    have made := supplied.due_of_lt uniform sound x_lt inside made
    rw [grown.node_eq giver_lt] at deferred
    rw [grown.node_eq x_lt] at inside
    rw [grown.node x_lt]
    exact (supplied.placed ▸ supplied.effect).lookup_keep
      (links.entered x mem deferred inside made)

theorem LinkSound.again_of_supplied (uniform : g.Uniform) (sound : Sound g before st)
    (links : LinkSound g before st) (supplied : Supplied g before st st' root target n e p s)
    {v : Nat} (made : v ∈ st'.due) (linked : (st'.arena.var v).link ≠ none) :
    before.contains (st'.arena.node g v).key = true := by
  by_cases old : v ∈ st.due
  · have v_lt := sound.consistent.due_lt v old
    rw [supplied.grown.link v_lt] at linked
    rw [supplied.grown.node_eq v_lt]
    exact links.again v old linked
  · rw [← supplied.due.mem_iff] at made
    have placed : p.placement ≠ .reference := by
      intro placed
      rw [Placed.dueAfter, placed] at made
      exact old made
    rw [Placed.dueAfter_of_ne placed] at made
    obtain rfl := (List.mem_cons.mp made).resolve_right old
    rw [supplied.same.node_eq, supplied.serves.key]
    exact supplied.earlier_of_link uniform sound placed (by rwa [← supplied.same.link])

/-- If the shared variable of a deferred use is linked itself, then it makes an old storage again,
    and is handed on. -/
theorem LinkSound.rehand_of_shared (sound : Sound g before st) (links : LinkSound g before st)
    (supplied : Supplied g before st st' root target n e p s)
    (isDeferred : Walk.isDeferredUse g (g.node n) e = true) {u : Nat}
    (found : st.walk.shared.lookup e.source = some u) (linked : (st.arena.var u).link ≠ none)
    (new : st.arena.vars.size ≤ s.var) :
    ∃ x ∈ st'.handed, Rehand g before st'.arena st'.due x (target, s) := by
  have grown := supplied.grown
  obtain ⟨node, made, -⟩ := sound.shared e.source u found
  obtain ⟨inside, x, x_mem, rfl, deferred⟩ := links.table e.source u found
  simp only [Walk.isDeferredUse, Bool.and_eq_true] at isDeferred
  obtain ⟨giver_lt, x_lt⟩ := sound.handed_lt x_mem
  have node : (st.arena.var x.2.var).node = e.source := node
  exact ⟨x, supplied.mem_old x_mem, {
    deferred := by rw [grown.node_eq giver_lt, deferred]
    deferred' := by rw [supplied.node_target sound, isDeferred.1]
    node := by rw [grown.node x_lt, node, supplied.node_var inside]
    inside := by rw [grown.node_eq x_lt, Arena.node, node, inside]
    made := supplied.mem_due made
    ne := Nat.ne_of_lt (Nat.lt_of_lt_of_le x_lt new)
    earlier := by
      rw [grown.node_eq x_lt]
      exact links.again x.2.var made linked }⟩

theorem LinkSound.hop_of_supplied (uniform : g.Uniform) (sound : Sound g before st)
    (links : LinkSound g before st) (supplied : Supplied g before st st' root target n e p s)
    {v u : Nat} (new : before.vars.size ≤ v) (v_lt : v < st'.arena.vars.size)
    (leads : (st'.arena.var v).link = some u) : (st'.arena.var u).link = none ∨
      ∃ x ∈ st'.handed, ∃ y ∈ st'.handed, Rehand g before st'.arena st'.due x y := by
  have grown := supplied.grown
  by_cases old : v < st.arena.vars.size
  · rw [grown.link old] at leads
    have u_lt := Nat.lt_trans (sound.consistent.linked.link_lt v old u leads) old
    rw [grown.link u_lt]
    exact (links.hop v u new old leads).imp_right fun ⟨x, x_mem, y, y_mem, rehand⟩ =>
      ⟨x, supplied.mem_old x_mem, y, supplied.mem_old y_mem,
        (supplied.rehand_iff uniform sound x_mem y_mem).mpr rehand⟩
  · obtain unlinked | ⟨rfl, isDeferred, found⟩ :=
      supplied.link_new sound (Nat.le_of_not_lt old) v_lt leads
    · exact .inl unlinked
    · have made := (sound.shared e.source u found).2.1
      rw [grown.link (sound.consistent.due_lt u made)]
      by_cases linked : (st.arena.var u).link = none
      · exact .inl linked
      · obtain ⟨x, x_mem, rehand⟩ := links.rehand_of_shared sound supplied isDeferred found linked
          (Nat.le_of_not_lt old)
        exact .inr ⟨x, x_mem, (target, s), supplied.mem_new, rehand⟩

/-- The new variable is not handed on to a use that was supplied earlier. -/
theorem Supplied.not_rehand (uniform : g.Uniform) (rested : Rested g before)
    (sound : Sound g before st) (supplied : Supplied g before st st' root target n e p s)
    {y : VariableId × Supply} (y_mem : y ∈ st.handed) :
    ¬ Rehand g before st'.arena st'.due (target, s) y := by
  intro rehand
  have inside := (supplied.isOutside_eq uniform sound).symm.trans rehand.inside
  have node := supplied.node_var inside
  have y_node : (st.arena.var y.2.var).node = e.source := by
    rw [← supplied.grown.node (sound.handed_lt y_mem).2, ← rehand.node, node]
  have earlier := rehand.earlier
  rw [Arena.node, node] at earlier
  exact supplied.not_made_again uniform rested sound
    (supplied.isDeferredUse_eq sound rehand.deferred inside)
    (supplied.placement_ne sound inside rehand.made) (sound.provided y y_mem) y_node earlier

/-- A variable that is handed on to the new use is linked to. -/
theorem LinkSound.link_of_rehand (uniform : g.Uniform) (sound : Sound g before st)
    (links : LinkSound g before st) (supplied : Supplied g before st st' root target n e p s)
    {x : VariableId × Supply} (x_mem : x ∈ st.handed)
    (rehand : Rehand g before st'.arena st'.due x (target, s)) :
    (st'.arena.var s.var).link = some x.2.var := by
  have grown := supplied.grown
  obtain ⟨giver_lt, x_lt⟩ := sound.handed_lt x_mem
  have made := supplied.due_of_lt uniform sound x_lt rehand.inside rehand.made
  have inside : (g.node e.source).isOutside = false := by
    have eq := rehand.inside
    rwa [Arena.node, rehand.node, ← Arena.node, supplied.isOutside_eq uniform sound] at eq
  have node : (st.arena.var x.2.var).node = e.source := by
    rw [← grown.node x_lt, rehand.node, supplied.node_var inside]
  have found := links.entered x x_mem (by rw [← grown.node_eq giver_lt, rehand.deferred])
    (by rw [← grown.node_eq x_lt, rehand.inside]) made
  rw [node] at found
  exact supplied.link_of_shared (supplied.isDeferredUse_eq sound rehand.deferred' inside) found

theorem LinkSound.of_supplied (uniform : g.Uniform) (rested : Rested g before)
    (sound : Sound g before st) (links : LinkSound g before st)
    (supplied : Supplied g before st st' root target n e p s) : LinkSound g before st' where
  table _ _ := links.table_of_supplied sound supplied
  entered _ := links.entered_of_supplied uniform sound supplied
  recent x mem inside := by
    rcases (supplied.handed x).mp mem with rfl | mem
    · rw [supplied.isOutside_eq uniform sound] at inside
      rw [supplied.var_eq inside]
      exact sound.consistent.extends'.size_le
    · rw [supplied.grown.node_eq (sound.handed_lt mem).2] at inside
      exact links.recent x mem inside
  again _ := links.again_of_supplied uniform sound supplied
  hop _ _ := links.hop_of_supplied uniform sound supplied
  back x x_mem y y_mem rehand := by
    rcases (supplied.handed x).mp x_mem with rfl | x_mem <;>
      rcases (supplied.handed y).mp y_mem with rfl | y_mem
    · exact (rehand.ne rfl).elim
    · exact (supplied.not_rehand uniform rested sound y_mem rehand).elim
    · exact links.link_of_rehand uniform sound supplied x_mem rehand
    · rw [supplied.grown.link (sound.handed_lt y_mem).2]
      exact links.back x x_mem y y_mem
        ((supplied.rehand_iff uniform sound x_mem y_mem).mp rehand)

end Supplied

theorem Run.linkSound (uniform : g.Uniform) (rested : Rested g before)
    (sound : Sound g before st) (links : LinkSound g before st) (run : Run g st st') :
    LinkSound g before st' := by
  induction run with
  | refl => exact links
  | tail run step ih =>
    have sound' := Run.sound uniform sound run
    obtain passes | ⟨_, _, _, _, _, _, supplied⟩ := step.supplied uniform sound'
    · exact ih.of_passes passes
    · exact ih.of_supplied uniform rested sound' supplied

end Stage

/-! ## Links of a leg -/

theorem Tour.Traced.linkSound (uniform : g.Uniform) {t : Tour} {first last : Walk}
    (traced : t.Traced g before first last) :
    Stage.LinkSound g before (.between last t.blocks.reverse) := by
  refine traced.run.linkSound uniform traced.rested traced.sound ?_
  obtain ⟨c, marked⟩ := traced.rested
  obtain ⟨p, outcome, serves, placed, same, due⟩ := traced.placed
  constructor
  · intro n v found
    have found : first.shared.lookup n = some v := found
    rw [traced.shared] at found
    cases found
  · nofun
  · nofun
  · intro v mem linked
    rw [due, List.mem_singleton] at mem
    have linked : (first.arena.var v).link ≠ none := linked
    show before.contains (first.arena.node g v).key = true
    rw [mem, same.link] at linked
    rw [mem, same.node_eq, serves.key]
    exact outcome.link_made c marked uniform (uniform.root_lt t.root traced.known) placed linked
  · intro v u new lt leads
    have lt : v < first.arena.vars.size := lt
    have leads : (first.arena.var v).link = some u := leads
    rw [same.size_eq] at lt
    rw [same.link] at leads
    exact .inl ((same.link u).trans (outcome.link_new c new lt leads))
  · nofun

/-- The links of a leg when it is over: a second hop comes from handing on, and handing on a
    singleton makes one. -/
structure Leg.LinkSound (g : Graph) (l : Leg) : Prop where
  hop : ∀ v u : Nat, l.before.vars.size ≤ v → v < l.tour.arena.vars.size →
    (l.tour.arena.var v).link = some u → (l.tour.arena.var u).link = none ∨ l.Rehands g
  back : l.Rehands g → ∃ v u w : Nat, v < l.tour.arena.vars.size ∧
    (l.tour.arena.var v).link = some u ∧ (l.tour.arena.var u).link = some w ∧
    (l.tour.arena.var v).node = (l.tour.arena.var u).node ∧
    (l.tour.arena.node g v).isOutside = false ∧ (l.tour.arena.node g v).lifetime = .singleton

theorem Tour.Traced.leg_linkSound (uniform : g.Uniform) {t : Tour} {first last : Walk}
    (traced : t.Traced g before first last) : Leg.LinkSound g ⟨before, t⟩ := by
  have sound := traced.run.sound uniform traced.sound
  have links := traced.linkSound uniform
  have handed := traced.handed_perm
  have due := traced.due_perm
  constructor
  · intro v u new lt leads
    rw [← traced.arena_eq] at lt leads
    obtain unlinked | ⟨x, x_mem, y, y_mem, rehand⟩ := links.hop v u new lt leads
    · exact .inl (traced.arena_eq ▸ unlinked)
    · rw [traced.arena_eq] at rehand
      exact .inr ⟨x, handed.mem_iff.mp x_mem, y, handed.mem_iff.mp y_mem,
        { rehand with made := due.mem_iff.mp rehand.made }⟩
  · rintro ⟨x, x_mem, y, y_mem, rehand⟩
    rw [← handed.mem_iff] at x_mem y_mem
    have rehand : Rehand g before t.arena (Stage.between last t.blocks.reverse).due x y :=
      { rehand with made := due.mem_iff.mpr rehand.made }
    rw [← traced.arena_eq] at rehand ⊢
    have c := sound.consistent
    have x_lt := (sound.provided x x_mem).1
    -- the storage that is made again outlives its root, so it is one of a singleton
    obtain ⟨k, found⟩ := Option.isSome_iff_exists.mp rehand.earlier
    have k_lt := (traced.rested.1.stored _ k found).lt
    have found := c.stays _ k found
    have profile := c.profile_of_lookup uniform (c.node_lt _ x_lt) found rfl
    have outlives := (c.stored_old _ k found k_lt).2
    rw [Node.outlivesRoot_eq profile] at outlives
    have singleton := (Node.outlivesRoot_iff.mp outlives).resolve_left
      (by rw [← Arena.node, rehand.inside]; exact Bool.false_ne_true)
    -- the variable that makes it is a new one
    have ends := c.kept x.2.var x_lt
      (Node.isShared_of_isFlagged (Node.isFlagged_of_outlivesRoot outlives)) (.inl outlives)
    have new := links.recent x x_mem rehand.inside
    cases leads : ((Stage.between last t.blocks.reverse).arena.var x.2.var).link with
    | none =>
      rw [c.linked.terminal_of_none x_lt leads] at ends
      have eq : k = x.2.var := Option.some.inj (found.symm.trans ends)
      rw [eq] at k_lt
      exact (Nat.not_lt_of_le new k_lt).elim
    | some w =>
      refine ⟨y.2.var, x.2.var, w, (sound.provided y y_mem).1, links.back x x_mem y y_mem rehand,
        leads, rehand.node.symm, ?_, ?_⟩
      · rw [Arena.node, ← rehand.node]
        exact rehand.inside
      · rw [Arena.node, ← rehand.node]
        exact singleton

/-! ## Links of a composition -/

section Composition

variable {legs : List Leg}

/-- A link that leads to a linked variable comes from a root that hands on. -/
theorem Graph.Toured.hop (uniform : g.Uniform) (toured : g.Toured legs a) {v u : Nat}
    (lt : v < a.vars.size) (leads : (a.var v).link = some u) :
    (a.var u).link = none ∨ ∃ l ∈ legs, l.Rehands g := by
  induction toured with
  | start => cases lt
  | @leg legs a root limit t earlier known ends ih =>
    have rested := earlier.rested uniform
    obtain ⟨first, last, traced⟩ := Graph.tour_traced rested uniform known ends
    have sound := traced.leg_sound uniform
    have grown : t.arena.Extends (t.remaining g) := extends_evict t.arena _
    have size : (t.remaining g).vars.size = t.arena.vars.size := size_evict t.arena _
    rw [size] at lt
    rw [grown.link lt] at leads
    have u_lt := Nat.lt_trans (sound.consistent.linked.link_lt v lt u leads) lt
    rw [grown.link u_lt]
    by_cases old : v < a.vars.size
    · have grows : a.Extends t.arena := sound.consistent.extends'
      rw [grows.link old] at leads
      rw [grows.link (Nat.lt_trans (rested.1.linked.link_lt v old u leads) old)]
      exact (ih old leads).imp_right fun ⟨l, mem, rehands⟩ =>
        ⟨l, List.mem_append_left _ mem, rehands⟩
    · exact ((traced.leg_linkSound uniform).hop v u (Nat.le_of_not_lt old) lt leads).imp_right
        fun rehands => ⟨_, List.mem_append_right _ (List.mem_singleton_self _), rehands⟩

/-- A root that hands on leaves a variable of a singleton two hops away from its storage. -/
theorem Graph.Toured.two_hops (uniform : g.Uniform) (toured : g.Toured legs a) {l : Leg}
    (mem : l ∈ legs) (rehands : l.Rehands g) : ∃ v u w : Nat, v < a.vars.size ∧
      (a.var v).link = some u ∧ (a.var u).link = some w ∧ (a.var v).node = (a.var u).node ∧
      (a.node g v).isOutside = false ∧ (a.node g v).lifetime = .singleton := by
  obtain ⟨first, last, traced⟩ := toured.traced uniform mem
  have linked := (traced.leg_sound uniform).consistent.linked
  have grows := toured.extends_of_mem uniform mem
  obtain ⟨v, u, w, lt, leads, leads', node, inside, singleton⟩ :=
    (traced.leg_linkSound uniform).back rehands
  have u_lt := Nat.lt_trans (linked.link_lt v lt u leads) lt
  exact ⟨v, u, w, Nat.lt_of_lt_of_le lt grows.size_le, by rw [grows.link lt, leads],
    by rw [grows.link u_lt, leads'], by rw [grows.node lt, grows.node u_lt, node],
    by rw [grows.node_eq lt, inside], by rw [grows.node_eq lt, singleton]⟩

/-- When links lead to storages directly, the storage of a variable is the one at the end of its
    links. -/
theorem Arena.Linked.storage_eq_terminal (linked : a.Linked)
    (direct : ∀ v u : Nat, v < a.vars.size → (a.var v).link = some u → (a.var u).link = none)
    {v : Nat} (lt : v < a.vars.size) : a.storage v = a.terminal v := by
  cases leads : (a.var v).link with
  | none => rw [linked.storage_of_none lt leads, linked.terminal_of_none lt leads]
  | some u =>
    have u_lt := Nat.lt_trans (linked.link_lt v lt u leads) lt
    rw [storage_of_some leads, linked.terminal_of_some lt leads,
      linked.terminal_of_none u_lt (direct v u lt leads)]

/-- Over all visits, the following are the same: each link leads to a variable that has none; taking
    the storage of a storage changes nothing; all variables of a singleton have one storage; and no
    root hands a singleton of an earlier root on from one deferred factory to another. -/
theorem links_direct_tfae (resolved : g.IsResolved) (visits : g.Visits legs a) : List.TFAE [
    ∀ v u : Nat, v < a.vars.size → (a.var v).link = some u → (a.var u).link = none,
    ∀ v : Nat, v < a.vars.size → a.storage (a.storage v) = a.storage v,
    ∀ v w : Nat, v < a.vars.size → w < a.vars.size → (a.node g v).isOutside = false →
      (a.node g v).lifetime = .singleton → (a.node g v).key = (a.node g w).key →
      a.storage v = a.storage w,
    ∀ l ∈ legs, ¬ l.Rehands g] := by
  have uniform := resolved.uniform
  have toured := visits.toured
  have rested := (toured.rested uniform).1
  have linked := rested.linked
  tfae_have 4 → 1 := by
    intro none v u lt leads
    refine (toured.hop uniform lt leads).resolve_right ?_
    rintro ⟨l, mem, rehands⟩
    exact none l mem rehands
  tfae_have 1 → 2 := by
    intro direct v lt
    cases leads : (a.var v).link with
    | none => rw [linked.storage_of_none lt leads, linked.storage_of_none lt leads]
    | some u =>
      have u_lt := Nat.lt_trans (linked.link_lt v lt u leads) lt
      rw [storage_of_some leads, linked.storage_of_none u_lt (direct v u lt leads)]
  tfae_have 1 → 3 := by
    intro direct v w v_lt w_lt inside singleton key
    rw [linked.storage_eq_terminal direct v_lt, linked.storage_eq_terminal direct w_lt]
    exact (toured.rested uniform).terminal_eq uniform v_lt w_lt
      (Node.outlivesRoot_iff.mpr (.inr singleton)) key
  tfae_have 2 → 4 := by
    intro idempotent l mem rehands
    obtain ⟨v, u, w, lt, leads, leads', -⟩ := toured.two_hops uniform mem rehands
    have eq := idempotent v lt
    rw [storage_of_some leads, storage_of_some leads'] at eq
    have u_lt := Nat.lt_trans (linked.link_lt v lt u leads) lt
    exact absurd eq (Nat.ne_of_lt (linked.link_lt u u_lt w leads'))
  tfae_have 3 → 4 := by
    intro one l mem rehands
    obtain ⟨v, u, w, lt, leads, leads', node, inside, singleton⟩ :=
      toured.two_hops uniform mem rehands
    have u_lt := Nat.lt_trans (linked.link_lt v lt u leads) lt
    have eq := one v u lt u_lt inside singleton (congrArg (fun n => (g.node n).key) node)
    rw [storage_of_some leads, storage_of_some leads'] at eq
    exact absurd eq.symm (Nat.ne_of_lt (linked.link_lt u u_lt w leads'))
  tfae_finish

end Composition

/-! ## A singleton that is handed on -/

/-- A singleton that is a root by itself, and then requested by two deferred factories. -/
def Sample.handedOn : Graph := Sample.graph <| Sample.setup [
  Sample.service "S" [] .singleton,
  Sample.later "F" ["S"],
  Sample.later "G" ["S"],
  Sample.service "R" ["F", "G"] .transient] ["S", "R"]

/-- The second factory is handed a variable that is two hops away from the storage. -/
theorem Sample.visits_handedOn : Sample.handedOn.IsResolved ∧ ∃ legs a,
    Sample.handedOn.Visits legs a ∧ 5 < a.vars.size ∧ (a.var 5).link = some 4 ∧
      (a.var 4).link = some 0 ∧ (a.node Sample.handedOn 5).isOutside = false ∧
      (a.node Sample.handedOn 5).lifetime = .singleton ∧
      (a.node Sample.handedOn 5).key = (a.node Sample.handedOn 4).key := by
  have found : (Sample.handedOn.visit false {}).map (fun v =>
      (decide (5 < v.arena.vars.size), (v.arena.var 5).link, (v.arena.var 4).link,
        (v.arena.node Sample.handedOn 5).isOutside, (v.arena.node Sample.handedOn 5).lifetime,
        (v.arena.node Sample.handedOn 5).key == (v.arena.node Sample.handedOn 4).key)) =
      some (true, some 4, some 0, false, .singleton, true) := by
    decide +kernel
  obtain ⟨v, ends, eq⟩ := Option.map_eq_some_iff.mp found
  simp only [Prod.mk.injEq, decide_eq_true_eq, beq_iff_eq] at eq
  exact ⟨Sample.isResolved _ (by decide +kernel), _, _, .visit .start ends, eq⟩

/-- So links do not always lead to a storage, and the variables of a singleton do not always have
    one storage. -/
theorem links_not_always_direct :
    ¬ (∀ g legs a, Graph.IsResolved g → g.Visits legs a →
      ∀ v u : Nat, v < a.vars.size → (a.var v).link = some u → (a.var u).link = none) ∧
    ¬ (∀ g legs a, Graph.IsResolved g → g.Visits legs a →
      ∀ v w : Nat, v < a.vars.size → w < a.vars.size → (a.node g v).isOutside = false →
        (a.node g v).lifetime = .singleton → (a.node g v).key = (a.node g w).key →
        a.storage v = a.storage w) := by
  obtain ⟨resolved, legs, a, visits, lt, leads, leads', inside, singleton, key⟩ :=
    Sample.visits_handedOn
  constructor
  · intro direct
    have none := direct _ legs a resolved visits 5 4 lt leads
    rw [leads'] at none
    cases none
  · intro one
    have eq := one _ legs a resolved visits 5 4 lt (by omega) inside singleton key
    rw [storage_of_some leads, storage_of_some leads'] at eq
    cases eq

/-- The root that does it is found by the way it hands variables on. -/
theorem rehands_handedOn : Sample.handedOn.IsResolved ∧ ∃ legs a,
    Sample.handedOn.Visits legs a ∧ ∃ l ∈ legs, l.Rehands Sample.handedOn := by
  obtain ⟨resolved, legs, a, visits, lt, leads, leads', -⟩ := Sample.visits_handedOn
  refine ⟨resolved, legs, a, visits, Classical.byContradiction fun none => ?_⟩
  have direct := ((links_direct_tfae resolved visits).out 0 3).mpr fun l mem rehands =>
    none ⟨l, mem, rehands⟩
  have eq := direct 5 4 lt leads
  rw [leads'] at eq
  cases eq

end ObjectGraph
