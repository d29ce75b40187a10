import ObjectGraph.Proofs.Graph.Queue
import ObjectGraph.Proofs.Plan.Lockstep
import ObjectGraph.Proofs.Plan.Reuse
import ObjectGraph.Proofs.Plan.Visits

/-
  What a root needs is made in the same way, whatever was made before.

  The walk through a root starts from the variables that earlier roots have left.  They decide about
  links, but not about the blocks: a use is served by what is due in this root or by a variable of its
  own, and what is left counts as not made yet.  So the walks through one request, be it in one graph
  or in two that match, and from whatever arenas at rest, run in lockstep (`Graph.Matches.lockstep`).

  `Mirrors` is the tie between two such walks.  Of the variables it says only which of them share
  their storage (`ends`), since the storages themselves depend on the past.
-/

namespace ObjectGraph

open Arena

namespace Stage

variable {g h : Graph} {R : NodeId → NodeId → Prop} {m : Pairing} {before before' : Arena}
  {st st' st₁ st₁' : Stage}

/-- What is known of the walk through a root by itself. -/
structure Steady (g : Graph) (before : Arena) (st : Stage) : Prop where
  sound : Sound g before st
  hoists : st.Hoists

theorem Steady.step (uniform : g.Uniform) (steady : Steady g before st) (step : Step g st st₁) :
    Steady g before st₁ :=
  ⟨step.sound uniform steady.sound, steady.hoists.step uniform steady.sound step⟩

/-- The ends of two variables that stand for each other. -/
def Ends (m : Pairing) (a b : Arena) (s t : VariableId) : Prop :=
  ∃ x y, m x y ∧ a.terminal x = s ∧ b.terminal y = t

/-- Two walks that differ in numbers and in what they started from, at most. -/
structure Mirrors (g h : Graph) (R : NodeId → NodeId → Prop) (m : Pairing) (st st' : Stage) :
    Prop where
  provided : ∀ {x y}, m x y → st.arena.Provided st.due x
  provided' : ∀ {x y}, m x y → st'.arena.Provided st'.due y
  stands : ∀ {x y : VariableId}, m x y → g.Stands h R (st.arena.var x).node (st'.arena.var y).node
  /-- The same variables share their storages. -/
  ends : ∀ {x y x' y'}, m x y → m x' y' →
    (st.arena.terminal x = st.arena.terminal x' ↔ st'.arena.terminal y = st'.arena.terminal y')
  /-- The current blocks share the same instances among their uses. -/
  hoisted : ∀ {r r' i j}, st.block? = some r → st'.block? = some r' → R i j →
    Option.Rel (Ends m st.arena st'.arena) (st.arena.lookup (.hoisted (g.node i).key r))
      (st'.arena.lookup (.hoisted (h.node j).key r'))
  /-- So do the deferred uses. -/
  shared : ∀ {i j}, R i j → Option.Rel m (st.walk.shared.lookup i) (st'.walk.shared.lookup j)

theorem Mirrors.symm (mirrors : Mirrors g h R m st st') :
    Mirrors h g (fun j i => R i j) (fun y x => m x y) st' st where
  provided := mirrors.provided'
  provided' := mirrors.provided
  stands pair := (mirrors.stands pair).symm
  ends pair pair' := (mirrors.ends pair pair').symm
  hoisted current current' pair := rel_mono (rel_flip (mirrors.hoisted current' current pair))
    fun _ _ ⟨x, y, pair, ends, ends'⟩ => ⟨y, x, pair, ends', ends⟩
  shared pair := rel_flip (mirrors.shared pair)

theorem Alike.due {N : NodeId → NodeId → Prop} (alike : Alike N R m st st') :
    List.Forall₂ m st.due st'.due := by
  have targets {is is' : List Instantiation} (all : List.Forall₂ (Instantiation.Alike m) is is') :
      List.Forall₂ m (is.map (·.target)) (is'.map (·.target)) :=
    List.forall₂_map_left_iff.mpr (List.forall₂_map_right_iff.mpr (all.imp fun _ _ => (·.target)))
  have found {bs bs' : List Block} (all : List.Forall₂ (Block.Alike m) bs bs') :
      List.Forall₂ (Instantiation.Alike m) (bs.flatMap (·.instantiations))
        (bs'.flatMap (·.instantiations)) :=
    List.rel_flatMap all fun _ _ => (·.instantiations)
  cases alike with
  | between stacked blocks =>
    exact List.rel_append (List.rel_append stacked.targets stacked.pending) (targets (found blocks))
  | within stacked blocks _ made =>
    exact List.rel_append (List.rel_append stacked.targets stacked.pending)
      (targets (List.rel_append made (found blocks)))
  | supplying stacked blocks _ made pair _ _ _ =>
    exact List.rel_append (List.rel_append stacked.targets stacked.pending)
      (.cons pair (targets (List.rel_append made (found blocks))))

/-! ## The same uses find something -/

section Finds

variable {root root' : VariableId} {e e' : Edge} {n n' : NodeId} {s : Nat}

/-- What is due for a use in one walk is due for it in the other one. -/
theorem Mirrors.placed_finds (mirrors : Mirrors g h R m st st') (corresponds : g.Matches h R)
    (uniform' : h.Uniform) (sound : Sound g before st) (sound' : Sound h before' st')
    (due : List.Forall₂ m st.due st'.due) (current : st.block? = some root)
    (current' : st'.block? = some root') (pair : R n n') (n_lt' : n' < h.nodes.size)
    (finds : Placed.Finds g st.due st.arena n (some root) s) :
    ∃ t, Ends m st.arena st'.arena s t ∧ Placed.Finds h st'.due st'.arena n' (some root') t := by
  have c := sound.consistent
  have c' := sound'.consistent
  have agrees := corresponds.agrees pair
  obtain ⟨k, key, found, mem⟩ := finds
  cases shared : (g.node n).isShared with
  | true =>
    cases (Placed.keyOf_shared shared).symm.trans key
    obtain ⟨x, x_mem, rfl⟩ := List.mem_map.mp mem
    obtain ⟨y, y_mem, paired⟩ := forall₂_left due x_mem
    -- the storage is an instance of the key, so the other variable is one of the other key
    have x_key : (st.arena.node g x).key = (g.node n).key :=
      (c.key_terminal x (c.due_lt x x_mem)).symm.trans (c.stored _ _ found).key
    have y_key : (st'.arena.node h y).key = (h.node n').key :=
      ((mirrors.stands paired).key corresponds pair).mp x_key
    have y_lt := c'.due_lt y y_mem
    have shared' : (h.node n').isShared = true := agrees.isShared ▸ shared
    have y_shared : (st'.arena.node h y).isShared = true :=
      (Node.isShared_eq (uniform'.profile_eq _ _ (c'.node_lt y y_lt) n_lt' y_key)).trans shared'
    have found' := c'.kept y y_lt y_shared (c'.due_reach y y_mem)
    rw [y_key] at found'
    exact ⟨_, ⟨x, y, paired, rfl, rfl⟩, _, Placed.keyOf_shared shared', found',
      List.mem_map_of_mem y_mem⟩
  | false =>
    obtain ⟨r, same, rfl⟩ := Placed.keyOf_unshared shared key
    cases same
    obtain ⟨t, found', ends⟩ := exists_of_rel_some (mirrors.hoisted current current' pair) found
    obtain ⟨-, reused, -⟩ := Placed.keyOf_hoisted_iff.mp key
    refine ⟨t, ends, _, Placed.keyOf_hoisted_iff.mpr ⟨agrees.isShared ▸ shared, ?_, rfl⟩, found', ?_⟩
    · rw [← corresponds.weight pair]
      exact reused
    · obtain ⟨x, y, paired, -, rfl⟩ := ends
      exact (mirrors.provided' paired).2

theorem Mirrors.finds (mirrors : Mirrors g h R m st st') (corresponds : g.Matches h R)
    (uniform' : h.Uniform) (sound : Sound g before st) (sound' : Sound h before' st')
    (due : List.Forall₂ m st.due st'.due) (current : st.block? = some root)
    (current' : st'.block? = some root') (pair : R e.source e'.source)
    (source_lt' : e'.source < h.nodes.size) {isDeferred : Bool}
    (finds : st.walk.Finds g st.due root isDeferred e s) :
    ∃ t, Ends m st.arena st'.arena s t ∧ st'.walk.Finds h st'.due root' isDeferred e' t := by
  rcases finds with ⟨deferred, v, found, ends⟩ | ⟨free, finds⟩
  · obtain ⟨v', found', paired⟩ := exists_of_rel_some (mirrors.shared pair) found
    exact ⟨_, ⟨v, v', paired, ends, rfl⟩, .inl ⟨deferred, v', found', rfl⟩⟩
  · obtain ⟨t, ends, finds'⟩ := mirrors.placed_finds corresponds uniform' sound sound' due current
      current' pair source_lt' finds
    exact ⟨t, ends, .inr
      ⟨fun deferred => (rel_none_iff (mirrors.shared pair)).mp (free deferred), finds'⟩⟩

end Finds

end Stage

/-- A variable is made at the same place. -/
theorem Graph.Matches.placementOf_eq {g h : Graph} {R : NodeId → NodeId → Prop}
    (corresponds : g.Matches h R) {i j : NodeId} (pair : R i j) {block block' : Option VariableId}
    (same : block.isSome = block'.isSome) :
    Placed.placementOf g i block = Placed.placementOf h j block' := by
  have agrees := corresponds.agrees pair
  rw [Placed.placementOf, Placed.placementOf, agrees.isOutside, agrees.lifetime, agrees.isShared,
    corresponds.weight pair, same]

/-- The same slots are supplied for later. -/
theorem Graph.Matches.isDeferredUse_eq {g h : Graph} {R : NodeId → NodeId → Prop}
    (corresponds : g.Matches h R) {n n' : NodeId} (pair : R n n') {e e' : Edge}
    (edge : e.Alike R e') :
    Walk.isDeferredUse h (h.node n') e' = Walk.isDeferredUse g (g.node n) e := by
  rw [Walk.isDeferredUse, Walk.isDeferredUse, (corresponds.agrees pair).isDeferred,
    (corresponds.agrees edge.source).isOutside]

namespace Stage

variable {g h : Graph} {R : NodeId → NodeId → Prop} {m : Pairing} {before before' : Arena}
  {st st' st₁ st₁' : Stage}

/-! ## Supplying a slot -/

section Supplied

variable {root target : VariableId} {n : NodeId} {e : Edge} {p : Placed} {s : Supply}
  {x y : VariableId}

theorem Supplied.terminal_eq (uniform : g.Uniform) (sound : Sound g before st)
    (supplied : Supplied g before st st₁ root target n e p s) (lt : x < st.arena.vars.size) :
    st₁.arena.terminal x = st.arena.terminal x :=
  supplied.grown.terminal_eq sound.consistent.linked
    (supplied.sound uniform sound).consistent.linked x lt

/-- A variable that is made for a slot has a storage that was not due. -/
theorem Supplied.terminal_ne (uniform : g.Uniform) (sound : Sound g before st)
    (supplied : Supplied g before st st₁ root target n e p s) (placed : p.placement ≠ .reference)
    (provided : st.arena.Provided st.due x) :
    st₁.arena.terminal s.var ≠ st₁.arena.terminal x := by
  have nodup := supplied.serves.consistent.due_nodup
  rw [Placed.dueAfter_of_ne placed, List.map_cons, List.nodup_cons,
    sound.consistent.map_terminal_eq supplied.serves.extends'
      supplied.serves.consistent.linked] at nodup
  rw [supplied.effect.var, supplied.same.terminal, supplied.terminal_eq uniform sound provided.1]
  intro same
  rw [same] at nodup
  exact nodup.1 provided.2

/-- A slot supplied by what is due shares its storage. -/
theorem Supplied.terminal_reused (supplied : Supplied g before st st₁ root target n e p s)
    {v : VariableId} (reuses : Placed.Reuses st.arena v p) : st₁.arena.terminal s.var = v := by
  rw [supplied.effect.var, supplied.same.terminal, reuses.ends]

theorem Supplied.provided (uniform : g.Uniform) (sound : Sound g before st)
    (supplied : Supplied g before st st₁ root target n e p s) :
    st₁.arena.Provided st₁.due s.var :=
  (supplied.sound uniform sound).provided _ ((supplied.handed _).mpr (.inl rfl))

theorem Supplied.provided_mono (uniform : g.Uniform) (sound : Sound g before st)
    (supplied : Supplied g before st st₁ root target n e p s)
    (provided : st.arena.Provided st.due x) : st₁.arena.Provided st₁.due x :=
  sound.consistent.provided_mono supplied.grown
    (supplied.sound uniform sound).consistent.linked (fun _ => supplied.mem_due) provided

theorem Supplied.node_stands (corresponds : g.Matches h R) (uniform : g.Uniform)
    (uniform' : h.Uniform) (sound : Sound g before st) (sound' : Sound h before' st')
    (supplied : Supplied g before st st₁ root target n e p s) {root' target' : VariableId}
    {n' : NodeId} {e' : Edge} {p' : Placed} {s' : Supply}
    (supplied' : Supplied h before' st' st₁' root' target' n' e' p' s')
    (pair : R e.source e'.source) :
    g.Stands h R (st₁.arena.var s.var).node (st₁'.arena.var s'.var).node := by
  have outside := supplied.isOutside_eq uniform sound
  have outside' := supplied'.isOutside_eq uniform' sound'
  have same := (corresponds.agrees pair).isOutside
  cases inside : (g.node e.source).isOutside with
  | false =>
    rw [supplied.node_var inside, supplied'.node_var (same ▸ inside)]
    exact .inl pair
  | true =>
    refine .inr ⟨outside.trans inside, outside'.trans (same ▸ inside), _, _, pair, ?_, ?_⟩
    · show (st₁.arena.node g s.var).key = _
      rw [supplied.effect.var, supplied.same.node_eq]
      exact supplied.serves.key
    · show (st₁'.arena.node h s'.var).key = _
      rw [supplied'.effect.var, supplied'.same.node_eq]
      exact supplied'.serves.key

theorem Supplied.lookup_eq (supplied : Supplied g before st st₁ root target n e p s)
    (key : StorageKey) : st₁.arena.lookup key = p.arena.lookup key := supplied.same.lookup key

end Supplied

/-- A slot that is supplied in both walks. -/
structure Both (g h : Graph) (R : NodeId → NodeId → Prop) (before before' : Arena)
    (st st₁ st' st₁' : Stage) (root root' : VariableId) (e e' : Edge) (p p' : Placed)
    (s s' : Supply) (isDeferred : Bool) : Prop where
  corresponds : g.Matches h R
  uniform : g.Uniform
  uniform' : h.Uniform
  sound : Sound g before st
  sound' : Sound h before' st'
  supplied : ∃ target n, Supplied g before st st₁ root target n e p s ∧
    Walk.isDeferredUse g (g.node n) e = isDeferred
  supplied' : ∃ target n, Supplied h before' st' st₁' root' target n e' p' s' ∧
    Walk.isDeferredUse h (h.node n) e' = isDeferred
  current : st.block? = some root
  current' : st'.block? = some root'
  block₁ : st₁.block? = some root
  block₁' : st₁'.block? = some root'
  source : R e.source e'.source

section Both

variable {root root' : VariableId} {e e' : Edge} {p p' : Placed} {s s' : Supply} {isDeferred : Bool}

theorem Both.symm
    (both : Both g h R before before' st st₁ st' st₁' root root' e e' p p' s s' isDeferred) :
    Both h g (fun j i => R i j) before' before st' st₁' st st₁ root' root e' e p' p s' s
      isDeferred where
  corresponds := both.corresponds.symm
  uniform := both.uniform'
  uniform' := both.uniform
  sound := both.sound'
  sound' := both.sound
  supplied := both.supplied'
  supplied' := both.supplied
  current := both.current'
  current' := both.current
  block₁ := both.block₁'
  block₁' := both.block₁
  source := both.source

variable (both : Both g h R before before' st st₁ st' st₁' root root' e e' p p' s s' isDeferred)
include both

/-- If the slot of one walk is supplied by what is due, so is the slot of the other one. -/
theorem Both.reuses (mirrors : Mirrors g h R m st st') (due : List.Forall₂ m st.due st'.due) {v : Nat}
    (finds : st.walk.Finds g st.due root isDeferred e v) :
    ∃ v', Ends m st.arena st'.arena v v' ∧ Placed.Reuses st'.arena v' p' := by
  obtain ⟨target', n', supplied', deferred'⟩ := both.supplied'
  obtain ⟨v', ends, finds'⟩ := mirrors.finds both.corresponds both.uniform' both.sound both.sound'
    due both.current both.current' both.source (supplied'.source_lt both.uniform' both.sound') finds
  have cases := supplied'.finds both.uniform' both.sound'
  rw [deferred'] at cases
  rcases cases with ⟨t, found, reuses⟩ | ⟨nothing, -⟩
  · cases finds'.unique found
    exact ⟨v', ends, reuses⟩
  · exact (nothing v' finds').elim

/-- Both slots are supplied by what is due, or both by a variable that is made at the same place. -/
theorem Both.cases (mirrors : Mirrors g h R m st st') (due : List.Forall₂ m st.due st'.due) :
    (∃ v v', Ends m st.arena st'.arena v v' ∧ Placed.Reuses st.arena v p ∧
      Placed.Reuses st'.arena v' p') ∨
    ∃ placement, placement ≠ .reference ∧
      Placed.Makes g st.arena e.source (some root) placement p ∧
      Placed.Makes h st'.arena e'.source (some root') placement p' := by
  obtain ⟨target, n, supplied, deferred⟩ := both.supplied
  obtain ⟨target', n', supplied', deferred'⟩ := both.supplied'
  have choice := supplied.finds both.uniform both.sound
  have choice' := supplied'.finds both.uniform' both.sound'
  rw [deferred] at choice
  rw [deferred'] at choice'
  rcases choice with ⟨v, finds, reuses⟩ | ⟨nothing, makes⟩
  · obtain ⟨v', ends, reuses'⟩ := both.reuses mirrors due finds
    exact .inl ⟨v, v', ends, reuses, reuses'⟩
  · rcases choice' with ⟨v', finds', -⟩ | ⟨-, makes'⟩
    · obtain ⟨v, -, reuses⟩ := both.symm.reuses mirrors.symm due.flip finds'
      exact (makes.placement_ne (Walk.placementFor_ne g root isDeferred e) reuses.placed).elim
    · refine .inr ⟨_, Walk.placementFor_ne g root isDeferred e, makes, ?_⟩
      have same : Walk.placementFor g root isDeferred e = Walk.placementFor h root' isDeferred e' := by
        unfold Walk.placementFor
        have same : (some root).isSome = (some root').isSome := rfl
        rw [both.corresponds.placementOf_eq both.source same]
      rw [same]
      exact makes'

/-- The new variables share their storages with the same old ones. -/
theorem Both.ends (mirrors : Mirrors g h R m st st') (due : List.Forall₂ m st.due st'.due)
    {x y : VariableId} (pair : m x y) : st₁.arena.terminal s.var = st₁.arena.terminal x ↔
      st₁'.arena.terminal s'.var = st₁'.arena.terminal y := by
  obtain ⟨target, n, supplied, -⟩ := both.supplied
  obtain ⟨target', n', supplied', -⟩ := both.supplied'
  have provided := mirrors.provided pair
  have provided' := mirrors.provided' pair
  rcases both.cases mirrors due with
    ⟨_, _, ⟨v, v', paired, rfl, rfl⟩, reuses, reuses'⟩ | ⟨placement, there, makes, makes'⟩
  · rw [supplied.terminal_reused reuses, supplied'.terminal_reused reuses',
      supplied.terminal_eq both.uniform both.sound provided.1,
      supplied'.terminal_eq both.uniform' both.sound' provided'.1]
    exact mirrors.ends paired pair
  · exact iff_of_false
      (supplied.terminal_ne both.uniform both.sound (makes.placement_ne there) provided)
      (supplied'.terminal_ne both.uniform' both.sound' (makes'.placement_ne there) provided')

theorem Both.hoisted (mirrors : Mirrors g h R m st st') (due : List.Forall₂ m st.due st'.due)
    {i j : NodeId} (pair : R i j) :
    Option.Rel (Ends (m.add s.var s'.var) st₁.arena st₁'.arena)
      (st₁.arena.lookup (.hoisted (g.node i).key root))
      (st₁'.arena.lookup (.hoisted (h.node j).key root')) := by
  obtain ⟨target, n, supplied, -⟩ := both.supplied
  obtain ⟨target', n', supplied', -⟩ := both.supplied'
  have sound₁ := supplied.sound both.uniform both.sound
  have sound₁' := supplied'.sound both.uniform' both.sound'
  have before := mirrors.hoisted both.current both.current' pair
  have old := rel_mono (Q := Ends (m.add s.var s'.var) st₁.arena st₁'.arena) before
    fun _ _ ⟨x, y, paired, ends, ends'⟩ => ⟨x, y, .inl paired,
      (supplied.terminal_eq both.uniform both.sound (mirrors.provided paired).1).trans ends,
      (supplied'.terminal_eq both.uniform' both.sound' (mirrors.provided' paired).1).trans ends'⟩
  rcases both.cases mirrors due with
    ⟨_, _, -, reuses, reuses'⟩ | ⟨placement, there, makes, makes'⟩
  · rw [supplied.lookup_eq, supplied'.lookup_eq, Arena.lookup, Arena.lookup, reuses.stored,
      reuses'.stored]
    exact old
  · have agrees := both.corresponds.agrees both.source
    have same : Placed.keyOf g e.source (some root) = some (.hoisted (g.node i).key root) ↔
        Placed.keyOf h e'.source (some root') = some (.hoisted (h.node j).key root') := by
      rw [Placed.keyOf_hoisted_iff, Placed.keyOf_hoisted_iff, agrees.isShared,
        both.corresponds.weight both.source, both.corresponds.key both.source pair]
    have lookup := makes.stored (.hoisted (g.node i).key root)
    have lookup' := makes'.stored (.hoisted (h.node j).key root')
    rw [← supplied.lookup_eq] at lookup
    rw [← supplied'.lookup_eq] at lookup'
    by_cases new : Placed.keyOf g e.source (some root) = some (.hoisted (g.node i).key root) ∧
        st.arena.lookup (.hoisted (g.node i).key root) = none
    · rw [if_pos new] at lookup
      rw [if_pos ⟨same.mp new.1, (rel_none_iff before).mp new.2⟩] at lookup'
      rw [lookup, lookup']
      refine .some ⟨s.var, s'.var, .inr ⟨rfl, rfl⟩, ?_, ?_⟩
      · rw [supplied.effect.var]
        exact sound₁.consistent.terminal_of_lookup lookup
      · rw [supplied'.effect.var]
        exact sound₁'.consistent.terminal_of_lookup lookup'
    · rw [if_neg new] at lookup
      rw [if_neg fun new' => new ⟨same.mpr new'.1, (rel_none_iff before).mpr new'.2⟩] at lookup'
      rw [lookup, lookup']
      exact old

theorem Both.placement_eq (mirrors : Mirrors g h R m st st')
    (due : List.Forall₂ m st.due st'.due) : p.placement = p'.placement := by
  rcases both.cases mirrors due with
    ⟨_, _, -, reuses, reuses'⟩ | ⟨placement, there, makes, makes'⟩
  · rw [reuses.placed, reuses'.placed]
  · rw [makes.placed, makes'.placed]

theorem Both.shared (mirrors : Mirrors g h R m st st') (due : List.Forall₂ m st.due st'.due)
    {i j : NodeId} (pair : R i j) : Option.Rel (m.add s.var s'.var)
      (st₁.walk.shared.lookup i) (st₁'.walk.shared.lookup j) := by
  obtain ⟨target, n, supplied, deferred⟩ := both.supplied
  obtain ⟨target', n', supplied', deferred'⟩ := both.supplied'
  have old : Option.Rel (m.add s.var s'.var) (st.walk.shared.lookup i)
      (st'.walk.shared.lookup j) := rel_mono (mirrors.shared pair) fun _ _ => .inl
  rw [supplied.effect.shared, supplied'.effect.shared, deferred, deferred',
    both.placement_eq mirrors due]
  split
  · have same := both.corresponds.unique pair both.source
    by_cases eq : i = e.source
    · rw [eq, same.mp eq, List.lookup_cons_self, List.lookup_cons_self]
      exact .some (.inr ⟨supplied.effect.var.symm, supplied'.effect.var.symm⟩)
    · rw [List.lookup_cons, List.lookup_cons, beq_false_of_ne eq,
        beq_false_of_ne fun eq' => eq (same.mpr eq')]
      exact old
  · exact old

/-- The tie between the walks holds after the slot is supplied. -/
theorem Both.mirrors (mirrors : Mirrors g h R m st st') (due : List.Forall₂ m st.due st'.due) :
    Mirrors g h R (m.add s.var s'.var) st₁ st₁' := by
  obtain ⟨target, n, supplied, -⟩ := both.supplied
  obtain ⟨target', n', supplied', -⟩ := both.supplied'
  refine ⟨?_, ?_, ?_, ?_, ?_, both.shared mirrors due⟩
  · rintro x y (pair | ⟨rfl, rfl⟩)
    · exact supplied.provided_mono both.uniform both.sound (mirrors.provided pair)
    · exact supplied.provided both.uniform both.sound
  · rintro x y (pair | ⟨rfl, rfl⟩)
    · exact supplied'.provided_mono both.uniform' both.sound' (mirrors.provided' pair)
    · exact supplied'.provided both.uniform' both.sound'
  · rintro x y (pair | ⟨rfl, rfl⟩)
    · rw [supplied.grown.node (mirrors.provided pair).1,
        supplied'.grown.node (mirrors.provided' pair).1]
      exact mirrors.stands pair
    · exact supplied.node_stands both.corresponds both.uniform both.uniform' both.sound both.sound'
        supplied' both.source
  · rintro x y x' y' (pair | ⟨rfl, rfl⟩) (pair' | ⟨rfl, rfl⟩)
    · rw [supplied.terminal_eq both.uniform both.sound (mirrors.provided pair).1,
        supplied.terminal_eq both.uniform both.sound (mirrors.provided pair').1,
        supplied'.terminal_eq both.uniform' both.sound' (mirrors.provided' pair).1,
        supplied'.terminal_eq both.uniform' both.sound' (mirrors.provided' pair').1]
      exact mirrors.ends pair pair'
    · rw [eq_comm, both.ends mirrors due pair, eq_comm]
    · exact both.ends mirrors due pair'
    · exact iff_of_true rfl rfl
  · intro r r' i j current current' pair
    cases both.block₁.symm.trans current
    cases both.block₁'.symm.trans current'
    exact both.hoisted mirrors due pair

end Both

/-! ## In lockstep -/

variable {N : NodeId → NodeId → Prop}

/-- To pass variables on does not touch the tie, and a block that is opened shares nothing yet. -/
theorem Mirrors.passes (steady : Steady g before st) (steady' : Steady h before' st')
    (mirrors : Mirrors g h R m st st') (alike : Alike N R m st st') (step : Step g st st₁)
    (step' : Step h st' st₁') (nothing : st.ahead = []) (nothing' : st'.ahead = []) :
    Mirrors g h R m st₁ st₁' := by
  have passes := step.passes nothing
  have passes' := step'.passes nothing'
  have arena : st₁.arena = st.arena := passes.arena
  have arena' : st₁'.arena = st'.arena := passes'.arena
  refine ⟨fun pair => ?_, fun pair => ?_, ?_, ?_, ?_, ?_⟩
  · rw [arena]
    exact (mirrors.provided pair).perm passes.due
  · rw [arena']
    exact (mirrors.provided' pair).perm passes'.due
  · rw [arena, arena']
    exact mirrors.stands
  · rw [arena, arena']
    exact mirrors.ends
  · intro r r' i j current current' pair
    rw [arena, arena']
    cases alike with
    | between =>
      cases step with
      | openBlock _ _ _ _ next =>
        cases step' with
        | openBlock _ _ _ _ next' =>
          cases current
          cases current'
          rw [steady.hoists.lookup_eq_none steady.sound.consistent
              (next ▸ List.mem_cons_self),
            steady'.hoists.lookup_eq_none steady'.sound.consistent
              (next' ▸ List.mem_cons_self)]
          exact .none
    | within =>
      cases step with
      | closeBlock => cases current
      | take =>
        cases step' with
        | closeBlock => cases current'
        | take => exact mirrors.hoisted current current' pair
    | supplying =>
      cases step with
      | supply => cases nothing
      | finish =>
        cases step' with
        | supply => cases nothing'
        | finish => exact mirrors.hoisted current current' pair
  · rw [passes.shared, passes'.shared]
    exact mirrors.shared

end Stage

namespace Graph.Matches

variable {g h : Graph} {R : NodeId → NodeId → Prop} {before before' : Arena}

/-- Walks through graphs that match run in lockstep, whatever arenas they start from. -/
theorem lockstep (corresponds : g.Matches h R) (uniform : g.Uniform) (uniform' : h.Uniform) :
    Stage.Lockstep g h (g.Stands h R) R (Stage.Steady g before) (Stage.Steady h before')
      (Stage.Mirrors g h R) where
  keeps steady step := steady.step uniform step
  keeps' steady step := steady.step uniform' step
  node mirrors pair := mirrors.stands pair
  edges stands := stands.edges corresponds uniform uniform'
  passes steady steady' mirrors alike step step' := mirrors.passes steady steady' alike step step'
  supply := by
    intro m w w' found found' root root' made made' target target' n n' supplies supplies' e e' rest
      rest' st st' next next' steady steady' mirrors alike
    have sound := steady.sound
    have sound' := steady'.sound
    have supplied := sound.supplied uniform
    have supplied' := sound'.supplied uniform'
    have due := alike.due
    change Stage.Alike _ _ m (.supplying w found root made target n supplies (e :: rest))
      (.supplying w' found' root' made' target' n' supplies' (e' :: rest')) at alike
    cases alike with
    | supplying stacked _ _ _ _ nodes _ edges =>
      cases edges with
      | cons edge _ =>
        -- a node with an edge is not from outside, so the nodes are paired
        have inside : (g.node n).isOutside = false := by
          rw [Bool.eq_false_iff]
          intro outside
          have mem := supplied.edge sound
          rw [uniform.outside n outside] at mem
          cases mem
        have pair := nodes.inside inside
        have deferred := corresponds.isDeferredUse_eq pair edge
        have both : Stage.Both g h R before before' st _ st' _ root root' e e' _ _ next.1 next'.1
            (Walk.isDeferredUse g (g.node n) e) :=
          ⟨corresponds, uniform, uniform', sound, sound', ⟨target, n, supplied, rfl⟩,
            ⟨target', n', supplied', deferred⟩, rfl, rfl, rfl, rfl, edge.source⟩
        refine ⟨m.add next.1.var next'.1.var, m.within_add _ _, both.mirrors mirrors due, ?_,
          .inr ⟨rfl, rfl⟩⟩
        have placement := both.placement_eq mirrors due
        have var := supplied.effect.var
        have var' := supplied'.effect.var
        have new : m.add next.1.var next'.1.var _ _ := .inr ⟨var.symm, var'.symm⟩
        have old {as bs : List VariableId} (all : List.Forall₂ m as bs) :
            List.Forall₂ (m.add next.1.var next'.1.var) as bs := all.imp fun _ _ => .inl
        have targets : next.2.targets = _ := supplied.effect.targets
        have targets' : next'.2.targets = _ := supplied'.effect.targets
        have pending : next.2.pending = _ := Walk.supply_pending g root (g.node n) w e
        have pending' : next'.2.pending = _ := Walk.supply_pending h root' (h.node n') w' e'
        refine ⟨?_, ?_⟩
        · rw [targets, targets', placement]
          split
          · exact .cons new (old stacked.targets)
          · exact old stacked.targets
        · rw [pending, pending', placement]
          split
          · exact .cons new (old stacked.pending)
          · exact old stacked.pending

end Graph.Matches

/-! ## The walk through one root -/

variable {g h : Graph} {a a' : Arena}

theorem Graph.tour_run {limit : Nat} {root : Root} {t : Tour}
    (ends : g.tour limit a root = some t) : ∃ last,
    Stage.Run g (.between (.start (Placed.of g a root.node root.request none)) [])
      (.between last t.blocks.reverse) ∧ last.arena = t.arena ∧ last.pending = [] := by
  obtain ⟨⟨blocks, last⟩, walked, eq⟩ := Option.bind_eq_some_iff.mp ends
  cases eq
  obtain ⟨run, pending, -⟩ := Stage.makeBlocks_run limit limit rfl walked
  exact ⟨last, run, rfl, pending⟩

/-- At rest nothing is shared within blocks. -/
theorem Rested.lookup_hoisted (rested : Rested g a) (key : BindingKey) (r : VariableId) :
    a.lookup (.hoisted key r) = none := by
  refine Option.eq_none_iff_forall_ne_some.mpr fun s found => ?_
  have storage := rested.1.stored _ s found
  have outlives := (rested.1.stored_old _ s found storage.lt).2
  have shared := storage.isShared
  rw [Node.isShared_of_isFlagged (Node.isFlagged_of_outlivesRoot outlives)] at shared
  cases shared

/-- So nothing is when the walk through a root starts. -/
theorem Rested.steady_start (rested : Rested g a) (uniform : g.Uniform) {root : Root}
    (known : root ∈ g.roots) : Stage.Steady g a
      (.between (.start (Placed.of g a root.node root.request none)) []) := by
  refine ⟨rested.sound_first uniform known (Placed.of_outcome g a _ _ none), nofun,
    fun key r s found => ?_⟩
  set p := Placed.of g a root.node root.request none
  have found : p.arena.lookup (.hoisted key r) = some s := found
  rcases Placed.of_cases rested.1 rested.2 uniform (uniform.root_lt root known) root.request none
    with ⟨_, -, reuses⟩ | ⟨-, makes⟩
  · rw [Arena.lookup, reuses.stored, ← Arena.lookup, rested.lookup_hoisted] at found
    cases found
  · rw [makes.stored, rested.lookup_hoisted] at found
    split at found
    · rename_i new
      cases shared : (g.node root.node).isShared with
      | true => cases (Placed.keyOf_shared shared).symm.trans new.1
      | false =>
        obtain ⟨_, nothing, -⟩ := Placed.keyOf_unshared shared new.1
        cases nothing
    · cases found

/-- What is made for two roots is the same, up to a pairing of the variables. -/
structure Tour.Mirrors (g h : Graph) (R : NodeId → NodeId → Prop) (m : Pairing) (t t' : Tour) :
    Prop where
  blocks : List.Forall₂ (Block.Alike m) t.blocks t'.blocks
  stands : ∀ {x y : VariableId}, m x y → g.Stands h R (t.arena.var x).node (t'.arena.var y).node
  ends : ∀ {x y x' y'}, m x y → m x' y' →
    (t.arena.terminal x = t.arena.terminal x' ↔ t'.arena.terminal y = t'.arena.terminal y')

/-- Two roots with nodes that stand for each other are walked alike, whatever was made before. -/
theorem Graph.Matches.tour_mirrors {R : NodeId → NodeId → Prop} (corresponds : g.Matches h R)
    (uniform : g.Uniform) (uniform' : h.Uniform) (rested : Rested g a) (rested' : Rested h a')
    {root root' : Root} (known : root ∈ g.roots) (known' : root' ∈ h.roots)
    (pair : R root.node root'.node) {limit limit' : Nat} {t t' : Tour}
    (ends : g.tour limit a root = some t) (ends' : h.tour limit' a' root' = some t') :
    ∃ m, t.Mirrors g h R m t' := by
  obtain ⟨last, run, arena, drained⟩ := Graph.tour_run ends
  obtain ⟨last', run', arena', drained'⟩ := Graph.tour_run ends'
  have steady := rested.steady_start uniform known
  have steady' := rested'.steady_start uniform' known'
  set p := Placed.of g a root.node root.request none
  set p' := Placed.of h a' root'.node root'.request none
  have outcome : Placed.Outcome g a root.node root.request p := Placed.of_outcome g a _ _ none
  have outcome' : Placed.Outcome h a' root'.node root'.request p' := Placed.of_outcome h a' _ _ none
  have serves := Placed.Serves.of_outcome rested.1 rested.2 uniform (uniform.root_lt root known)
    outcome
  have serves' := Placed.Serves.of_outcome rested'.1 rested'.2 uniform'
    (uniform'.root_lt root' known') outcome'
  have same : p.arena.SameValues (Walk.start p).arena :=
    (sameValues_setBlockRoot _ _).trans (sameValues_setCreated _ _ true)
  have same' : p'.arena.SameValues (Walk.start p').arena :=
    (sameValues_setBlockRoot _ _).trans (sameValues_setCreated _ _ true)
  have stands : g.Stands h R ((Walk.start p).arena.var p.var).node
      ((Walk.start p').arena.var p'.var).node := by
    have profile := uniform.profile_eq _ _ (serves.consistent.node_lt p.var serves.provided.1)
      (uniform.root_lt root known) serves.key
    have profile' := uniform'.profile_eq _ _ (serves'.consistent.node_lt p'.var serves'.provided.1)
      (uniform'.root_lt root' known') serves'.key
    have outside := (corresponds.agrees pair).isOutside
    rw [same.node, same'.node]
    cases inside : (g.node root.node).isOutside with
    | false =>
      rw [serves.node inside, serves'.node (outside ▸ inside)]
      exact .inl pair
    | true =>
      exact .inr ⟨(Node.isOutside_eq profile).trans inside,
        (Node.isOutside_eq profile').trans (outside ▸ inside), _, _, pair, serves.key, serves'.key⟩
  set first : Stage := .between (Walk.start p) []
  set first' : Stage := .between (Walk.start p') []
  have lt := steady.sound.consistent.due_lt p.var List.mem_cons_self
  have lt' := steady'.sound.consistent.due_lt p'.var List.mem_cons_self
  have mirrors : Stage.Mirrors g h R (fun x y => x = p.var ∧ y = p'.var) first first' := {
    provided := by rintro x y ⟨rfl, rfl⟩; exact .of_mem lt List.mem_cons_self
    provided' := by rintro x y ⟨rfl, rfl⟩; exact .of_mem lt' List.mem_cons_self
    stands := by rintro x y ⟨rfl, rfl⟩; exact stands
    ends := by rintro _ _ _ _ ⟨rfl, rfl⟩ ⟨rfl, rfl⟩; exact iff_of_true rfl rfl
    hoisted := nofun
    shared := fun _ => .none }
  obtain ⟨m, -, -, mirrors, blocks⟩ := (corresponds.lockstep uniform uniform').run steady steady'
    mirrors (.between ⟨.nil, .cons ⟨rfl, rfl⟩ .nil⟩ .nil) run run' drained drained'
  have final : (Stage.between last t.blocks.reverse).arena = t.arena := arena
  have final' : (Stage.between last' t'.blocks.reverse).arena = t'.arena := arena'
  refine ⟨m, ?_, ?_, ?_⟩
  · have := List.rel_reverse blocks
    rwa [List.reverse_reverse, List.reverse_reverse] at this
  · rw [← final, ← final']
    exact mirrors.stands
  · rw [← final, ← final']
    exact mirrors.ends

end ObjectGraph
