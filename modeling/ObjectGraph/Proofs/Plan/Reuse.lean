import Mathlib.Data.List.Nodup
import ObjectGraph.Proofs.Plan.Walk

/-
  Which uses of a node share a variable, and where it is made.

  A use looks for its instance under one storage key at most: the key of the binding for what is
  shared, and the key for the block for what is used more than once (`Placed.keyOf`).  What is found
  there is referred to, unless it is left from an earlier root; otherwise a variable is made, at the
  place that the node alone decides about (`Placed.placementOf`).  `Placed.Choice` says so, and
  `choice_reuse_iff` puts it in terms of what is due, without any flags.

  `Stage.Hoists` is the invariant for the keys of blocks: they belong to blocks that were opened.
-/

namespace ObjectGraph

open Arena

namespace Placed

variable {g : Graph} {a b before : Arena} {due : List VariableId} {n : NodeId} {q : Request}
  {block : Option VariableId} {p : Placed}

/-! ## The key of a use -/

/-- The key under which the instance for a use of a node is looked for. -/
def keyOf (g : Graph) (n : NodeId) (block : Option VariableId) : Option StorageKey :=
  if (g.node n).isShared then some (.binding (g.node n).key)
  else if g.weight n > 1 then block.map (.hoisted (g.node n).key)
  else none

/-- Where the variable for a use of a node is made, if one has to be made. -/
def placementOf (g : Graph) (n : NodeId) (block : Option VariableId) : Placement :=
  if (g.node n).isOutside then .inline
  else if (g.node n).lifetime.isCompositionWide then .block
  else if g.weight n > 1 ∧ ((g.node n).isShared = true ∨ block.isSome = true) then .block
  else .inline

/-- What is shared is kept under its binding ... -/
theorem keyOf_shared (shared : (g.node n).isShared = true) :
    keyOf g n block = some (.binding (g.node n).key) := if_pos shared

/-- ... and everything else within a block. -/
theorem keyOf_unshared {k : StorageKey} (unshared : (g.node n).isShared = false)
    (key : keyOf g n block = some k) : ∃ r, block = some r ∧ k = .hoisted (g.node n).key r := by
  rw [keyOf, unshared, if_neg Bool.false_ne_true] at key
  split at key
  · obtain ⟨r, found, rfl⟩ := Option.map_eq_some_iff.mp key
    exact ⟨r, found, rfl⟩
  · cases key

/-- The key for a block is asked for by unshared nodes that are used more than once. -/
theorem keyOf_hoisted_iff {key : BindingKey} {r : VariableId} :
    keyOf g n (some r) = some (.hoisted key r) ↔
      (g.node n).isShared = false ∧ g.weight n > 1 ∧ (g.node n).key = key := by
  unfold keyOf
  by_cases reused : g.weight n > 1
  · cases (g.node n).isShared <;> simp [reused]
  · cases (g.node n).isShared <;> simp [reused]

theorem bindingKey_of_keyOf {k : StorageKey} (key : keyOf g n block = some k) :
    k.bindingKey = (g.node n).key := by
  cases shared : (g.node n).isShared with
  | true =>
    cases (keyOf_shared shared).symm.trans key
    rfl
  | false =>
    obtain ⟨r, -, rfl⟩ := keyOf_unshared shared key
    rfl

/-! ## Reused or made -/

/-- What placing a use of the node `n` comes to: what is found under its key is referred to, or a
    variable is made and stored there, unless there is one already. -/
inductive Choice (g : Graph) (a : Arena) (n : NodeId) (block : Option VariableId) (p : Placed) :
    Prop where
  | reuse {k : StorageKey} {s : VariableId} (key : keyOf g n block = some k)
      (found : a.lookup k = some s)
      (ready : (g.node n).isFlagged = true → (a.var s).isCreated = true)
      (placed : p.placement = .reference) (stored : p.arena.stored = a.stored)
      (ends : p.var = s ∨ p.var = a.vars.size ∧ (p.arena.var p.var).link = some s)
  | make
      (idle : ∀ k s, keyOf g n block = some k → a.lookup k = some s →
        (g.node n).isFlagged = true ∧ (a.var s).isCreated = false)
      (placed : p.placement = placementOf g n block)
      (stored : ∀ k, p.arena.lookup k =
        if keyOf g n block = some k ∧ a.lookup k = none then some p.var else a.lookup k)

/-- To refer to what is found is right if it is there already. -/
theorem choice_refer {k : StorageKey} {s : VariableId} (key : keyOf g n block = some k)
    (found : a.lookup k = some s)
    (ready : (g.node n).isFlagged = true → (a.var s).isCreated = true) :
    Choice g a n block (refer a ⟨n, (g.node n).key, q⟩ s) :=
  .reuse key found ready rfl rfl (.inr ⟨rfl, congrArg Variable.link (var_allocate_self a n q _)⟩)

/-- A variable is made though there is one under the key. -/
theorem choice_again {k : StorageKey} {s : VariableId} (key : keyOf g n block = some k)
    (found : a.lookup k = some s) (flagged : (g.node n).isFlagged = true)
    (idle : (a.var s).isCreated = false) (placed : p.placement = placementOf g n block)
    (stored : p.arena.stored = a.stored) : Choice g a n block p := by
  refine .make (fun k' s' key' found' => ?_) placed fun k' => ?_
  · cases key.symm.trans key'
    cases found.symm.trans found'
    exact ⟨flagged, idle⟩
  · rw [if_neg]
    · rw [lookup, stored, ← lookup]
    · rintro ⟨key', free⟩
      cases key.symm.trans key'
      cases found.symm.trans free

/-- A variable is made and stored. -/
theorem choice_stock {k : StorageKey} (key : keyOf g n block = some k) (free : a.lookup k = none)
    (placed : p.placement = placementOf g n block) (var : p.var = a.vars.size)
    (stored : p.arena.stored = (a.store k a.vars.size).stored) :
    Choice g a n block p := by
  refine .make (fun k' s' key' found' => ?_) placed fun k' => ?_
  · cases key.symm.trans key'
    cases free.symm.trans found'
  · rw [lookup, stored, ← lookup, var]
    by_cases eq : k' = k
    · rw [eq, lookup_store_self, if_pos ⟨key, free⟩]
    · rw [lookup_store_of_ne _ _ eq, if_neg]
      rintro ⟨key', -⟩
      cases key.symm.trans key'
      exact eq rfl

/-- A variable is made for this use alone. -/
theorem choice_fresh (key : keyOf g n block = none) (placed : p.placement = placementOf g n block)
    (stored : p.arena.stored = a.stored) : Choice g a n block p := by
  refine .make (fun k' s' key' => ?_) placed fun k' => ?_
  · cases key.symm.trans key'
  · rw [lookup, stored, ← lookup, if_neg]
    rintro ⟨key', -⟩
    cases key.symm.trans key'

section Choices

variable (a q block)

/-- A value from outside is made at most once ... -/
theorem outside_choice (outside : (g.node n).isOutside = true) :
    Choice g a n block (Placed.outside a ⟨n, (g.node n).key, q⟩) := by
  have shared : (g.node n).isShared = true := by rw [Node.isShared, outside]; rfl
  have flagged : (g.node n).isFlagged = true := by rw [Node.isFlagged, outside]; rfl
  have place : placementOf g n block = .inline := if_pos outside
  have key : keyOf g n block = _ := keyOf_shared shared
  unfold Placed.outside
  split
  · rename_i s found
    rw [schedule]
    split
    · rename_i ready
      exact .reuse key found (fun _ => ready) rfl rfl (.inl rfl)
    · rename_i idle
      exact choice_again key found flagged (Bool.eq_false_iff.mpr idle) place.symm rfl
  · rename_i free
    have idle := isCreated_allocate_self a n q none
    dsimp only [allocateFor]
    rw [schedule_of_idle (by exact (isCreated_setDeclared _ _ _).trans idle)]
    exact choice_stock key free place.symm rfl rfl

/-- ... as is one for the whole composition ... -/
theorem compositionWide_choice (inside : (g.node n).isOutside = false)
    (wide : (g.node n).lifetime.isCompositionWide = true) :
    Choice g a n block (compositionWide a ⟨n, (g.node n).key, q⟩) := by
  have flagged : (g.node n).isFlagged = true := by rw [Node.isFlagged, wide, Bool.or_true]
  have place : placementOf g n block = .block := by
    rw [placementOf, inside, if_neg Bool.false_ne_true, if_pos wide]
  have key : keyOf g n block = _ := keyOf_shared (Node.isShared_of_isFlagged flagged)
  unfold compositionWide
  split
  · rename_i s found
    split
    · rename_i ready
      exact choice_refer key found fun _ => ready
    · rename_i idle
      dsimp only [allocateFor]
      rw [promote_of_idle (by exact isCreated_allocate_self _ n q _)]
      exact choice_again key found flagged (Bool.eq_false_iff.mpr idle) place.symm rfl
  · rename_i free
    have idle := isCreated_allocate_self a n q none
    dsimp only [allocateFor]
    rw [promote_of_idle (by exact (isCreated_setDeclared _ _ _).trans idle)]
    exact choice_stock key free place.symm rfl rfl

/-- ... one for the root ... -/
theorem perResolve_choice (inside : (g.node n).isOutside = false)
    (lifetime : (g.node n).lifetime = .perResolve) :
    Choice g a n block (perResolve a ⟨n, (g.node n).key, q⟩ (g.weight n > 1)) := by
  have shared : (g.node n).isShared = true := by rw [Node.isShared, lifetime, inside]; rfl
  have unflagged : (g.node n).isFlagged = false := by rw [Node.isFlagged, lifetime, inside]; rfl
  have key : keyOf g n block = _ := keyOf_shared shared
  have place : placementOf g n block = if g.weight n > 1 then .block else .inline := by
    rw [placementOf, inside, lifetime, shared]
    simp only [Lifetime.isCompositionWide, Bool.false_eq_true, if_false, true_or, and_true]
  unfold perResolve
  split
  · rename_i s found
    exact choice_refer key found fun flagged => by rw [unflagged] at flagged; cases flagged
  · rename_i free
    have idle := isCreated_allocate_self a n q none
    dsimp only [allocateFor]
    by_cases reused : g.weight n > 1
    · rw [if_pos (decide_eq_true reused), promote_of_idle (by exact idle)]
      exact choice_stock key free (place.trans (if_pos reused)).symm rfl rfl
    · rw [if_neg (by simpa using reused), schedule_of_idle (by exact idle)]
      exact choice_stock key free (place.trans (if_neg reused)).symm rfl rfl

variable {block}

/-- ... and one that is used several times within a block. -/
theorem hoisted_choice (inside : (g.node n).isOutside = false)
    (wide : (g.node n).lifetime.isCompositionWide = false)
    (unshared : (g.node n).isShared = false) (reused : g.weight n > 1) {r : VariableId} :
    Choice g a n (some r) (hoisted a ⟨n, (g.node n).key, q⟩ r) := by
  have key : keyOf g n (some r) = some (.hoisted (g.node n).key r) := by
    rw [keyOf, unshared, if_neg Bool.false_ne_true, if_pos reused, Option.map_some]
  have place : placementOf g n (some r) = .block := by
    rw [placementOf, inside, wide, if_neg Bool.false_ne_true, if_neg Bool.false_ne_true,
      if_pos ⟨reused, .inr rfl⟩]
  unfold hoisted
  split
  · rename_i s found
    refine choice_refer key found fun flagged => ?_
    rw [Node.isShared_of_isFlagged flagged] at unshared
    cases unshared
  · rename_i free
    dsimp only [allocateFor]
    rw [promote_of_idle (by exact isCreated_allocate_self a n q none)]
    exact choice_stock key free place.symm rfl rfl

/-- Everything else is made anew. -/
theorem fresh_choice (inside : (g.node n).isOutside = false)
    (wide : (g.node n).lifetime.isCompositionWide = false)
    (unshared : (g.node n).isShared = false) (alone : block = none ∨ ¬ g.weight n > 1) :
    Choice g a n block (Placed.fresh a ⟨n, (g.node n).key, q⟩) := by
  have key : keyOf g n block = none := by
    rw [keyOf, unshared, if_neg Bool.false_ne_true]
    rcases alone with rfl | once
    · split <;> rfl
    · exact if_neg once
  have place : placementOf g n block = .inline := by
    rw [placementOf, inside, wide, unshared, if_neg Bool.false_ne_true, if_neg Bool.false_ne_true,
      if_neg]
    rintro ⟨reused, shared | inBlock⟩
    · cases shared
    · rcases alone with rfl | once
      · cases inBlock
      · exact once reused
  unfold Placed.fresh
  dsimp only [allocateFor]
  rw [schedule_of_idle (by exact isCreated_allocate_self a n q none)]
  exact choice_fresh key place.symm rfl

variable (g n block)

/-- Whatever the lifetime of the node, placing a use of it is such a choice. -/
theorem of_choice : Choice g a n block (Placed.of g a n q block) := by
  by_cases outside : (g.node n).isOutside = true
  · simp only [Placed.of, if_pos outside]
    exact outside_choice a q block outside
  · have inside := Bool.eq_false_iff.mpr outside
    simp only [Placed.of, if_neg outside]
    split
    · rename_i lifetime
      exact compositionWide_choice a q block inside (by rw [lifetime]; rfl)
    · rename_i lifetime
      exact compositionWide_choice a q block inside (by rw [lifetime]; rfl)
    · rename_i lifetime
      exact perResolve_choice a q block inside lifetime
    all_goals
      rename_i lifetime
      have unshared : (g.node n).isShared = false := by rw [Node.isShared, lifetime, inside]; rfl
      have wide : (g.node n).lifetime.isCompositionWide = false := by rw [lifetime]; rfl
      split
      · split
        · rename_i reused
          exact hoisted_choice a q inside wide unshared reused
        · rename_i once
          exact fresh_choice a q inside wide unshared (.inr once)
      · exact fresh_choice a q inside wide unshared (.inl rfl)

end Choices

/-! ## What is due is reused -/

/-- The use of the node `n` finds the storage `s`, which is made in this root. -/
def Finds (g : Graph) (due : List VariableId) (a : Arena) (n : NodeId)
    (block : Option VariableId) (s : VariableId) : Prop :=
  ∃ k, keyOf g n block = some k ∧ a.lookup k = some s ∧ s ∈ due.map a.terminal

/-- What is referred to is due. -/
theorem finds_of_ready (c : Consistent g before due a) (m : Marked g due a) (uniform : g.Uniform)
    (n_lt : n < g.nodes.size) {k : StorageKey} {s : Nat} (key : keyOf g n block = some k)
    (found : a.lookup k = some s)
    (ready : (g.node n).isFlagged = true → (a.var s).isCreated = true) :
    Finds g due a n block s := by
  refine ⟨k, key, found, ?_⟩
  have profile := c.profile_of_lookup uniform n_lt found (bindingKey_of_keyOf key)
  cases flagged : (g.node n).isFlagged with
  | true =>
    cases (keyOf_shared (Node.isShared_of_isFlagged flagged)).symm.trans key
    exact (m _ s found (by rw [Node.isFlagged_eq profile, flagged])).mp (ready flagged)
  | false =>
    -- whatever is left from an earlier root is flagged
    refine c.stored_new k s found (Nat.le_of_not_lt fun old => ?_)
    have outlives := (c.stored_old k s found old).2
    have flagged' := Node.isFlagged_of_outlivesRoot outlives
    rw [Node.isFlagged_eq profile, flagged] at flagged'
    cases flagged'

/-- What is made was not due. -/
theorem not_finds_of_idle (m : Marked g due a) (c : Consistent g before due a) (uniform : g.Uniform)
    (n_lt : n < g.nodes.size)
    (idle : ∀ k s, keyOf g n block = some k → a.lookup k = some s →
      (g.node n).isFlagged = true ∧ (a.var s).isCreated = false) (s : Nat) :
    ¬ Finds g due a n block s := by
  rintro ⟨k, key, found, mem⟩
  obtain ⟨flagged, unmade⟩ := idle k s key found
  have profile := c.profile_of_lookup uniform n_lt found (bindingKey_of_keyOf key)
  cases (keyOf_shared (Node.isShared_of_isFlagged flagged)).symm.trans key
  rw [(m _ s found (by rw [Node.isFlagged_eq profile, flagged])).mpr mem] at unmade
  cases unmade

/-- A use that finds nothing gets a variable of its own: where it is made, and what is found by key
    afterwards. -/
structure Makes (g : Graph) (a : Arena) (n : NodeId) (block : Option VariableId)
    (placement : Placement) (p : Placed) : Prop where
  placed : p.placement = placement
  stored : ∀ k, p.arena.lookup k =
    if keyOf g n block = some k ∧ a.lookup k = none then some p.var else a.lookup k

/-- A use that finds a storage is handed a variable that ends there. -/
structure Reuses (a : Arena) (s : VariableId) (p : Placed) : Prop where
  placed : p.placement = .reference
  stored : p.arena.stored = a.stored
  ends : p.arena.terminal p.var = s

theorem Makes.placement_ne {placement : Placement} (makes : Makes g a n block placement p)
    (there : placement ≠ .reference) : p.placement ≠ .reference := makes.placed ▸ there

theorem placementOf_ne (g : Graph) (n : NodeId) (block : Option VariableId) :
    placementOf g n block ≠ .reference := by
  unfold placementOf
  repeat' split
  all_goals nofun

/-- Placing a use reuses what is due, and makes a variable otherwise. -/
theorem of_cases (c : Consistent g before due a) (m : Marked g due a) (uniform : g.Uniform)
    (n_lt : n < g.nodes.size) (q : Request) (block : Option VariableId) :
    (∃ s, Finds g due a n block s ∧ Reuses a s (Placed.of g a n q block)) ∨
      (∀ s, ¬ Finds g due a n block s) ∧
        Makes g a n block (placementOf g n block) (Placed.of g a n q block) := by
  have serves := Serves.of_outcome c m uniform n_lt (of_outcome g a n q block)
  cases of_choice g a n q block with
  | @reuse k s key found ready placed stored ends =>
    refine .inl ⟨s, finds_of_ready c m uniform n_lt key found ready, placed, stored, ?_⟩
    have linked := serves.consistent.linked
    have there : (Placed.of g a n q block).arena.terminal s = s :=
      (serves.extends'.terminal_eq c.linked linked s (c.stored k s found).lt).trans
        (c.terminal_of_lookup found)
    rcases ends with same | ⟨-, leads⟩
    · rw [same, there]
    · rw [linked.terminal_of_some serves.provided.1 leads, there]
  | make idle placed stored =>
    exact .inr ⟨not_finds_of_idle m c uniform n_lt idle, placed, stored⟩

end Placed

/-! ## The uses in a walk -/

namespace Walk

variable {g : Graph} {w : Walk} {before : Arena} {due : List VariableId} {e : Edge}

/-- The use for a slot finds the storage `s`: as the shared variable of its node, if the slot is
    supplied for later and there is one, or else under its key. -/
def Finds (g : Graph) (due : List VariableId) (block : VariableId) (isDeferred : Bool) (w : Walk)
    (e : Edge) (s : VariableId) : Prop :=
  (isDeferred = true ∧ ∃ v, w.shared.lookup e.source = some v ∧ w.arena.terminal v = s) ∨
    (isDeferred = true → w.shared.lookup e.source = none) ∧
      Placed.Finds g due w.arena e.source (some block) s

/-- A use finds one variable at most. -/
theorem Finds.unique {block : VariableId} {isDeferred : Bool} {s t : VariableId}
    (finds : w.Finds g due block isDeferred e s) (finds' : w.Finds g due block isDeferred e t) :
    s = t := by
  rcases finds with ⟨deferred, v, found, rfl⟩ | ⟨free, k, key, found, -⟩
  · rcases finds' with ⟨-, v', found', rfl⟩ | ⟨free, -⟩
    · cases found.symm.trans found'
      rfl
    · cases (free deferred).symm.trans found
  · rcases finds' with ⟨deferred, v, found, -⟩ | ⟨-, k', key', found', -⟩
    · cases (free deferred).symm.trans found
    · cases key.symm.trans key'
      exact Option.some.inj (found.symm.trans found')

/-- Where the variable for a slot is made, if one has to be made. -/
def placementFor (g : Graph) (block : VariableId) (isDeferred : Bool) (e : Edge) : Placement :=
  if isDeferred then .block else Placed.placementOf g e.source (some block)

theorem placementFor_ne (g : Graph) (block : VariableId) (isDeferred : Bool) (e : Edge) :
    placementFor g block isDeferred e ≠ .reference := by
  unfold placementFor
  split
  · nofun
  · exact Placed.placementOf_ne g e.source _

theorem place_of_shared {v : VariableId} (found : w.shared.lookup e.source = some v)
    (block : VariableId) : w.place g block true e =
      .refer w.arena ⟨e.source, (g.node e.source).key, e.request⟩ v := by
  simp only [place, found]

theorem place_of_not_shared {isDeferred : Bool}
    (free : isDeferred = true → w.shared.lookup e.source = none) (block : VariableId) :
    let p := Placed.of g w.arena e.source e.request (some block)
    w.place g block isDeferred e =
      if isDeferred && p.placement == .inline then
        { p with placement := .block, arena := p.arena.setBlockRoot p.var }
      else p := by
  unfold place
  cases isDeferred with
  | false => rfl
  | true => rw [free rfl]

/-- Supplying a slot reuses what is due, and makes a variable otherwise. -/
theorem place_finds (c : Consistent g before due w.arena) (m : Marked g due w.arena)
    (uniform : g.Uniform) (shared : SharedSound before due w) (n_lt : e.source < g.nodes.size)
    (block : VariableId) (isDeferred : Bool) :
    (∃ s, w.Finds g due block isDeferred e s ∧
      Placed.Reuses w.arena s (w.place g block isDeferred e)) ∨
    (∀ s, ¬ w.Finds g due block isDeferred e s) ∧
      Placed.Makes g w.arena e.source (some block) (placementFor g block isDeferred e)
        (w.place g block isDeferred e) := by
  have serves := place_serves c m uniform shared n_lt block isDeferred
  by_cases there : isDeferred = true ∧ ∃ v, w.shared.lookup e.source = some v
  · obtain ⟨rfl, v, found⟩ := there
    refine .inl ⟨w.arena.terminal v, .inl ⟨rfl, v, found, rfl⟩, ?_⟩
    obtain ⟨-, mem, -⟩ := shared e.source v found
    have lt := c.due_lt v mem
    rw [place_of_shared found] at serves ⊢
    have linked := serves.consistent.linked
    refine ⟨rfl, rfl, ?_⟩
    rw [linked.terminal_of_some serves.provided.1
      (congrArg Variable.link (var_allocate_self w.arena _ _ _))]
    exact serves.extends'.terminal_eq c.linked linked v lt
  · have free : isDeferred = true → w.shared.lookup e.source = none := fun deferred =>
      Option.eq_none_iff_forall_ne_some.mpr fun v found => there ⟨deferred, v, found⟩
    rw [place_of_not_shared free] at serves ⊢
    rcases Placed.of_cases c m uniform n_lt e.request (some block) with
      ⟨s, finds, reuses⟩ | ⟨nothing, makes⟩
    · refine .inl ⟨s, .inr ⟨free, finds⟩, ?_⟩
      rw [reuses.placed, if_neg (by simp)]
      exact reuses
    · refine .inr ⟨fun s finds => ?_, ?_⟩
      · rcases finds with ⟨deferred, v, found, -⟩ | ⟨-, finds⟩
        · exact there ⟨deferred, v, found⟩
        · exact nothing s finds
      · unfold placementFor
        cases isDeferred with
        | false => exact makes
        | true =>
          rw [Bool.true_and, if_pos rfl]
          cases placed : (Placed.of g w.arena e.source e.request (some block)).placement with
          | inline => exact ⟨rfl, makes.stored⟩
          | block => exact ⟨placed, makes.stored⟩
          | reference =>
            exact (makes.placement_ne (Placed.placementOf_ne g e.source _) placed).elim

theorem enqueue_pending (w : Walk) (v : VariableId) (placement : Placement) :
    (w.enqueue v placement).pending = if placement = .block then v :: w.pending else w.pending := by
  cases placement <;> rfl

theorem supply_pending (g : Graph) (block : VariableId) (n : Node) (w : Walk) (e : Edge) :
    let p := w.place g block (isDeferredUse g n e) e
    (w.supply g block n e).2.pending =
      if p.placement = .block then p.var :: w.pending else w.pending := by
  unfold isDeferredUse supply
  simp only
  split <;> exact enqueue_pending _ _ _

end Walk

/-! ## The keys of blocks -/

namespace Stage

variable {g : Graph} {before : Arena} {st st' : Stage}

/-- The variable that the current block makes. -/
def block? : Stage → Option VariableId
  | between _ _ => none
  | within _ _ root _ => some root
  | supplying _ _ root _ _ _ _ _ => some root

/-- The variables that are or were on the stack of a block. -/
def opened (st : Stage) : List VariableId := st.walk.targets ++ st.instantiations.map (·.target)

theorem pending_notMem_opened (c : Consistent g before st.due st.arena) {v : VariableId}
    (waits : v ∈ st.walk.pending) : v ∉ st.opened := by
  have nodup : (st.walk.targets ++ st.walk.pending ++
      st.instantiations.map (·.target)).Nodup := List.Nodup.of_map _ c.due_nodup
  rw [List.append_assoc, List.nodup_append] at nodup
  obtain ⟨-, nodup, apart⟩ := nodup
  rw [List.nodup_append] at nodup
  intro mem
  rcases List.mem_append.mp mem with inTargets | made
  · exact apart v inTargets v (List.mem_append_left _ waits) rfl
  · exact nodup.2.2 v waits v made rfl

/-- The blocks that share instances among their uses are blocks that were opened. -/
structure Hoists (st : Stage) : Prop where
  block : ∀ r, st.block? = some r → r ∈ st.opened
  stored : ∀ key r s, st.arena.lookup (.hoisted key r) = some s → r ∈ st.opened

/-- A block is opened once, so nothing is found for it when it is opened. -/
theorem Hoists.lookup_eq_none (hoists : st.Hoists) (c : Consistent g before st.due st.arena)
    {r : VariableId} (waits : r ∈ st.walk.pending) (key : BindingKey) :
    st.arena.lookup (.hoisted key r) = none :=
  Option.eq_none_iff_forall_ne_some.mpr fun s found =>
    pending_notMem_opened c waits (hoists.stored key r s found)

/-- A slot is supplied by what is due, or else by a variable that is made for it. -/
theorem Supplied.finds (uniform : g.Uniform) (sound : Sound g before st) {root target : VariableId}
    {n : NodeId} {e : Edge} {p : Placed} {s : Supply}
    (supplied : Supplied g before st st' root target n e p s) :
    let isDeferred := Walk.isDeferredUse g (g.node n) e
    (∃ s, st.walk.Finds g st.due root isDeferred e s ∧ Placed.Reuses st.arena s p) ∨
      (∀ s, ¬ st.walk.Finds g st.due root isDeferred e s) ∧
        Placed.Makes g st.arena e.source (some root) (Walk.placementFor g root isDeferred e) p := by
  rw [supplied.placed]
  exact Walk.place_finds sound.consistent sound.marked uniform sound.shared
    (supplied.source_lt uniform sound) root _

/-- A slot is supplied for the current block only. -/
theorem Supplied.lookup_hoisted (uniform : g.Uniform) (sound : Sound g before st)
    {root target : VariableId} {n : NodeId} {e : Edge} {p : Placed} {s : Supply}
    (supplied : Supplied g before st st' root target n e p s) {key : BindingKey}
    {r v : VariableId} (found : st'.arena.lookup (.hoisted key r) = some v) :
    st.arena.lookup (.hoisted key r) = some v ∨ r = root := by
  have found : p.arena.lookup (.hoisted key r) = some v := (supplied.same.lookup _).symm.trans found
  rcases supplied.finds uniform sound with ⟨_, -, reuses⟩ | ⟨-, makes⟩
  · rw [Arena.lookup, reuses.stored] at found
    exact .inl found
  · rw [makes.stored] at found
    split at found
    · rename_i new
      cases shared : (g.node e.source).isShared with
      | true => cases (Placed.keyOf_shared shared).symm.trans new.1
      | false =>
        obtain ⟨_, same, eq⟩ := Placed.keyOf_unshared shared new.1
        cases same
        cases eq
        exact .inr rfl
    · exact .inl found

/-- A step shares instances among the uses of the current block only, which was opened. -/
theorem Hoists.step (uniform : g.Uniform) (sound : Sound g before st) (hoists : st.Hoists)
    (step : Step g st st') : st'.Hoists := by
  cases step with
  | openBlock w found root pending next idle =>
    have opened {v : VariableId} (mem : v ∈ (between w found).opened) : v ∈ (within
        { w with pending, targets := [root] } found root []).opened := by
      simp only [Stage.opened, Stage.walk, idle, List.nil_append] at mem
      exact List.mem_append_right _ mem
    refine ⟨?_, fun key r s known => opened (hoists.stored key r s known)⟩
    rintro r same
    cases same
    exact List.mem_append_left _ List.mem_cons_self
  | closeBlock w found root made idle =>
    refine ⟨fun r same => (by cases same), fun key r s known => ?_⟩
    simpa [Stage.opened, Stage.instantiations, Stage.walk, idle] using hoists.stored key r s known
  | take w found root made target targets next =>
    have opened {v : VariableId} (mem : v ∈ (within w found root made).opened) :
        v ∈ (supplying { w with targets } found root made target (w.arena.var target).node []
          (g.dependencies (w.arena.var target).node)).opened := by
      simp only [Stage.opened, Stage.walk, Stage.instantiations, next, List.mem_append,
        List.mem_cons, List.map_cons] at mem ⊢
      tauto
    exact ⟨fun r same => opened (hoists.block r same),
      fun key r s known => opened (hoists.stored key r s known)⟩
  | finish w found root made target n supplies => exact ⟨hoists.block, hoists.stored⟩
  | supply w found root made target n supplies e rest =>
    have supplied := sound.supplied uniform
    have opened {v : VariableId} (mem : v ∈ (supplying w found root made target n supplies
        (e :: rest)).opened) : v ∈ (supplying (w.supply g root (g.node n) e).2 found root made target
          n (supplies ++ [(w.supply g root (g.node n) e).1]) rest).opened := by
      refine (List.mem_append.mp mem).elim (fun waits => List.mem_append_left _ ?_)
        (List.mem_append_right _)
      rw [supplied.effect.targets]
      split
      · exact List.mem_cons_of_mem _ waits
      · exact waits
    refine ⟨fun r same => opened (hoists.block r same), fun key r s known => ?_⟩
    rcases supplied.lookup_hoisted uniform sound known with old | rfl
    · exact opened (hoists.stored key r s old)
    · exact opened (hoists.block r rfl)

end Stage

end ObjectGraph
