import ObjectGraph.Proofs.Plan.Placement
import ObjectGraph.Proofs.Plan.Run

/-
  The invariant of a walk through one root.

  `Stage.Sound` holds at every stage: the books are in order for what is due at the stage, whatever
  was handed out so far is made in this root, and the table of shared variables of deferred uses
  lists variables that are due.  One step keeps it (`Step.sound`), so a run does (`Run.sound`).

  Steps that only pass variables on keep it since they permute what is due.  For the step that
  supplies a slot, `Walk.place_cases` and `supply_effect` say what it does to each part of the
  state.
-/

namespace ObjectGraph

open Arena

/-! ## Supplying a slot -/

namespace Walk

variable {g : Graph} {w : Walk} {block : VariableId} {n : Node} {e : Edge}

/-- Tells if a slot of the node `n` is supplied for later: the node is deferred, and what fills the
    slot is no value from outside. -/
def isDeferredUse (g : Graph) (n : Node) (e : Edge) : Bool :=
  n.isDeferred && !(g.node e.source).isOutside

/-- A slot that is supplied for later and whose node has a shared variable refers to that one.  In
    all other cases the use is placed by its lifetime, and a deferred one is never made inline. -/
theorem place_cases (g : Graph) (block : VariableId) (isDeferred : Bool) (w : Walk) (e : Edge) :
    (isDeferred = true ∧ ∃ existing, w.shared.lookup e.source = some existing ∧
      w.place g block isDeferred e =
        .refer w.arena ⟨e.source, (g.node e.source).key, e.request⟩ existing) ∨
    ((isDeferred = true → w.shared.lookup e.source = none) ∧ ∃ p,
      Placed.Outcome g w.arena e.source e.request p ∧
      ((isDeferred = true → p.placement ≠ .inline) ∧ w.place g block isDeferred e = p ∨
        isDeferred = true ∧ p.placement = .inline ∧ w.place g block isDeferred e =
          { p with placement := .block, arena := p.arena.setBlockRoot p.var })) := by
  unfold place
  split
  · rename_i existing found
    exact .inl ⟨rfl, existing, found, rfl⟩
  · rename_i notShared
    refine .inr ⟨?_, _, Placed.of_outcome g w.arena e.source e.request (some block), ?_⟩
    · rintro rfl
      cases found : w.shared.lookup e.source with
      | none => rfl
      | some existing => exact (notShared existing rfl found).elim
    · simp only
      split
      · rename_i inline
        simp only [Bool.and_eq_true, beq_iff_eq] at inline
        exact .inr ⟨inline.1, inline.2, rfl⟩
      · rename_i other
        refine .inl ⟨?_, rfl⟩
        rintro rfl inline
        exact other (by rw [inline]; rfl)

/-- The effect of supplying a slot by what was placed. -/
structure Effect (g : Graph) (isDeferred : Bool) (w : Walk) (e : Edge) (p : Placed) (s : Supply)
    (w' : Walk) : Prop where
  var : s.var = p.var
  same : p.arena.SameValues w'.arena
  flags : ∀ v : Nat, v ≠ p.var ∨ (g.node e.source).isFlagged = true →
    (w'.arena.var v).isCreated = (p.arena.var v).isCreated
  shared : w'.shared =
    if isDeferred && p.placement == .block then (e.source, p.var) :: w.shared else w.shared
  targets : w'.targets = if p.placement = .inline then p.var :: w.targets else w.targets
  due : ∀ rest, (p.dueAfter (w.targets ++ w.pending ++ rest)).Perm
    (w'.targets ++ w'.pending ++ rest)

theorem enqueue_arena (w : Walk) (v : VariableId) (placement : Placement) :
    (w.enqueue v placement).arena = w.arena := by
  cases placement <;> rfl

theorem enqueue_shared (w : Walk) (v : VariableId) (placement : Placement) :
    (w.enqueue v placement).shared = w.shared := by
  cases placement <;> rfl

theorem enqueue_targets (w : Walk) (v : VariableId) (placement : Placement) :
    (w.enqueue v placement).targets =
      if placement = .inline then v :: w.targets else w.targets := by
  cases placement <;> rfl

theorem perm_enqueue (w : Walk) (p : Placed) (rest : List VariableId) :
    (p.dueAfter (w.targets ++ w.pending ++ rest)).Perm
      ((w.enqueue p.var p.placement).targets ++ (w.enqueue p.var p.placement).pending ++ rest) := by
  cases placed : p.placement with
  | reference => simp only [Placed.dueAfter, enqueue, placed]; exact .refl _
  | inline => simp only [Placed.dueAfter, enqueue, placed]; exact .refl _
  | block =>
    simp only [Placed.dueAfter, enqueue, placed, List.append_assoc, List.cons_append]
    exact List.perm_middle.symm

theorem supply_effect (g : Graph) (block : VariableId) (n : Node) (w : Walk) (e : Edge) :
    Effect g (isDeferredUse g n e) w e (w.place g block (isDeferredUse g n e) e)
      (w.supply g block n e).1 (w.supply g block n e).2 := by
  unfold isDeferredUse supply
  set p := w.place g block (n.isDeferred && !(g.node e.source).isOutside) e
  simp only
  set moved : Walk := { w with
    arena := p.arena
    shared := if (n.isDeferred && !(g.node e.source).isOutside) && p.placement == .block then
      (e.source, p.var) :: w.shared else w.shared } with moved_eq
  have arena : (moved.enqueue p.var p.placement).arena = p.arena := enqueue_arena _ _ _
  have due : ∀ rest, (p.dueAfter (w.targets ++ w.pending ++ rest)).Perm
      ((moved.enqueue p.var p.placement).targets ++
        (moved.enqueue p.var p.placement).pending ++ rest) := perm_enqueue moved p
  split
  · rename_i lazy
    have unflagged : (g.node e.source).isFlagged = false := by
      simp only [isLazyItem, Bool.and_eq_true, Bool.not_eq_true'] at lazy
      rw [Node.isFlagged, lazy.2.1, lazy.2.2]
      rfl
    refine ⟨rfl, ?_, ?_, enqueue_shared _ _ _, enqueue_targets _ _ _, due⟩
    · rw [arena]; exact sameValues_setCreated p.arena p.var false
    · rintro v (ne | flagged)
      · rw [arena]; exact isCreated_setCreated_of_ne ne false
      · rw [unflagged] at flagged; cases flagged
  · refine ⟨rfl, ?_, ?_, enqueue_shared _ _ _, enqueue_targets _ _ _, due⟩
    · rw [arena]; exact .refl _
    · intro v _
      rw [arena]

/-- To supply a slot adds to the variables and takes nothing away. -/
theorem extends_supply (g : Graph) (block : VariableId) (n : Node) (w : Walk) (e : Edge) :
    w.arena.Extends (w.supply g block n e).2.arena := by
  refine .trans ?_ (supply_effect g block n w e).same.toExtends
  obtain ⟨-, existing, -, placed⟩ | ⟨-, p, outcome, ⟨-, placed⟩ | ⟨-, -, placed⟩⟩ :=
    place_cases g block (isDeferredUse g n e) w e
  · rw [placed]
    exact extends_allocate w.arena _ _ _
  · rw [placed]
    exact outcome.extends
  · rw [placed]
    exact outcome.extends.trans (sameValues_setBlockRoot _ _).toExtends

/-! ## Uses are served -/

/-- The shared variables of deferred uses: each one is an instance of its node, belongs to this root
    and is due. -/
def SharedSound (before : Arena) (due : List VariableId) (w : Walk) : Prop :=
  ∀ n (v : Nat), w.shared.lookup n = some v →
    (w.arena.var v).node = n ∧ v ∈ due ∧ before.vars.size ≤ v

variable {before : Arena} {due : List VariableId}

/-- Placing a use meets its contract, be it by the shared variable of the node or by lifetime. -/
theorem place_serves (c : Consistent g before due w.arena) (m : Marked g due w.arena)
    (uniform : g.Uniform) (shared : SharedSound before due w) (n_lt : e.source < g.nodes.size)
    (block : VariableId) (isDeferred : Bool) :
    Placed.Serves g before due w.arena e.source (w.place g block isDeferred e) := by
  obtain ⟨-, existing, found, placed⟩ | ⟨-, p, outcome, placed⟩ :=
    place_cases g block isDeferred w e
  · rw [placed]
    obtain ⟨node, mem, new⟩ := shared e.source existing found
    have node_eq : w.arena.node g existing = g.node e.source := congrArg g.node node
    refine .refer c m n_lt e.request (.of_mem (c.due_lt _ mem) mem) (by rw [node_eq]) fun kind => ?_
    rw [← node_eq] at kind ⊢
    exact c.kept existing (c.due_lt _ mem) kind (.inr new)
  · have serves := Placed.Serves.of_outcome c m uniform n_lt outcome
    obtain ⟨-, placed⟩ | ⟨-, inline, placed⟩ := placed
    · rw [placed]; exact serves
    · rw [placed]
      refine serves.of_sameValues rfl ?_ (sameValues_setBlockRoot _ _)
        fun _ _ _ _ => isCreated_setBlockRoot _ _ _
      simp only [Placed.dueAfter, inline]

/-- A use of what is not from outside takes a new variable. -/
theorem var_place (isDeferred : Bool) (inside : (g.node e.source).isOutside = false)
    (w : Walk) (block : VariableId) : (w.place g block isDeferred e).var = w.arena.vars.size := by
  obtain ⟨-, existing, -, placed⟩ | ⟨-, p, outcome, placed⟩ := place_cases g block isDeferred w e
  · rw [placed]; rfl
  · obtain ⟨-, placed⟩ | ⟨-, -, placed⟩ := placed <;> rw [placed] <;> exact outcome.var_eq inside

/-- The table of shared variables after a slot was supplied. -/
theorem Effect.lookup_shared {w' : Walk} {p : Placed} {s : Supply} {isDeferred : Bool}
    (effect : Effect g isDeferred w e p s w') {m : NodeId} {v : Nat}
    (found : w'.shared.lookup m = some v) :
    (isDeferred = true ∧ p.placement = .block ∧ m = e.source ∧ v = p.var) ∨
      w.shared.lookup m = some v := by
  rw [effect.shared] at found
  split at found
  · rename_i enters
    simp only [Bool.and_eq_true, beq_iff_eq] at enters
    by_cases eq : m = e.source
    · rw [eq, List.lookup_cons_self] at found
      exact .inl ⟨enters.1, enters.2, eq, (Option.some.inj found).symm⟩
    · rw [List.lookup_cons, beq_false_of_ne eq] at found
      exact .inr found
  · exact .inr found

/-- What is in the table stays there: a node that has a shared variable never gets another one. -/
theorem Effect.lookup_keep {w' : Walk} {s : Supply} {isDeferred : Bool}
    (effect : Effect g isDeferred w e (w.place g block isDeferred e) s w') {m : NodeId} {v : Nat}
    (found : w.shared.lookup m = some v) : w'.shared.lookup m = some v := by
  rw [effect.shared]
  split
  · rename_i enters
    simp only [Bool.and_eq_true, beq_iff_eq] at enters
    have ne : m ≠ e.source := by
      rintro rfl
      obtain ⟨-, existing, -, placed⟩ | ⟨free, -⟩ := place_cases g block isDeferred w e
      · rw [placed] at enters
        cases enters.2
      · rw [free enters.1] at found
        cases found
    rw [List.lookup_cons, beq_false_of_ne ne]
    exact found
  · exact found

/-- The table stays right when a slot is supplied. -/
theorem SharedSound.supply {w' : Walk} {p : Placed} {s : Supply} {due' : List VariableId}
    (shared : SharedSound before due w) (c : Consistent g before due w.arena)
    (serves : Placed.Serves g before due w.arena e.source p)
    (effect : Effect g (isDeferredUse g n e) w e p s w')
    (placed : p = w.place g block (isDeferredUse g n e) e)
    (perm : (p.dueAfter due).Perm due') : SharedSound before due' w' := by
  intro m v found
  obtain ⟨isDeferred, block, rfl, rfl⟩ | old := effect.lookup_shared found
  · simp only [isDeferredUse, Bool.and_eq_true, Bool.not_eq_true'] at isDeferred
    obtain ⟨-, inside⟩ := isDeferred
    refine ⟨by rw [effect.same.node, serves.node inside], ?_, ?_⟩
    · rw [← perm.mem_iff, Placed.dueAfter_of_ne (by rw [block]; nofun)]
      exact List.mem_cons_self
    · rw [placed, var_place _ inside]
      exact c.extends'.size_le
  · obtain ⟨node, mem, new⟩ := shared m v old
    refine ⟨?_, perm.mem_iff.mp (Placed.mem_dueAfter mem), new⟩
    rw [effect.same.node, serves.extends'.node (c.due_lt v mem), node]

end Walk

/-! ## The invariant of a walk -/

namespace Stage

variable {g : Graph} {before : Arena} {st st' : Stage}

/-- What holds at each stage of a walk that started from the arena `before`. -/
structure Sound (g : Graph) (before : Arena) (st : Stage) : Prop where
  consistent : Consistent g before st.due st.arena
  marked : Marked g st.due st.arena
  shared : st.walk.SharedSound before st.due
  provided : ∀ pair ∈ st.handed, st.arena.Provided st.due pair.2.var
  giver : ∀ pair ∈ st.handed, (st.arena.node g pair.1).isOutside = false
  ahead : ∀ e ∈ st.ahead, ∃ t n, st.current = some (t, n) ∧ e ∈ g.dependencies n
  current : ∀ t n, st.current = some (t, n) → (st.arena.var t).node = n

theorem Sound.of_passes (sound : Sound g before st)
    (passes : Passes g st st') : Sound g before st' := by
  have arena : st'.arena = st.arena := passes.arena
  have due := passes.due
  exact {
    consistent := by rw [arena]; exact sound.consistent.perm due
    marked := by rw [arena]; exact sound.marked.perm due
    shared := by
      intro n v found
      rw [passes.shared] at found
      obtain ⟨node, mem, new⟩ := sound.shared n v found
      exact ⟨by rw [passes.arena, node], due.mem_iff.mp mem, new⟩
    provided := by
      intro pair mem
      rw [passes.handed] at mem
      rw [arena]
      exact (sound.provided pair mem).perm due
    giver := by
      rw [passes.handed, arena]
      exact sound.giver
    ahead := passes.ahead
    current := passes.current }

/-- A step that supplies a slot of the variable `target`, of the node `n`: the use is served by
    what is placed, and what the walk adds to it changes no values. -/
structure Supplied (g : Graph) (before : Arena) (st st' : Stage) (root target : VariableId)
    (n : NodeId) (e : Edge) (p : Placed) (s : Supply) : Prop where
  placed : p = st.walk.place g root (Walk.isDeferredUse g (g.node n) e) e
  serves : Placed.Serves g before st.due st.arena e.source p
  effect : Walk.Effect g (Walk.isDeferredUse g (g.node n) e) st.walk e p s st'.walk
  due : (p.dueAfter st.due).Perm st'.due
  handed : ∀ pair, pair ∈ st'.handed ↔ pair = (target, s) ∨ pair ∈ st.handed
  ahead : st.ahead = e :: st'.ahead
  current : st.current = some (target, n)
  current' : st'.current = st.current

theorem Sound.supplied (uniform : g.Uniform) {w : Walk} {found : List Block}
    {root target : VariableId} {made : List Instantiation} {n : NodeId} {supplies : List Supply}
    {e : Edge} {rest : List Edge}
    (sound : Sound g before (supplying w found root made target n supplies (e :: rest))) :
    Supplied g before (supplying w found root made target n supplies (e :: rest))
      (supplying (w.supply g root (g.node n) e).2 found root made target n
        (supplies ++ [(w.supply g root (g.node n) e).1]) rest) root target n e
      (w.place g root (Walk.isDeferredUse g (g.node n) e) e) (w.supply g root (g.node n) e).1 := by
  obtain ⟨-, m, -, edge⟩ := sound.ahead e List.mem_cons_self
  have effect := Walk.supply_effect g root (g.node n) w e
  refine ⟨rfl, ?_, effect, ?_, fun _ => mem_handed_supplying, rfl, rfl, rfl⟩
  · exact Walk.place_serves sound.consistent sound.marked uniform sound.shared
      (uniform.source_lt m e edge) root _
  · exact effect.due
      (target :: (made ++ found.flatMap Block.instantiations).map Instantiation.target)

theorem Step.supplied (uniform : g.Uniform) (sound : Sound g before st) (step : Step g st st') :
    Passes g st st' ∨ ∃ root target n e p s, Supplied g before st st' root target n e p s := by
  obtain passes | ⟨w, found, root, made, target, n, supplies, e, rest, rfl, rfl⟩ := step.cases
  · exact .inl passes
  · exact .inr ⟨root, target, n, e, _, _, sound.supplied uniform⟩

section Supplied

variable {root target : VariableId} {n : NodeId} {e : Edge} {p : Placed} {s : Supply}

theorem Supplied.grown (supplied : Supplied g before st st' root target n e p s) :
    st.arena.Extends st'.arena :=
  supplied.serves.extends'.trans supplied.effect.same.toExtends

theorem Supplied.same (supplied : Supplied g before st st' root target n e p s) :
    p.arena.SameValues st'.arena := supplied.effect.same

theorem Supplied.edge (sound : Sound g before st)
    (supplied : Supplied g before st st' root target n e p s) : e ∈ g.dependencies n := by
  obtain ⟨t, m, current, edge⟩ := sound.ahead e (by rw [supplied.ahead]; exact List.mem_cons_self)
  rw [supplied.current] at current
  cases current
  exact edge

theorem Supplied.source_lt (uniform : g.Uniform) (sound : Sound g before st)
    (supplied : Supplied g before st st' root target n e p s) : e.source < g.nodes.size :=
  uniform.source_lt n e (supplied.edge sound)

theorem Supplied.mem_due (supplied : Supplied g before st st' root target n e p s)
    {v : VariableId} (mem : v ∈ st.due) : v ∈ st'.due :=
  supplied.due.mem_iff.mp (Placed.mem_dueAfter mem)

/-- Nothing else becomes due than what is handed out. -/
theorem Supplied.due_cases (supplied : Supplied g before st st' root target n e p s)
    {v : VariableId} (mem : v ∈ st'.due) :
    v = s.var ∧ p.placement ≠ .reference ∨ v ∈ st.due := by
  rw [← supplied.due.mem_iff] at mem
  by_cases placed : p.placement = .reference
  · rw [Placed.dueAfter, placed] at mem
    exact .inr mem
  · rw [Placed.dueAfter_of_ne placed, ← supplied.effect.var] at mem
    exact (List.mem_cons.mp mem).imp_left (⟨·, placed⟩)

theorem Supplied.node_target (sound : Sound g before st)
    (supplied : Supplied g before st st' root target n e p s) :
    st'.arena.node g target = g.node n := by
  have lt := sound.consistent.due_lt target (mem_due_of_current supplied.current)
  rw [supplied.grown.node_eq lt, Arena.node, sound.current target n supplied.current]

/-- What is handed out is from outside exactly if what fills the slot is. -/
theorem Supplied.isOutside_eq (uniform : g.Uniform) (sound : Sound g before st)
    (supplied : Supplied g before st st' root target n e p s) :
    (st'.arena.node g s.var).isOutside = (g.node e.source).isOutside := by
  have serves := supplied.serves
  have n_lt := supplied.source_lt uniform sound
  have lt := serves.consistent.node_lt p.var serves.provided.1
  rw [supplied.effect.var, supplied.same.node_eq]
  exact Node.isOutside_eq (uniform.profile_eq _ _ lt n_lt serves.key)

theorem Supplied.var_eq (supplied : Supplied g before st st' root target n e p s)
    (inside : (g.node e.source).isOutside = false) : s.var = st.arena.vars.size := by
  rw [supplied.effect.var, supplied.placed, Walk.var_place _ inside]
  rfl

/-- The node of what is handed out. -/
theorem Supplied.node_var (supplied : Supplied g before st st' root target n e p s)
    (inside : (g.node e.source).isOutside = false) : (st'.arena.var s.var).node = e.source := by
  rw [supplied.effect.var, supplied.same.node, supplied.serves.node inside]

/-- A variable that is handed something is not from outside. -/
theorem Supplied.giver (uniform : g.Uniform) (sound : Sound g before st)
    (supplied : Supplied g before st st' root target n e p s) :
    (st'.arena.node g target).isOutside = false := by
  rw [supplied.node_target sound, Bool.eq_false_iff]
  intro outside
  have edge := supplied.edge sound
  rw [uniform.outside n outside] at edge
  cases edge

/-- A deferred use for which a variable is made is the first one of its node; it gets a block. -/
theorem Supplied.first_use
    (supplied : Supplied g before st st' root target n e p s)
    (isDeferred : Walk.isDeferredUse g (g.node n) e = true) (placed : p.placement ≠ .reference) :
    st.walk.shared.lookup e.source = none ∧ p.placement = .block ∧
      ∃ p', Placed.Outcome g st.arena e.source e.request p' ∧ p'.placement ≠ .reference := by
  have eq := supplied.placed
  rw [isDeferred] at eq
  obtain ⟨-, existing, -, refers⟩ | ⟨free, p', outcome, same | same⟩ :=
    Walk.place_cases g root true st.walk e
  · rw [eq, refers] at placed
    exact (placed rfl).elim
  · obtain ⟨notInline, same⟩ := same
    rw [same] at eq
    subst eq
    refine ⟨free rfl, ?_, p, outcome, placed⟩
    cases at' : p.placement with
    | inline => exact (notInline rfl at').elim
    | block => rfl
    | reference => exact (placed at').elim
  · obtain ⟨-, inline, same⟩ := same
    rw [same] at eq
    refine ⟨free rfl, by rw [eq], p', outcome, ?_⟩
    rw [inline]
    nofun

theorem Supplied.sound (uniform : g.Uniform) (sound : Sound g before st)
    (supplied : Supplied g before st st' root target n e p s) : Sound g before st' := by
  have serves := supplied.serves
  have same := supplied.same
  have grown := supplied.grown
  have flags : ∀ key (u : Nat), p.arena.lookup (.binding key) = some u →
      (p.arena.node g u).isFlagged = true →
      (st'.arena.var u).isCreated = (p.arena.var u).isCreated := by
    intro key u found flagged
    refine supplied.effect.flags u ?_
    by_cases eq : u = p.var
    · subst eq
      right
      have profile := serves.consistent.profile_of_lookup uniform (supplied.source_lt uniform sound)
        found ((serves.consistent.stored _ _ found).key.symm.trans serves.key)
      rwa [Node.isFlagged_eq profile] at flagged
    · exact .inl eq
  have consistent : Consistent g before st'.due st'.arena :=
    (serves.consistent.of_sameValues same).perm supplied.due
  exact {
    consistent := consistent
    marked := (Placed.marked_of_sameValues serves.marked same flags).perm supplied.due
    shared := sound.shared.supply sound.consistent serves supplied.effect supplied.placed
      supplied.due
    provided := by
      intro pair mem
      rcases (supplied.handed pair).mp mem with rfl | mem
      · rw [supplied.effect.var]
        exact (serves.consistent.provided_mono same.toExtends consistent.linked (fun _ mem => mem)
          serves.provided).perm supplied.due
      · exact sound.consistent.provided_mono grown consistent.linked (fun _ => supplied.mem_due)
          (sound.provided pair mem)
    giver := by
      intro pair mem
      rcases (supplied.handed pair).mp mem with rfl | mem
      · exact supplied.giver uniform sound
      · rw [grown.node_eq (sound.consistent.due_lt pair.1 (mem_due_of_handed mem))]
        exact sound.giver pair mem
    ahead := by
      intro e' mem
      rw [supplied.current']
      exact sound.ahead e' (by rw [supplied.ahead]; exact List.mem_cons_of_mem e mem)
    current := by
      intro t m eq
      rw [supplied.current'] at eq
      have lt := sound.consistent.due_lt t (mem_due_of_current eq)
      exact (grown.node lt).trans (sound.current t m eq) }

end Supplied

/-- A walk adds to the variables and takes nothing away. -/
theorem Run.extends (run : Run g st st') : st.arena.Extends st'.arena := by
  induction run with
  | refl => exact .refl _
  | tail _ step ih =>
    obtain passes | ⟨w, found, root, made, target, n, supplies, e, rest, rfl, rfl⟩ := step.cases
    · have arena : Stage.arena _ = Stage.arena _ := passes.arena
      exact arena ▸ ih
    · exact ih.trans (Walk.extends_supply g root (g.node n) w e)

/-- Each step of a walk keeps the invariant. -/
theorem Step.sound (uniform : g.Uniform) (sound : Sound g before st) (step : Step g st st') :
    Sound g before st' := by
  obtain passes | ⟨_, _, _, _, _, _, supplied⟩ := step.supplied uniform sound
  · exact sound.of_passes passes
  · exact supplied.sound uniform sound

/-- So does a run. -/
theorem Run.sound (uniform : g.Uniform) (sound : Sound g before st) (run : Run g st st') :
    Sound g before st' := by
  induction run with
  | refl => exact sound
  | tail _ step ih => exact step.sound uniform ih

end Stage

end ObjectGraph
