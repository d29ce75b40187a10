import ObjectGraph.Proofs.Plan.Budget
import ObjectGraph.Proofs.Plan.Origin

/-
  What the uses of a node are answered with.

  A use is answered with the variable that the deferred uses of its node share, with the storage
  that is found under its key for the block, or with a variable that is made for it alone
  (`Use.Answered`).  Once something is found under a key, or entered in the table of shared
  variables, it stays there for the rest of the root.  So the answers can be told by what a walk knows
  when it is over (`Stage.Leads`), whatever was known at the time.

  `Leg.Explained` sums up, for a plan, where its variables come from and what its uses were answered
  with.
-/

namespace ObjectGraph

open Arena

variable {g : Graph} {a before : Arena}

/-- What a use of a node is answered with: the shared variable of the node, the storage that is found
    under its key for the block, or, if it has none, a variable that is made for it.  The walk `w` is
    the one at the end of the root, and `due` is all that the root makes. -/
inductive Use.Answered (g : Graph) (w : Walk) (due : List VariableId) (a : Arena) (u : Use) : Prop
  where
  | shared {v : VariableId} (deferred : u.isDeferred g a = true)
      (unshared : (a.node g u.supply.var).isShared = false)
      (entry : w.shared.lookup (a.var u.supply.var).node = some v) (ne : v ≠ u.supply.var)
      (same : a.terminal v = a.terminal u.supply.var)
  | found {k : StorageKey}
      (key : Placed.keyOf g (a.var u.supply.var).node (some u.block) = some k)
      (stored : w.arena.lookup k = some (a.terminal u.supply.var))
  | made (alone : Placed.keyOf g (a.var u.supply.var).node (some u.block) = none)
      (due : u.supply.var ∈ due)

namespace Stage

variable {st st' : Stage} {w : Walk} {due : List VariableId}

/-! ## What is known stays known -/

/-- What a stage knows is known to the walk `w` at the end of the root, which makes `due`, and its
    variables are those of a still later arena `a`. -/
structure Leads (st : Stage) (w : Walk) (due : List VariableId) (a : Arena) : Prop where
  extends' : st.arena.Extends a
  linked : a.Linked
  lookup : ∀ k v, st.arena.lookup k = some v → w.arena.lookup k = some v
  shared : ∀ n v, st.walk.shared.lookup n = some v → w.shared.lookup n = some v
  due : ∀ v ∈ st.due, v ∈ due

section Supplied

variable {root target : VariableId} {n : NodeId} {e : Edge} {p : Placed} {s : Supply}

theorem Supplied.lookup_keep (supplied : Supplied g before st st' root target n e p s)
    {k : StorageKey} {v : VariableId} (found : st.arena.lookup k = some v) :
    st'.arena.lookup k = some v := by
  have kept : (st.walk.place g root (Walk.isDeferredUse g (g.node n) e) e).arena.lookup k = some v :=
    Walk.place_lookup found
  rw [← supplied.placed] at kept
  exact (supplied.same.lookup k).trans kept

/-- What is put on a stack for a slot is due. -/
theorem Supplied.made (supplied : Supplied g before st st' root target n e p s)
    (placed : p.placement ≠ .reference) : s.var ∈ st'.due := by
  rw [← supplied.due.mem_iff, Placed.dueAfter_of_ne placed, supplied.effect.var]
  exact List.mem_cons_self

theorem Supplied.shared_keep (supplied : Supplied g before st st' root target n e p s)
    {m : NodeId} {v : VariableId} (found : st.walk.shared.lookup m = some v) :
    st'.walk.shared.lookup m = some v :=
  (supplied.placed ▸ supplied.effect).lookup_keep found

end Supplied

theorem Step.leads (uniform : g.Uniform) (sound : Sound g before st) (step : Step g st st')
    (leads : st'.Leads w due a) : st.Leads w due a := by
  have grown : st.arena.Extends st'.arena := Run.extends (.single step)
  obtain passes | ⟨_, _, _, _, _, _, supplied⟩ := step.supplied uniform sound
  · have arena : st'.arena = st.arena := passes.arena
    exact {
      extends' := grown.trans leads.extends'
      linked := leads.linked
      lookup := fun k v found => leads.lookup k v (arena ▸ found)
      shared := fun m v found => leads.shared m v (passes.shared ▸ found)
      due := fun v mem => leads.due v (passes.due.mem_iff.mp mem) }
  · exact {
      extends' := grown.trans leads.extends'
      linked := leads.linked
      lookup := fun k v found => leads.lookup k v (supplied.lookup_keep found)
      shared := fun m v found => leads.shared m v (supplied.shared_keep found)
      due := fun v mem => leads.due v (supplied.mem_due mem) }

/-! ## Answers -/

/-- How the uses so far are answered, as told when all is over. -/
structure Answers (g : Graph) (w : Walk) (due : List VariableId) (a : Arena) (st : Stage) : Prop
  where
  answered : ∀ u ∈ st.uses, a.Inside g u.supply.var → u.Answered g w due a
  /-- What is found for a block was made for a use in it. -/
  hoisted : ∀ key r v, st.arena.lookup (.hoisted key r) = some v → ∃ u ∈ st.uses, u.block = r ∧
    u.supply.var = v ∧ v ∈ due ∧ Placed.keyOf g (a.var v).node (some r) = some (.hoisted key r)

section Supplied

variable {root target : VariableId} {n : NodeId} {e : Edge} {p : Placed} {s : Supply}
  (uniform : g.Uniform) (sound : Sound g before st)
  (supplied : Supplied g before st st' root target n e p s) (leads : st'.Leads w due a)
include uniform sound supplied leads

/-- What is stored stands for itself. -/
theorem Supplied.terminal_of_lookup {k : StorageKey} {v : VariableId}
    (found : st'.arena.lookup k = some v) : a.terminal v = v := by
  have c := (supplied.sound uniform sound).consistent
  rw [leads.extends'.terminal_eq c.linked leads.linked v (c.stored k v found).lt]
  exact c.terminal_of_lookup found

/-- An instance that is shared is found under the key of its binding. -/
theorem Supplied.answered_shared (inside : (g.node e.source).isOutside = false)
    (shared : (g.node e.source).isShared = true) :
    (⟨root, target, s⟩ : Use).Answered g w due a := by
  have c := (supplied.sound uniform sound).consistent
  have lt := supplied.var_lt
  have node := supplied.node_var inside
  have recent : before.vars.size ≤ s.var := by
    rw [supplied.var_eq inside]
    exact sound.consistent.extends'.size_le
  have kept := c.kept s.var lt (by rw [Arena.node, node, shared]) (.inr recent)
  refine .found (k := .binding (g.node e.source).key) ?_ ?_
  · rw [leads.extends'.node lt, node, Placed.keyOf_shared shared]
  · rw [leads.extends'.terminal_eq c.linked leads.linked s.var lt]
    refine leads.lookup _ _ ?_
    rwa [Arena.node, node] at kept

theorem Supplied.answered (inside : (g.node e.source).isOutside = false) :
    (⟨root, target, s⟩ : Use).Answered g w due a := by
  cases shared : (g.node e.source).isShared with
  | true => exact supplied.answered_shared uniform sound leads inside shared
  | false =>
    have c := sound.consistent
    have c' := (supplied.sound uniform sound).consistent
    have lt := supplied.var_lt
    have node : (a.var s.var).node = e.source := by
      rw [leads.extends'.node lt, supplied.node_var inside]
    have ends : a.terminal s.var = st'.arena.terminal s.var :=
      leads.extends'.terminal_eq c'.linked leads.linked s.var lt
    rcases supplied.finds uniform sound with ⟨t, finds, reuses⟩ | ⟨nothing, makes⟩
    · have same := ends.trans (supplied.terminal_reused reuses)
      rcases finds with ⟨deferred, v, entry, v_ends⟩ | ⟨-, k, key, stored, -⟩
      · have v_lt := c.due_lt v (sound.shared _ v entry).2.1
        refine .shared (v := v) ?_ ?_ ?_ ?_ ?_
        · rw [supplied.use_isDeferred uniform sound leads.extends', deferred]
        · rw [Arena.node, node, shared]
        · rw [node]
          exact leads.shared _ v (supplied.shared_keep entry)
        · rw [supplied.var_eq inside]
          exact Nat.ne_of_lt v_lt
        · calc a.terminal v
              _ = st'.arena.terminal v := leads.extends'.terminal_eq c'.linked leads.linked v
                (Nat.lt_of_lt_of_le v_lt supplied.grown.size_le)
              _ = st.arena.terminal v := supplied.terminal_eq uniform sound v_lt
              _ = a.terminal s.var := v_ends.trans same.symm
      · refine .found (k := k) (by rw [node, key]) ?_
        rw [same]
        exact leads.lookup k t (supplied.lookup_keep stored)
    · have made := supplied.made (makes.placement_ne (Walk.placementFor_ne g root _ e))
      cases key : Placed.keyOf g e.source (some root) with
      | none => exact .made (by rw [node, key]) (leads.due s.var made)
      | some k =>
        -- otherwise something would have been found
        have free : st.arena.lookup k = none := by
          refine Option.eq_none_iff_forall_ne_some.mpr fun t found => nothing t (.inr ⟨?_, ?_⟩)
          · exact fun deferred => Option.eq_none_iff_forall_ne_some.mpr fun v entry =>
              nothing _ (.inl ⟨deferred, v, entry, rfl⟩)
          · refine Placed.finds_of_ready c sound.marked uniform (supplied.source_lt uniform sound)
              key found fun flagged => ?_
            rw [Node.isShared_of_isFlagged flagged] at shared
            cases shared
        have stored : st'.arena.lookup k = some s.var := by
          refine (supplied.same.lookup k).trans ?_
          rw [makes.stored, if_pos ⟨key, free⟩, supplied.effect.var]
        refine .found (k := k) (by rw [node, key]) ?_
        rw [supplied.terminal_of_lookup uniform sound leads stored]
        exact leads.lookup k _ stored

/-- What is stored for a block when a slot is supplied is made for it. -/
theorem Supplied.hoisted {key : BindingKey} {r v : VariableId}
    (free : st.arena.lookup (.hoisted key r) ≠ some v)
    (found : st'.arena.lookup (.hoisted key r) = some v) :
    r = root ∧ v = s.var ∧ v ∈ due ∧
      Placed.keyOf g (a.var v).node (some r) = some (.hoisted key r) := by
  have found : p.arena.lookup (.hoisted key r) = some v := (supplied.same.lookup _).symm.trans found
  rcases supplied.finds uniform sound with ⟨_, -, reuses⟩ | ⟨-, makes⟩
  · rw [Arena.lookup, reuses.stored] at found
    exact (free found).elim
  · rw [makes.stored] at found
    split at found
    · rename_i new
      have var : s.var = v := supplied.effect.var.trans (Option.some.inj found)
      have made := supplied.made (makes.placement_ne (Walk.placementFor_ne g root _ e))
      cases shared : (g.node e.source).isShared with
      | true => cases (Placed.keyOf_shared shared).symm.trans new.1
      | false =>
        obtain ⟨_, same, eq⟩ := Placed.keyOf_unshared shared new.1
        cases same
        cases eq
        have inside : (g.node e.source).isOutside = false := by
          rw [Node.isShared, Bool.or_eq_false_iff] at shared
          exact shared.1
        refine ⟨rfl, var.symm, leads.due v (var ▸ made), ?_⟩
        rw [← var, leads.extends'.node supplied.var_lt, supplied.node_var inside]
        exact new.1
    · exact (free found).elim

end Supplied

theorem Answers.supply (uniform : g.Uniform) {w₀ : Walk} {found : List Block}
    {root target : VariableId} {made : List Instantiation} {n : NodeId} {supplies : List Supply}
    {e : Edge} {rest : List Edge}
    (sound : Sound g before (supplying w₀ found root made target n supplies (e :: rest)))
    (answers : Answers g w due a (supplying w₀ found root made target n supplies (e :: rest)))
    (leads : (supplying (w₀.supply g root (g.node n) e).2 found root made target n
      (supplies ++ [(w₀.supply g root (g.node n) e).1]) rest).Leads w due a) :
    Answers g w due a (supplying (w₀.supply g root (g.node n) e).2 found root made target n
      (supplies ++ [(w₀.supply g root (g.node n) e).1]) rest) := by
  have supplied := sound.supplied uniform
  have mem_uses (u : Use) : u ∈ (supplying (w₀.supply g root (g.node n) e).2 found root made target n
      (supplies ++ [(w₀.supply g root (g.node n) e).1]) rest).uses ↔
      u = ⟨root, target, (w₀.supply g root (g.node n) e).1⟩ ∨
        u ∈ (supplying w₀ found root made target n supplies (e :: rest)).uses :=
    mem_uses_supplying
  constructor
  case answered =>
    intro u mem inside
    rcases (mem_uses u).mp mem with rfl | mem
    · exact supplied.answered uniform sound leads
        ((supplied.inside_iff uniform sound leads.extends').mp inside)
    · exact answers.answered u mem inside
  case hoisted =>
    intro key r v stored
    by_cases old : w₀.arena.lookup (.hoisted key r) = some v
    · obtain ⟨u, mem, kept⟩ := answers.hoisted key r v old
      exact ⟨u, (mem_uses u).mpr (.inr mem), kept⟩
    · obtain ⟨rfl, rfl, kept⟩ := supplied.hoisted uniform sound leads old stored
      exact ⟨_, (mem_uses _).mpr (.inl rfl), rfl, rfl, kept⟩

theorem Step.answers (uniform : g.Uniform) (sound : Sound g before st)
    (answers : Answers g w due a st) (leads : st'.Leads w due a) (step : Step g st st') :
    Answers g w due a st' := by
  cases step with
  | openBlock w found root pending next idle => exact ⟨answers.answered, answers.hoisted⟩
  | closeBlock w found root made idle => exact ⟨answers.answered, answers.hoisted⟩
  | take w found root made target targets next =>
    have same : ∀ u, u ∈ (supplying { w with targets } found root made target
        (w.arena.var target).node [] (g.dependencies (w.arena.var target).node)).uses ↔
        u ∈ (within w found root made).uses := fun u => by
      simp [uses, blocks, Block.uses]
    refine ⟨fun u mem => answers.answered u ((same u).mp mem), fun key r v stored => ?_⟩
    obtain ⟨u, mem, rest⟩ := answers.hoisted key r v stored
    exact ⟨u, (same u).mpr mem, rest⟩
  | finish w found root made target n supplies => exact ⟨answers.answered, answers.hoisted⟩
  | supply w found root made target n supplies e rest => exact answers.supply uniform sound leads

theorem Run.answers (uniform : g.Uniform) (sound : Sound g before st)
    (answers : Answers g w due a st) (run : Run g st st') (leads : st'.Leads w due a) :
    Answers g w due a st' := by
  induction run with
  | refl => exact answers
  | tail earlier step ih =>
    have sound' := Run.sound uniform sound earlier
    exact step.answers uniform sound' (ih (step.leads uniform sound' leads)) leads

end Stage

/-! ## Plans explained -/

/-- Where the variables of a plan come from, and what its uses are answered with.  `top` is the
    variable of the root, `w` the walk when it was over, and `a` any later arena. -/
structure Leg.Explained (g : Graph) (top : VariableId) (w : Walk) (a : Arena) (l : Leg) : Prop where
  edge : ∀ u ∈ l.tour.plan.uses, ∃ e ∈ g.dependencies (a.var u.target).node,
    (a.node g u.supply.var).key = (g.node e.source).key ∧
      (a.Inside g u.supply.var → (a.var u.supply.var).node = e.source)
  newer : ∀ u ∈ l.tour.plan.uses, a.Inside g u.supply.var →
    u.target < u.supply.var ∧ top < u.supply.var
  once : ∀ u ∈ l.tour.plan.uses, ∀ u' ∈ l.tour.plan.uses, a.Inside g u.supply.var →
    u.supply.var = u'.supply.var → u = u'
  opens : ∀ b ∈ l.tour.plan.blocks, b.root = top ∨
    ∃ u ∈ l.tour.plan.uses, u.supply.var = b.root ∧ u.placement g a = .block
  fills : ∀ b ∈ l.tour.plan.blocks, (∃ i ∈ b.instantiations, i.target = b.root) ∧
    ∀ i ∈ b.instantiations, i.target = b.root ∨
      ∃ u ∈ l.tour.plan.uses, u.block = b.root ∧ u.supply.var = i.target ∧ u.placement g a = .inline
  answered : ∀ u ∈ l.tour.plan.uses, a.Inside g u.supply.var → u.Answered g w l.tour.plan.targets a
  hoisted : ∀ key r v, w.arena.lookup (.hoisted key r) = some v → ∃ u ∈ l.tour.plan.uses,
    u.block = r ∧ u.supply.var = v ∧ v ∈ l.tour.plan.targets ∧
      Placed.keyOf g (a.var v).node (some r) = some (.hoisted key r)
  /-- The shared variable of a node was made for a deferred use of it. -/
  entry : ∀ n v, w.shared.lookup n = some v → v ∈ l.tour.plan.targets ∧
    ∃ u ∈ l.tour.plan.uses, u.supply.var = v ∧ (a.var v).node = n ∧ u.isDeferred g a = true
  /-- What is made for a deferred use is shared. -/
  entered : ∀ u ∈ l.tour.plan.uses, u.isDeferred g a = true → u.supply.var ∈ l.tour.plan.targets →
    w.shared.lookup (a.var u.supply.var).node = some u.supply.var

theorem Tour.mem_uses (t : Tour) (w : Walk) (u : Use) :
    u ∈ (Stage.between w t.blocks.reverse).uses ↔ u ∈ t.plan.uses :=
  ((t.blocks.reverse_perm.trans (Block.inOrder_perm (a := t.arena)).symm).flatMap_right _).mem_iff

theorem Graph.Toured.explained (uniform : g.Uniform) {legs : List Leg} {l : Leg}
    (toured : g.Toured legs a) (mem : l ∈ legs) : ∃ w, l.Explained g l.tour.var w a := by
  obtain ⟨rested, known, limit, ends⟩ := toured.exists_tour uniform mem
  obtain ⟨last, traced⟩ := Graph.tour_traced_start rested uniform known ends
  have steady := rested.steady_start uniform known
  set p := Placed.of g l.before l.tour.root.node l.tour.root.request none
  have serves := Placed.Serves.of_outcome rested.1 rested.2 uniform (uniform.root_lt _ known)
    (Placed.of_outcome g l.before l.tour.root.node l.tour.root.request none)
  have same : p.arena.SameValues (Walk.start p).arena :=
    (sameValues_setBlockRoot _ _).trans (sameValues_setCreated _ _ true)
  have links := traced.linkSound uniform
  have sound := traced.run.sound uniform traced.sound
  have mem_uses (u : Use) := l.tour.mem_uses last u
  have leads : (Stage.between last l.tour.blocks.reverse).Leads last l.tour.plan.targets a := {
    extends' := traced.arena_eq ▸ toured.extends_of_mem uniform mem
    linked := (toured.rested uniform).1.linked
    lookup := fun _ _ => id
    shared := fun _ _ => id
    due := fun v mem => traced.due_perm.mem_iff.mp mem }
  have grown := leads.extends'
  have origins : Stage.Origins g a p.var (.between last l.tour.blocks.reverse) := by
    refine Stage.Run.origins uniform traced.sound ?_ ?_ traced.run grown
    · exact Nat.lt_of_lt_of_eq serves.provided.1 same.size_eq.symm
    · exact ⟨nofun, nofun, nofun, fun v mem => .inl (List.mem_singleton.mp mem), nofun, nofun, nofun⟩
  have answers : Stage.Answers g last l.tour.plan.targets a (.between last l.tour.blocks.reverse) := by
    refine Stage.Run.answers uniform traced.sound ⟨nofun, fun key r v found => ?_⟩ traced.run leads
    cases (steady.hoists.stored key r v found : r ∈ [])
  refine ⟨last, ?_⟩
  rw [Graph.tour_var ends]
  constructor
  case edge => exact fun u mem => origins.edge u ((mem_uses u).mpr mem)
  case newer => exact fun u mem => origins.newer u ((mem_uses u).mpr mem)
  case once =>
    exact fun u mem u' mem' => origins.once u ((mem_uses u).mpr mem) u' ((mem_uses u').mpr mem')
  case opens =>
    intro b b_mem
    have known : b ∈ l.tour.blocks.reverse :=
      List.mem_reverse.mpr (Block.inOrder_perm.mem_iff.mp b_mem)
    exact (origins.opens b known).imp_right fun ⟨u, mem, rest⟩ => ⟨u, (mem_uses u).mp mem, rest⟩
  case fills =>
    intro b b_mem
    have known : b ∈ l.tour.blocks.reverse :=
      List.mem_reverse.mpr (Block.inOrder_perm.mem_iff.mp b_mem)
    obtain ⟨rooted, fills⟩ := origins.fills b known
    exact ⟨rooted, fun i i_mem => (fills i i_mem).imp_right fun ⟨u, mem, rest⟩ =>
      ⟨u, (mem_uses u).mp mem, rest⟩⟩
  case answered => exact fun u mem => answers.answered u ((mem_uses u).mpr mem)
  case hoisted =>
    intro key r v found
    obtain ⟨u, mem, rest⟩ := answers.hoisted key r v found
    exact ⟨u, (mem_uses u).mp mem, rest⟩
  case entry =>
    intro n v found
    obtain ⟨node, made, -⟩ := sound.shared n v found
    obtain ⟨inside, x, handed, var, deferred⟩ := links.table n v found
    obtain ⟨u, mem, rfl⟩ := Stage.mem_handed_iff.mp handed
    have lt := sound.consistent.due_lt v made
    have target_lt := (sound.handed_lt handed).1
    refine ⟨traced.due_perm.mem_iff.mp made, u, (mem_uses u).mp mem, var, ?_, ?_⟩
    · rw [grown.node lt]
      exact node
    · have var : u.supply.var = v := var
      have deferred : (last.arena.node g u.target).isDeferred = true := deferred
      have inside : (last.arena.node g v).isOutside = false := by
        rw [Arena.node, show (last.arena.var v).node = n from node, inside]
      have target : (a.node g u.target).isDeferred = true := by
        rw [grown.node_eq target_lt]
        exact deferred
      rw [Use.isDeferred, target, var, grown.node_eq lt]
      exact congrArg (true && !·) inside
  case entered =>
    intro u mem deferred made
    have handed := Stage.mem_handed_iff.mpr ⟨u, (mem_uses u).mpr mem, rfl⟩
    obtain ⟨target_lt, lt⟩ := sound.handed_lt handed
    rw [Use.isDeferred, grown.node_eq target_lt, grown.node_eq lt, Bool.and_eq_true,
      Bool.not_eq_true'] at deferred
    rw [grown.node lt]
    exact links.entered _ handed deferred.1 deferred.2 (traced.due_perm.mem_iff.mpr made)

/-! ## What a plan makes for its uses -/

theorem Block.root_mem_targets {p : Plan} {b : Block} (mem : b ∈ p.blocks)
    (rooted : ∃ i ∈ b.instantiations, i.target = b.root) : b.root ∈ p.targets := by
  obtain ⟨i, i_mem, root⟩ := rooted
  exact root ▸ List.mem_map_of_mem (List.mem_flatMap.mpr ⟨b, mem, i_mem⟩)

namespace Leg.Explained

variable {l : Leg} {u u₀ : Use} {top : VariableId} {w : Walk}
  (explained : l.Explained g top w a)
include explained

/-- What a plan makes has a block of its own, or is made inline for a use. -/
theorem cases_of_made {v : VariableId} (made : v ∈ l.tour.plan.targets) :
    (∃ b ∈ l.tour.plan.blocks, b.root = v) ∨
      ∃ u ∈ l.tour.plan.uses, u.supply.var = v ∧ u.placement g a = .inline := by
  obtain ⟨i, mem, rfl⟩ := List.mem_map.mp made
  obtain ⟨b, b_mem, i_mem⟩ := List.mem_flatMap.mp mem
  obtain root | ⟨u, u_mem, -, var, inline⟩ := (explained.fills b b_mem).2 i i_mem
  · exact .inl ⟨b, b_mem, root.symm⟩
  · exact .inr ⟨u, u_mem, var, inline⟩

/-- What is made inline for a use has no block of its own. -/
theorem root_ne_of_inline (mem : u ∈ l.tour.plan.uses) (inside : a.Inside g u.supply.var)
    (inline : u.placement g a = .inline) : ∀ b ∈ l.tour.plan.blocks, b.root ≠ u.supply.var := by
  intro b b_mem root
  obtain eq | ⟨u', mem', var, block⟩ := explained.opens b b_mem
  · exact Nat.ne_of_gt (explained.newer u mem inside).2 (root.symm.trans eq)
  · cases explained.once u mem u' mem' inside (root.symm.trans var.symm)
    cases inline.symm.trans block

/-- A use of a shared instance is answered with the one storage. -/
theorem lookup_of_shared (mem : u ∈ l.tour.plan.uses) (inside : a.Inside g u.supply.var)
    (shared : (a.node g u.supply.var).isShared = true) :
    w.arena.lookup (.binding (a.node g u.supply.var).key) = some (a.terminal u.supply.var) := by
  cases explained.answered u mem inside with
  | shared _ unshared =>
    rw [shared] at unshared
    cases unshared
  | made alone => cases (Placed.keyOf_shared shared).symm.trans alone
  | @found k key stored =>
    cases (Placed.keyOf_shared shared).symm.trans key
    exact stored

end Leg.Explained

/-- Variables that stand for the same value come from the same side. -/
theorem Rested.inside_congr (rested : Rested g a) (uniform : g.Uniform) {v v' : Nat}
    (lt : v < a.vars.size) (lt' : v' < a.vars.size) (same : a.terminal v = a.terminal v')
    (inside : a.Inside g v) : a.Inside g v' := by
  have key : (a.node g v).key = (a.node g v').key := by
    rw [← rested.1.key_terminal v lt, same, rested.1.key_terminal v' lt']
  rw [Arena.Inside, Node.isOutside_eq (rested.1.profile_eq uniform lt lt' key)]
  exact inside

namespace Graph.Toured

variable {legs : List Leg} {l : Leg} {u u₀ : Use} (uniform : g.Uniform) (toured : g.Toured legs a)
  (mem : l ∈ legs)
include uniform toured mem

/-- What a plan makes is told apart by what it stands for. -/
theorem target_inj {v v' : VariableId} (made : v ∈ l.tour.plan.targets)
    (made' : v' ∈ l.tour.plan.targets) (same : a.terminal v = a.terminal v') : v = v' := by
  have c := (toured.sound uniform mem).consistent
  obtain ⟨-, -, once⟩ := c.due_extends (toured.extends_of_mem uniform mem)
    (toured.rested uniform).1.linked
  exact List.inj_on_of_nodup_map once made made' same

/-- Uses that two values are made for are told apart by what these stand for. -/
theorem use_inj {top : VariableId} {w : Walk} (explained : l.Explained g top w a)
    (u_mem : u ∈ l.tour.plan.uses) (u₀_mem : u₀ ∈ l.tour.plan.uses)
    (inside : a.Inside g u.supply.var) (made : u.supply.var ∈ l.tour.plan.targets)
    (made₀ : u₀.supply.var ∈ l.tour.plan.targets)
    (same : a.terminal u₀.supply.var = a.terminal u.supply.var) : u₀ = u :=
  (explained.once u u_mem u₀ u₀_mem inside
    (toured.target_inj uniform mem made made₀ same.symm)).symm

/-- Each use is answered with something that the plan makes. -/
theorem exists_made (u_mem : u ∈ l.tour.plan.uses) :
    u.supply.var < a.vars.size ∧
      ∃ v ∈ l.tour.plan.targets, v < a.vars.size ∧ a.terminal v = a.terminal u.supply.var := by
  obtain ⟨b, b_mem, u_mem⟩ := List.mem_flatMap.mp u_mem
  obtain ⟨-, i, i_mem, -, s_mem⟩ := Block.mem_uses.mp u_mem
  have sound := toured.sound uniform mem
  have grows := toured.extends_of_mem uniform mem
  obtain ⟨lt, made⟩ := sound.consistent.provided_mono grows (toured.rested uniform).1.linked
    (fun _ => id) (sound.provided i (List.mem_flatMap.mpr ⟨b, b_mem, i_mem⟩) _ s_mem)
  obtain ⟨v, v_mem, same⟩ := List.mem_map.mp made
  have v_lt := sound.consistent.due_lt v v_mem
  exact ⟨lt, v, v_mem, Nat.lt_of_lt_of_le v_lt grows.size_le, same⟩

end Graph.Toured

end ObjectGraph
