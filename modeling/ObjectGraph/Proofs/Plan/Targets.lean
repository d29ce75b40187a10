import Mathlib.Data.List.Nodup
import ObjectGraph.Proofs.Plan.Forest
import ObjectGraph.Proofs.Plan.Visits

/-
  The order of the instantiations of a block.

  `Block.InTurn` says where an instantiation stands in its block: behind those below it, and behind
  those below an earlier slot than the one that it is below itself.  Values from outside are left
  out; they can be handed out many times, and need nothing themselves.

  `Stage.Ordered` is the invariant.  At each stage of a walk the variables that the current block
  has taken up, followed by those on its stack, form a line (`Stage.line`), and the order of this
  line is the one of the forest of what was handed out (`Stage.forest`).  Taking a variable from the
  stack does not change the line, and supplying a slot puts a new one behind its giver.
-/

namespace ObjectGraph

open Arena

variable {g : Graph} {a a' before : Arena}

/-- A variable of a value that is not from outside. -/
def Arena.Inside (a : Arena) (g : Graph) (v : VariableId) : Prop :=
  (a.node g v).isOutside = false

namespace Instantiation

/-- What an instantiation is handed, by slot, values from outside left out. -/
def needs (g : Graph) (a : Arena) (i : Instantiation) : List VariableId :=
  (i.supplies.map (·.var)).filter fun v => !(a.node g v).isOutside

/-- What each of some instantiations is handed. -/
def forest (g : Graph) (a : Arena) (is : List Instantiation) : Forest :=
  is.map fun i => (i.target, i.needs g a)

theorem needs_extends (grows : a.Extends a') {i : Instantiation}
    (lt : ∀ s ∈ i.supplies, s.var < a.vars.size) : i.needs g a' = i.needs g a := by
  refine List.filter_congr fun v mem => ?_
  obtain ⟨s, known, rfl⟩ := List.mem_map.mp mem
  rw [grows.node_eq (lt s known)]

/-- What instantiations need of variables that are there does not change when others are added. -/
theorem forest_extends (grows : a.Extends a') {is : List Instantiation}
    (lt : ∀ i ∈ is, ∀ s ∈ i.supplies, s.var < a.vars.size) : forest g a' is = forest g a is :=
  List.map_congr_left fun i mem => by rw [needs_extends grows (lt i mem)]

theorem forest_targets (g : Graph) (a : Arena) (is : List Instantiation) :
    (forest g a is).map Prod.fst = is.map (·.target) := by
  rw [forest, List.map_map]
  rfl

/-- What an instantiation is handed with one more slot. -/
theorem needs_append (g : Graph) (a : Arena) (t : VariableId) (supplies : List Supply)
    (s : Supply) : needs g a { target := t, supplies := supplies ++ [s] } =
      needs g a { target := t, supplies } ++
        if (a.node g s.var).isOutside then [] else [s.var] := by
  simp only [needs, List.map_append, List.map_cons, List.map_nil, List.filter_append,
    List.filter_cons, List.filter_nil]
  cases (a.node g s.var).isOutside <;> rfl

/-- One more slot adds to the last instantiation only, even if the arena grows with it. -/
theorem forest_supply (grows : a.Extends a') {t : VariableId} {supplies : List Supply}
    {is : List Instantiation}
    (lt : ∀ i ∈ { target := t, supplies } :: is, ∀ s ∈ i.supplies, s.var < a.vars.size)
    (s : Supply) : forest g a' ({ target := t, supplies := supplies ++ [s] } :: is) =
      (t, needs g a { target := t, supplies } ++
        if (a'.node g s.var).isOutside then [] else [s.var]) :: forest g a is := by
  rw [forest, List.map_cons, ← forest, needs_append,
    needs_extends grows (lt { target := t, supplies } List.mem_cons_self),
    forest_extends grows fun i mem => lt i (List.mem_cons_of_mem _ mem)]

end Instantiation

/-- The instantiations of a block stand in the opposite order of the one in which they were taken
    up, and that one is the order of the forest. -/
def Block.InTurn (g : Graph) (a : Arena) (b : Block) : Prop :=
  Forest.InOrder (a.Inside g) (Instantiation.forest g a b.instantiations)
    (b.instantiations.map (·.target)).reverse

theorem Forest.InOrder.of_extends {f : Forest} {line : List Nat} (grows : a.Extends a')
    (lt : ∀ v ∈ line, v < a.vars.size) (ordered : Forest.InOrder (a.Inside g) f line) :
    Forest.InOrder (a'.Inside g) f line := by
  intro x x_mem y y_mem ne x_in y_in
  rw [Arena.Inside, grows.node_eq (lt x x_mem)] at x_in
  rw [Arena.Inside, grows.node_eq (lt y y_mem)] at y_in
  exact ordered x x_mem y y_mem ne x_in y_in

/-- So a block that was made in turn stays one. -/
theorem Block.InTurn.of_extends {b : Block} (ordered : b.InTurn g a) (grows : a.Extends a')
    (targets_lt : ∀ v ∈ b.instantiations.map (·.target), v < a.vars.size)
    (supply_lt : ∀ i ∈ b.instantiations, ∀ s ∈ i.supplies, s.var < a.vars.size) :
    b.InTurn g a' := by
  rw [Block.InTurn, Instantiation.forest_extends grows supply_lt]
  exact Forest.InOrder.of_extends grows (fun v mem => targets_lt v (List.mem_reverse.mp mem))
    ordered

namespace Stage

variable {st st' : Stage}

/-- The blocks found so far. -/
def found : Stage → List Block
  | between _ found => found
  | within _ found _ _ => found
  | supplying _ found _ _ _ _ _ _ => found

/-- What the variables of the current block are handed so far. -/
def forest (g : Graph) : Stage → Forest
  | between _ _ => []
  | within w _ _ made => Instantiation.forest g w.arena made
  | supplying w _ _ made target _ supplies _ =>
    Instantiation.forest g w.arena ({ target, supplies } :: made)

/-- The variables of the current block: those taken up, and then those on the stack. -/
def line : Stage → List VariableId
  | between _ _ => []
  | within w _ _ made => (made.map (·.target)).reverse ++ w.targets
  | supplying w _ _ made target _ _ _ => (made.map (·.target)).reverse ++ target :: w.targets

/-- What is in line is due. -/
theorem exists_due_perm (st : Stage) : ∃ rest, (st.line ++ rest).Perm st.due := by
  cases st with
  | between w found => exact ⟨_, .refl _⟩
  | within w found root made =>
    refine ⟨w.pending ++ (found.flatMap (·.instantiations)).map (·.target), ?_⟩
    rw [List.perm_iff_count]
    intro v
    simp only [line, due, walk, instantiations, List.map_append, List.count_append,
      List.count_reverse]
    omega
  | supplying w found root made target n supplies rest =>
    refine ⟨w.pending ++ (found.flatMap (·.instantiations)).map (·.target), ?_⟩
    rw [List.perm_iff_count]
    intro v
    simp only [line, due, walk, instantiations, List.map_append, List.map_cons,
      List.count_append, List.count_cons, List.count_reverse]
    omega

theorem Sound.line_nodup (sound : Sound g before st) : st.line.Nodup := by
  obtain ⟨rest, perm⟩ := st.exists_due_perm
  have nodup := perm.nodup_iff.mpr (List.Nodup.of_map _ sound.consistent.due_nodup)
  exact (List.nodup_append.mp nodup).1

theorem Sound.line_lt (sound : Sound g before st) : ∀ v ∈ st.line, v < st.arena.vars.size := by
  obtain ⟨rest, perm⟩ := st.exists_due_perm
  intro v mem
  exact sound.consistent.due_lt v (perm.mem_iff.mp (List.mem_append_left rest mem))

theorem Sound.supply_lt (sound : Sound g before st) :
    ∀ i ∈ st.instantiations, ∀ s ∈ i.supplies, s.var < st.arena.vars.size := by
  intro i mem s mem'
  exact (sound.provided (i.target, s)
    (List.mem_flatMap.mpr ⟨i, mem, List.mem_map_of_mem mem'⟩)).1

/-- The instantiations of the blocks found so far are among those of the stage. -/
theorem mem_instantiations_of_found {b : Block} (mem : b ∈ st.found) {i : Instantiation}
    (known : i ∈ b.instantiations) : i ∈ st.instantiations := by
  have mem' : i ∈ st.found.flatMap (·.instantiations) := List.mem_flatMap.mpr ⟨b, mem, known⟩
  cases st with
  | between w found => exact mem'
  | within w found root made => exact List.mem_append_right _ mem'
  | supplying w found root made target n supplies rest =>
    exact List.mem_cons_of_mem _ (List.mem_append_right _ mem')

/-- The order of a block that was found stays as it is when the arena grows. -/
theorem Sound.inTurn_extends (sound : Sound g before st) (grows : st.arena.Extends a') {b : Block}
    (mem : b ∈ st.found) (ordered : b.InTurn g st.arena) : b.InTurn g a' := by
  refine ordered.of_extends grows (fun v v_mem => ?_) fun i known =>
    sound.supply_lt i (mem_instantiations_of_found mem known)
  obtain ⟨i, known, rfl⟩ := List.mem_map.mp v_mem
  exact sound.consistent.due_lt _
    (List.mem_append_right _ (List.mem_map_of_mem (mem_instantiations_of_found mem known)))

/-- The order of what is taken up, at each stage of a walk. -/
structure Ordered (g : Graph) (st : Stage) : Prop where
  found : ∀ b ∈ st.found, b.InTurn g st.arena
  grown : (st.forest g).Grown st.arena.vars.size
  line : (st.forest g).InOrder (st.arena.Inside g) st.line

theorem ordered_between (w : Walk) : Ordered g (between w []) :=
  ⟨nofun, Forest.grown_nil _, nofun⟩

/-- Supplying a slot puts a variable that the block is to make right behind its giver. -/
theorem Ordered.supply (uniform : g.Uniform) {w : Walk} {found : List Block}
    {root target : VariableId} {made : List Instantiation} {n : NodeId} {supplies : List Supply}
    {e : Edge} {rest : List Edge}
    (sound : Sound g before (supplying w found root made target n supplies (e :: rest)))
    (ordered : Ordered g (supplying w found root made target n supplies (e :: rest))) :
    Ordered g (supplying (w.supply g root (g.node n) e).2 found root made target n
      (supplies ++ [(w.supply g root (g.node n) e).1]) rest) := by
  have supplied := sound.supplied uniform
  set s := (w.supply g root (g.node n) e).1
  set w' := (w.supply g root (g.node n) e).2
  set p := w.place g root (Walk.isDeferredUse g (g.node n) e) e
  have grows : w.arena.Extends w'.arena := supplied.grown
  have line_lt := sound.line_lt
  have forest := Instantiation.forest_supply (g := g) grows
    (fun i (mem : i ∈ { target, supplies } :: made) =>
      sound.supply_lt i (List.mem_append_left _ mem)) s
  -- a use of something new is handed the next variable of the arena
  have fresh (inside : ¬ (w'.arena.node g s.var).isOutside = true) : w.arena.vars.size = s.var :=
    (supplied.var_eq ((supplied.isOutside_eq uniform sound).symm.trans
      (Bool.eq_false_iff.mpr inside))).symm
  refine ⟨fun b mem => sound.inTurn_extends grows mem (ordered.found b mem), ?_, ?_⟩
  · rw [Stage.forest, forest]
    split
    · rw [List.append_nil]
      exact ordered.grown.mono grows.size_le
    · rename_i inside
      have lt : s.var < w'.arena.vars.size := by
        have same : p.arena.SameValues w'.arena := supplied.same
        rw [supplied.effect.var, same.size_eq]
        exact supplied.serves.provided.1
      exact (ordered.grown.hand (Nat.le_of_eq (fresh inside))).mono lt
  · -- the line as it was, seen from the new arena
    have old : Forest.InOrder (w'.arena.Inside g)
        (Instantiation.forest g w.arena ({ target, supplies } :: made))
        ((made.map (·.target)).reverse ++ target :: w.targets) :=
      ordered.line.of_extends grows line_lt
    have targets : w'.targets = if p.placement = .inline then p.var :: w.targets else w.targets :=
      supplied.effect.targets
    have var : s.var = p.var := supplied.effect.var
    rw [Stage.forest, forest, Stage.line, targets]
    split <;> rename_i kind
    · rw [List.append_nil]
      split
      · rw [var] at kind
        have unknown : ¬ w'.arena.Inside g p.var := by
          rw [Arena.Inside, kind]
          nofun
        rw [List.append_cons (List.reverse _)] at old ⊢
        exact old.insert unknown
      · exact old
    · have giver := supplied.giver uniform sound
      split
      · rw [← var]
        exact old.hand ordered.grown (Nat.le_of_eq (fresh kind)) sound.line_nodup line_lt giver
      · exact old.hand_on ordered.grown (Nat.le_of_eq (fresh kind)) line_lt

/-- Each step of a walk keeps the order. -/
theorem Step.ordered (uniform : g.Uniform) (sound : Sound g before st) (ordered : Ordered g st)
    (step : Step g st st') : Ordered g st' := by
  cases step with
  | openBlock w found root pending next idle =>
    refine ⟨ordered.found, Forest.grown_nil _, ?_⟩
    intro x x_mem y y_mem ne
    exact (ne ((List.mem_singleton.mp x_mem).trans (List.mem_singleton.mp y_mem).symm)).elim
  | closeBlock w found root made idle =>
    refine ⟨fun b mem => ?_, Forest.grown_nil _, nofun⟩
    rcases List.mem_cons.mp mem with rfl | mem
    · have line := ordered.line
      rw [Stage.line, idle, List.append_nil] at line
      exact line
    · exact ordered.found b mem
  | take w found root made target targets next =>
    have target_mem : target ∈ (within w found root made).line :=
      List.mem_append_right _ (by rw [next]; exact List.mem_cons_self)
    have new : target ∉ ((within w found root made).forest g).map Prod.fst := by
      have nodup := sound.line_nodup
      rw [Stage.line, next] at nodup
      rw [Stage.forest, Instantiation.forest_targets]
      intro mem
      exact (List.nodup_append.mp nodup).2.2 target (List.mem_reverse.mpr mem) target
        List.mem_cons_self rfl
    refine ⟨ordered.found, ordered.grown.take (sound.line_lt target target_mem) new, ?_⟩
    have line := ordered.line.take (c := target)
    rw [Stage.line, next] at line
    exact line
  | supply w found root made target n supplies e rest => exact ordered.supply uniform sound
  | finish w found root made target n supplies =>
    refine ⟨ordered.found, ordered.grown, ?_⟩
    have line := ordered.line
    simp only [Stage.line, List.map_cons, List.reverse_cons, List.append_assoc,
      List.singleton_append] at line ⊢
    exact line

/-- A whole run keeps the targets of a block in order. -/
theorem Run.ordered (uniform : g.Uniform) (sound : Sound g before st) (ordered : Ordered g st)
    (run : Run g st st') : Ordered g st' := by
  induction run with
  | refl => exact ordered
  | tail run step ih => exact step.ordered uniform (Run.sound uniform sound run) ih

end Stage

/-- The instantiations of every block of a tour stand in turn. -/
theorem Tour.Traced.inTurn (uniform : g.Uniform) {t : Tour} {first last : Walk}
    (traced : t.Traced g before first last) : ∀ b ∈ t.blocks, b.InTurn g t.arena := by
  have ordered := traced.run.ordered uniform traced.sound (Stage.ordered_between first)
  intro b mem
  exact traced.arena_eq ▸ ordered.found b (List.mem_reverse.mpr mem)

end ObjectGraph
