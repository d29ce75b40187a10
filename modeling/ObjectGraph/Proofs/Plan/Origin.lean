import ObjectGraph.Proofs.Plan.Makers
import ObjectGraph.Proofs.Plan.Supply

/-
  For which use a variable was made, and in which block.

  A `Use` is a variable that an instantiation is handed, together with the block of the
  instantiation.  What is not from outside is handed out once, so a variable that a plan makes is the
  one of the root, or belongs to one use.  That use alone decides where it is made
  (`Use.placement`): in a block of its own, or in the block of the use.

  `Stage.Origins` is the invariant of a walk.  It speaks of the nodes of variables as they are in
  some later arena, so that a step has to say something about the new use only.
-/

namespace ObjectGraph

open Arena

variable {g : Graph} {a before : Arena}

/-! ## Uses -/

/-- A variable that an instantiation of a block is handed for one of its slots. -/
structure Use where
  /-- The variable that the block makes. -/
  block : VariableId
  /-- The variable that the instantiation makes. -/
  target : VariableId
  /-- What it is handed. -/
  supply : Supply
  deriving DecidableEq

/-- The uses in a block. -/
def Block.uses (b : Block) : List Use :=
  b.instantiations.flatMap fun i => i.supplies.map fun s => ⟨b.root, i.target, s⟩

/-- The uses in a plan. -/
def Plan.uses (p : Plan) : List Use := p.blocks.flatMap Block.uses

/-- The uses of a block are what its instantiations are handed. -/
theorem Block.mem_uses {b : Block} {u : Use} : u ∈ b.uses ↔ u.block = b.root ∧
    ∃ i ∈ b.instantiations, u.target = i.target ∧ u.supply ∈ i.supplies := by
  simp only [uses, List.mem_flatMap, List.mem_map]
  constructor
  · rintro ⟨i, mem, s, mem', rfl⟩
    exact ⟨rfl, i, mem, rfl, mem'⟩
  · rintro ⟨block, i, mem, target, mem'⟩
    exact ⟨i, mem, u.supply, mem', by rw [← block, ← target]⟩

namespace Use

/-- Tells if the variable is supplied for later. -/
def isDeferred (g : Graph) (a : Arena) (u : Use) : Bool :=
  (a.node g u.target).isDeferred && !(a.node g u.supply.var).isOutside

/-- Where a variable for the use is made, if one has to be made. -/
def placement (g : Graph) (a : Arena) (u : Use) : Placement :=
  if u.isDeferred g a then .block
  else Placed.placementOf g (a.var u.supply.var).node (some u.block)

variable {u : Use}

/-- What is made inside the block of its use is neither kept for the composition nor used again. -/
theorem of_placement_inline (placed : u.placement g a = .inline) (inside : a.Inside g u.supply.var) :
    (a.node g u.target).isDeferred = false ∧
      (a.node g u.supply.var).lifetime.isCompositionWide = false ∧
      g.weight (a.var u.supply.var).node ≤ 1 := by
  rw [placement] at placed
  split at placed
  · cases placed
  · rename_i prompt
    rw [isDeferred, inside, Bool.not_false, Bool.and_true, Bool.not_eq_true] at prompt
    rw [Placed.placementOf, if_neg (by rw [← Arena.node, inside]; exact Bool.false_ne_true)] at placed
    split at placed
    · cases placed
    · rename_i narrow
      split at placed
      · cases placed
      · rename_i alone
        exact ⟨prompt, Bool.eq_false_iff.mpr narrow,
          Nat.le_of_not_lt fun reused => alone ⟨reused, .inr rfl⟩⟩

theorem placement_ne_reference (u : Use) : u.placement g a ≠ .reference := by
  rw [placement]
  split
  · nofun
  · exact Placed.placementOf_ne g _ _

/-- What is placed for a use is made in the current block or in one of its own. -/
theorem placement_cases (u : Use) : u.placement g a = .inline ∨ u.placement g a = .block := by
  cases placed : u.placement g a with
  | inline => exact .inl rfl
  | block => exact .inr rfl
  | reference => exact (u.placement_ne_reference placed).elim

/-- What the block of a use shares is made in a block of its own. -/
theorem placement_of_hoisted {key : BindingKey} {r : VariableId}
    (hoisted : Placed.keyOf g (a.var u.supply.var).node (some r) = some (.hoisted key r)) :
    u.placement g a = .block := by
  obtain ⟨unshared, reused, -⟩ := Placed.keyOf_hoisted_iff.mp hoisted
  rw [Node.isShared, Bool.or_eq_false_iff] at unshared
  rw [placement]
  split
  · rfl
  · rw [Placed.placementOf, unshared.1, if_neg Bool.false_ne_true]
    split
    · rfl
    · exact if_pos ⟨reused, .inr rfl⟩

end Use

namespace Stage

variable {st st' : Stage}

/-- The blocks that a stage knows of, the current one with what it has so far. -/
def blocks : Stage → List Block
  | between _ found => found
  | within _ found root made => { root, instantiations := made } :: found
  | supplying _ found root made target _ supplies _ =>
    { root, instantiations := { target, supplies } :: made } :: found

/-- The uses so far. -/
def uses (st : Stage) : List Use := st.blocks.flatMap Block.uses

/-- Supplying a slot adds one use. -/
theorem mem_uses_supplying {w w' : Walk} {found : List Block} {root target : VariableId}
    {made : List Instantiation} {n : NodeId} {supplies : List Supply} {s : Supply}
    {rest rest' : List Edge} {u : Use} :
    u ∈ (supplying w' found root made target n (supplies ++ [s]) rest').uses ↔
      u = ⟨root, target, s⟩ ∨ u ∈ (supplying w found root made target n supplies rest).uses := by
  simp only [uses, blocks, Block.uses, List.flatMap_cons, List.map_append, List.map_cons,
    List.map_nil, List.mem_append, List.mem_singleton]
  tauto

theorem instantiations_eq (st : Stage) : st.instantiations = st.blocks.flatMap (·.instantiations) := by
  cases st <;> rfl

/-- The uses are what was handed out. -/
theorem mem_handed_iff {x : VariableId × Supply} :
    x ∈ st.handed ↔ ∃ u ∈ st.uses, (u.target, u.supply) = x := by
  rw [handed, instantiations_eq, Instantiation.handed, uses]
  simp only [List.mem_flatMap, List.mem_map]
  constructor
  · rintro ⟨i, ⟨b, b_mem, i_mem⟩, s, s_mem, rfl⟩
    exact ⟨⟨b.root, i.target, s⟩, ⟨b, b_mem, Block.mem_uses.mpr ⟨rfl, i, i_mem, rfl, s_mem⟩⟩, rfl⟩
  · rintro ⟨u, ⟨b, b_mem, mem⟩, rfl⟩
    obtain ⟨-, i, i_mem, target, s_mem⟩ := Block.mem_uses.mp mem
    exact ⟨i, ⟨b, b_mem, i_mem⟩, u.supply, s_mem, by rw [target]⟩

/-! ## The use that a variable was made for -/

/-- The variable is the one of the root, or was made for a use that asks for a block. -/
def Opens (g : Graph) (a : Arena) (top : VariableId) (st : Stage) (v : VariableId) : Prop :=
  v = top ∨ ∃ u ∈ st.uses, u.supply.var = v ∧ u.placement g a = .block

/-- The variable is the root of the block, or was made for a use in the block. -/
def Fills (g : Graph) (a : Arena) (st : Stage) (root v : VariableId) : Prop :=
  v = root ∨ ∃ u ∈ st.uses, u.block = root ∧ u.supply.var = v ∧ u.placement g a = .inline

/-- What opened a block did so, whatever is used later. -/
theorem Opens.mono {top v : VariableId} (opens : st.Opens g a top v)
    (more : ∀ u ∈ st.uses, u ∈ st'.uses) : st'.Opens g a top v :=
  opens.imp_right fun ⟨u, mem, rest⟩ => ⟨u, more u mem, rest⟩

theorem Fills.mono {root v : VariableId} (fills : st.Fills g a root v)
    (more : ∀ u ∈ st.uses, u ∈ st'.uses) : st'.Fills g a root v :=
  fills.imp_right fun ⟨u, mem, rest⟩ => ⟨u, more u mem, rest⟩

/-- Where the variables of a stage come from, as told by a later arena. -/
structure Origins (g : Graph) (a : Arena) (top : VariableId) (st : Stage) : Prop where
  /-- A use fills a slot of its node. -/
  edge : ∀ u ∈ st.uses, ∃ e ∈ g.dependencies (a.var u.target).node,
    (a.node g u.supply.var).key = (g.node e.source).key ∧
      (a.Inside g u.supply.var → (a.var u.supply.var).node = e.source)
  /-- What is handed out is new. -/
  newer : ∀ u ∈ st.uses, a.Inside g u.supply.var → u.target < u.supply.var ∧ top < u.supply.var
  /-- So it is handed out once. -/
  once : ∀ u ∈ st.uses, ∀ u' ∈ st.uses, a.Inside g u.supply.var → u.supply.var = u'.supply.var →
    u = u'
  pending : ∀ v ∈ st.walk.pending, st.Opens g a top v
  opens : ∀ b ∈ st.blocks, st.Opens g a top b.root
  line : ∀ r, st.block? = some r → r ∈ st.line ∧ ∀ v ∈ st.line, st.Fills g a r v
  fills : ∀ b ∈ st.found, (∃ i ∈ b.instantiations, i.target = b.root) ∧
    ∀ i ∈ b.instantiations, st.Fills g a b.root i.target

/-! ### Steps -/

section Supplied

variable {root target : VariableId} {n : NodeId} {e : Edge} {p : Placed} {s : Supply}

variable (uniform : g.Uniform) (sound : Sound g before st)
  (supplied : Supplied g before st st' root target n e p s) (grows : st'.arena.Extends a)
include uniform sound supplied grows

/-- What is supplied comes from outside if the source of the edge does. -/
theorem Supplied.inside_iff :
    a.Inside g s.var ↔ (g.node e.source).isOutside = false := by
  rw [Arena.Inside, grows.node_eq supplied.var_lt, supplied.isOutside_eq uniform sound]

theorem Supplied.use_isDeferred :
    (⟨root, target, s⟩ : Use).isDeferred g a = Walk.isDeferredUse g (g.node n) e := by
  have lt := sound.consistent.due_lt target (mem_due_of_current supplied.current)
  rw [Use.isDeferred, grows.node_eq supplied.var_lt, supplied.isOutside_eq uniform sound,
    grows.node_eq (Nat.lt_of_lt_of_le lt supplied.grown.size_le), supplied.node_target sound]
  rfl

theorem Supplied.use_placement : (⟨root, target, s⟩ : Use).placement g a =
    Walk.placementFor g root (Walk.isDeferredUse g (g.node n) e) e := by
  rw [Use.placement, supplied.use_isDeferred uniform sound grows, Walk.placementFor]
  refine congrArg (ite _ _) ?_
  cases outside : (g.node e.source).isOutside with
  | false => rw [grows.node supplied.var_lt, supplied.node_var outside]
  | true =>
    have outside' : (g.node (a.var s.var).node).isOutside = true := by
      rw [← Arena.node, grows.node_eq supplied.var_lt, supplied.isOutside_eq uniform sound, outside]
    rw [Placed.placementOf, if_pos outside', Placed.placementOf, if_pos outside]

/-- What is put on a stack for a use is put where the use asks for it. -/
theorem Supplied.placement_eq (placed : p.placement ≠ .reference) :
    p.placement = (⟨root, target, s⟩ : Use).placement g a := by
  rw [supplied.use_placement uniform sound grows]
  rcases supplied.finds uniform sound with ⟨_, -, reuses⟩ | ⟨-, makes⟩
  · exact (placed reuses.placed).elim
  · exact makes.placed

end Supplied

/-- What is placed inline waits in the line of the current block. -/
theorem line_supplying {w w' : Walk} {found : List Block} {root target : VariableId}
    {made : List Instantiation} {n : NodeId} {supplies supplies' : List Supply}
    {rest rest' : List Edge} {p : Placed} {v : VariableId}
    (targets : w'.targets = if p.placement = .inline then p.var :: w.targets else w.targets) :
    v ∈ (supplying w' found root made target n supplies' rest').line ↔
      p.placement = .inline ∧ v = p.var ∨
        v ∈ (supplying w found root made target n supplies rest).line := by
  simp only [line, targets]
  split
  · rename_i inline
    simp only [List.mem_append, List.mem_cons, inline, true_and]
    tauto
  · rename_i other
    simp only [other, false_and, false_or]

/-- Supplying one edge keeps track of where instances are placed ... -/
theorem Origins.supply (uniform : g.Uniform) {top : VariableId} {w : Walk} {found : List Block}
    {root target : VariableId} {made : List Instantiation} {n : NodeId} {supplies : List Supply}
    {e : Edge} {rest : List Edge}
    (sound : Sound g before (supplying w found root made target n supplies (e :: rest)))
    (top_lt : top < w.arena.vars.size)
    (origins : Origins g a top (supplying w found root made target n supplies (e :: rest)))
    (grows : (w.supply g root (g.node n) e).2.arena.Extends a) :
    Origins g a top (supplying (w.supply g root (g.node n) e).2 found root made target n
      (supplies ++ [(w.supply g root (g.node n) e).1]) rest) := by
  have supplied := sound.supplied uniform
  set s := (w.supply g root (g.node n) e).1
  set w' := (w.supply g root (g.node n) e).2
  set p := w.place g root (Walk.isDeferredUse g (g.node n) e) e
  set st := supplying w found root made target n supplies (e :: rest)
  set st' := supplying w' found root made target n (supplies ++ [s]) rest
  have inside_iff : a.Inside g s.var ↔ _ := supplied.inside_iff uniform sound grows
  have target_lt : target < w.arena.vars.size :=
    sound.consistent.due_lt target (mem_due_of_current supplied.current)
  have mem_uses (u : Use) : u ∈ st'.uses ↔ u = ⟨root, target, s⟩ ∨ u ∈ st.uses :=
    mem_uses_supplying
  have more : ∀ u ∈ st.uses, u ∈ st'.uses := fun u mem => (mem_uses u).mpr (.inr mem)
  have new : (⟨root, target, s⟩ : Use) ∈ st'.uses := (mem_uses _).mpr (.inl rfl)
  -- what was handed out before is older than what is handed out now
  have fresh {u : Use} (mem : u ∈ st.uses) (inside : a.Inside g s.var) :
      u.supply.var ≠ s.var := by
    have lt : u.supply.var < w.arena.vars.size :=
      (sound.provided _ (mem_handed_iff.mpr ⟨u, mem, rfl⟩)).1
    have eq : s.var = w.arena.vars.size := supplied.var_eq (inside_iff.mp inside)
    exact Nat.ne_of_lt (eq ▸ lt)
  have placement (placed : p.placement ≠ .reference) :
      p.placement = (⟨root, target, s⟩ : Use).placement g a :=
    supplied.placement_eq uniform sound grows placed
  have var : s.var = p.var := supplied.effect.var
  constructor
  case edge =>
    intro u mem
    rcases (mem_uses _).mp mem with rfl | mem
    · have node : (a.var target).node = n := by
        have grown : w.arena.Extends a := Extends.trans supplied.grown grows
        rw [grown.node target_lt]
        exact sound.current target n rfl
      have fills : s.Fills g a e := supplied.fills rfl rfl grows
      exact ⟨e, node ▸ supplied.edge sound, fills.key,
        fun inside => fills.node (inside_iff.mp inside)⟩
    · exact origins.edge u mem
  case newer =>
    intro u mem inside
    rcases (mem_uses _).mp mem with rfl | mem
    · have eq : s.var = w.arena.vars.size := supplied.var_eq (inside_iff.mp inside)
      show target < s.var ∧ top < s.var
      rw [eq]
      exact ⟨target_lt, top_lt⟩
    · exact origins.newer u mem inside
  case once =>
    intro u mem u' mem' inside same
    rcases (mem_uses _).mp mem with rfl | mem <;>
      rcases (mem_uses _).mp mem' with rfl | mem'
    · rfl
    · exact (fresh mem' inside same.symm).elim
    · exact (fresh mem (by rw [Arena.Inside, ← same]; exact inside) same).elim
    · exact origins.once u mem u' mem' inside same
  case pending =>
    intro v waits
    have pending : w'.pending = _ := Walk.supply_pending g root (g.node n) w e
    have waits : v ∈ w'.pending := waits
    rw [pending] at waits
    split at waits
    · rename_i block
      rcases List.mem_cons.mp waits with rfl | waits
      · exact .inr ⟨_, new, var, (placement (by rw [block]; decide)).symm.trans block⟩
      · exact (origins.pending v waits).mono more
    · exact (origins.pending v waits).mono more
  case opens =>
    intro b mem
    rcases List.mem_cons.mp mem with rfl | mem
    · exact (origins.opens _ List.mem_cons_self).mono more
    · exact (origins.opens b (List.mem_cons_of_mem _ mem)).mono more
  case line =>
    rintro r ⟨⟩
    have targets : w'.targets = if p.placement = .inline then p.var :: w.targets else w.targets :=
      supplied.effect.targets
    obtain ⟨rooted, fills⟩ := origins.line root rfl
    refine ⟨(line_supplying targets).mpr (.inr rooted), fun v mem => ?_⟩
    rcases (line_supplying targets).mp mem with ⟨inline, rfl⟩ | mem
    · exact .inr ⟨_, new, rfl, var, (placement (by rw [inline]; decide)).symm.trans inline⟩
    · exact (fills v mem).mono more
  case fills =>
    intro b mem
    obtain ⟨rooted, fills⟩ := origins.fills b mem
    exact ⟨rooted, fun i i_mem => (fills i i_mem).mono more⟩

/-- ... and so does every step of a walk. -/
theorem Step.origins (uniform : g.Uniform) {top : VariableId} (sound : Sound g before st)
    (top_lt : top < st.arena.vars.size) (origins : Origins g a top st)
    (grows : st'.arena.Extends a) (step : Step g st st') : Origins g a top st' := by
  cases step with
  | openBlock w found root pending next idle =>
    have waits : ∀ v ∈ root :: pending, Opens g a top (between w found) v := next ▸ origins.pending
    exact { origins with
      pending := fun v mem => waits v (List.mem_cons_of_mem root mem)
      opens := by
        intro b mem
        rcases List.mem_cons.mp mem with rfl | mem
        · exact waits root List.mem_cons_self
        · exact origins.opens b mem
      line := by
        rintro r ⟨⟩
        exact ⟨List.mem_cons_self, fun v mem => .inl (List.mem_singleton.mp mem)⟩ }
  | closeBlock w found root made idle =>
    obtain ⟨rooted, fills⟩ := origins.line root rfl
    simp only [line, idle, List.append_nil, List.mem_reverse, List.mem_map] at rooted fills
    exact { origins with
      line := by rintro r ⟨⟩
      fills := by
        intro b mem
        rcases List.mem_cons.mp mem with rfl | mem
        · exact ⟨rooted, fun i i_mem => fills i.target ⟨i, i_mem, rfl⟩⟩
        · exact origins.fills b mem }
  | take w found root made target targets next =>
    have same : ∀ u, u ∈ (supplying { w with targets } found root made target
        (w.arena.var target).node [] (g.dependencies (w.arena.var target).node)).uses ↔
        u ∈ (within w found root made).uses := fun u => by
      simp [uses, blocks, Block.uses]
    have more := fun u => (same u).mpr
    exact {
      edge := fun u mem => origins.edge u ((same u).mp mem)
      newer := fun u mem => origins.newer u ((same u).mp mem)
      once := fun u mem u' mem' => origins.once u ((same u).mp mem) u' ((same u').mp mem')
      pending := fun v mem => (origins.pending v mem).mono more
      opens := by
        intro b mem
        rcases List.mem_cons.mp mem with rfl | mem
        · exact (origins.opens _ List.mem_cons_self).mono more
        · exact (origins.opens b (List.mem_cons_of_mem _ mem)).mono more
      line := by
        rintro r ⟨⟩
        obtain ⟨rooted, fills⟩ := origins.line root rfl
        rw [line, next] at rooted fills
        exact ⟨rooted, fun v mem => (fills v mem).mono more⟩
      fills := fun b mem => (origins.fills b mem).imp_right fun fills i i_mem =>
        (fills i i_mem).mono more }
  | finish w found root made target n supplies =>
    exact { origins with
      line := by
        rintro r ⟨⟩
        have same : (within w found root ({ target, supplies } :: made)).line =
            (supplying w found root made target n supplies []).line := by
          simp [line]
        rw [same]
        exact origins.line root rfl }
  | supply w found root made target n supplies e rest =>
    exact origins.supply uniform sound top_lt grows

/-- In a walk that ends in the arena `a` or before it, all variables come from uses, if those at its
    start do. -/
theorem Run.origins (uniform : g.Uniform) {top : VariableId} (sound : Sound g before st)
    (top_lt : top < st.arena.vars.size) (origins : Origins g a top st)
    (run : Run g st st') (grows : st'.arena.Extends a) : Origins g a top st' := by
  induction run with
  | refl => exact origins
  | tail earlier step ih =>
    have grown := Run.extends (.single step)
    exact step.origins uniform (Run.sound uniform sound earlier)
      (Nat.lt_of_lt_of_le top_lt (Run.extends earlier).size_le) (ih (grown.trans grows)) grows

end Stage

end ObjectGraph
