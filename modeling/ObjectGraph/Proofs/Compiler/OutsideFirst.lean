import ObjectGraph.Proofs.Compiler.Skipping
import ObjectGraph.Proofs.Plan.Dependency
import ObjectGraph.Proofs.Plan.Joining
import ObjectGraph.Proofs.Plan.Outside

/-
  When values from outside are there before they are used.

  A value from outside has one variable in a composition, and each plan that uses it takes it over
  once.  Where that is done is decided by the use that the walk comes across first: the value is made
  in the block of that use, right in front of it.  There are two ways in which another use can come
  before that, and `outsideFirst_iff` shows that there is no other.

    * Inside a block.  The block makes what is below an earlier slot, or in another branch, further to
      the front, where the value is not there yet.  Only what is below later slots of the first user
      is made behind the value (`Block.TakesFirst`).
    * Between blocks.  The block that happens to make the value may require the one that uses it
      (`Tour.CirclesOutside`).
-/

namespace ObjectGraph

open Arena

variable {g : Graph} {a : Arena} {legs : List Leg} {l : Leg} {b : Block} {i j m : Instantiation}
  {t v : VariableId}

/-! ## Values from outside that come first -/

/-- The instantiation is handed the variable. -/
def Instantiation.Takes (i : Instantiation) (v : VariableId) : Prop := ∃ s ∈ i.supplies, s.var = v

instance : Decidable (i.Takes v) := inferInstanceAs (Decidable (∃ s ∈ i.supplies, s.var = v))

/-- A value from outside has one variable in all plans, and a plan that hands it out makes it once. -/
structure Composition.OutsideOnce (x : Composition) : Prop where
  unique : ∀ v w : Nat, v < x.arena.vars.size → w < x.arena.vars.size →
    ¬ x.arena.Inside x.graph v →
    (x.arena.node x.graph v).key = (x.arena.node x.graph w).key → v = w
  once : ∀ p ∈ x.plans, ∀ i ∈ p.instantiations, ∀ s ∈ i.supplies, ¬ x.arena.Inside x.graph s.var →
    p.instantiations.countP (fun m => m.target == s.var) = 1

/-- What makes a value from outside stands before all that is handed the value. -/
def Plan.OutsideFirst (p : Plan) (g : Graph) (a : Arena) : Prop :=
  ∀ i ∈ p.instantiations, ∀ s ∈ i.supplies, ¬ a.Inside g s.var →
    Precedes p.targets s.var i.target

instance (p : Plan) : Decidable (p.OutsideFirst g a) :=
  inferInstanceAs (Decidable (∀ i ∈ p.instantiations, ∀ s ∈ i.supplies,
    ¬ (a.node g s.var).isOutside = false → Precedes p.targets s.var i.target))

/-- In the block, `i` takes up the value from outside `t` for all: whatever else is handed it is below
    a later slot of `i`. -/
def Block.TakesUp (g : Graph) (a : Arena) (b : Block) (t : VariableId) (i : Instantiation) : Prop :=
  i ∈ b.instantiations ∧ i.Takes t ∧ ∀ j ∈ b.instantiations, j.Takes t →
    j.target = i.target ∨ ∃ v, Precedes (i.supplies.map (·.var)) t v ∧ a.Inside g v ∧
      Forest.Above (Instantiation.forest g a b.instantiations) v j.target

/-- Each value from outside that the block makes and uses is taken up for all. -/
def Block.TakesFirst (g : Graph) (a : Arena) (b : Block) : Prop :=
  ∀ m ∈ b.instantiations, ¬ a.Inside g m.target →
    (∃ i ∈ b.instantiations, i.Takes m.target) → ∃ i, b.TakesUp g a m.target i

/-- A block `u` uses a value from outside that another block `v` makes, but `v` requires `u` in turn,
    by way of blocks that the search reached no earlier than `v`. -/
def Tour.CirclesOutside (g : Graph) (t : Tour) : Prop :=
  ∃ u v, u ≠ v ∧
    (∃ i ∈ Block.instantiationsAt t.blocks u, ∃ m ∈ Block.instantiationsAt t.blocks v,
      ¬ t.arena.Inside g m.target ∧ i.Takes m.target) ∧
    Relation.ReflTransGen (fun x y => y ∈ (Block.requirements t.arena t.blocks).getD x [] ∧
      ¬ Precedes (Block.search t.arena t.blocks).reached.reverse y v) v u

/-! ## Inside a block -/

/-- A block in which all is in turn, as told by a later arena. -/
structure Block.InLine (g : Graph) (a : Arena) (b : Block) : Prop where
  nodup : (b.instantiations.map (·.target)).Nodup
  giver : ∀ i ∈ b.instantiations, ∀ s ∈ i.supplies, a.Inside g i.target
  inTurn : b.InTurn g a
  joined : Instantiation.Joined g a b.instantiations (b.instantiations.map (·.target)).reverse

namespace Block.InLine

theorem mem_line (i_mem : i ∈ b.instantiations) :
    i.target ∈ (b.instantiations.map (·.target)).reverse :=
  List.mem_reverse.mpr (List.mem_map_of_mem i_mem)

variable (lined : b.InLine g a)
include lined

theorem eq_of_target (i_mem : i ∈ b.instantiations) (j_mem : j ∈ b.instantiations)
    (same : i.target = j.target) : i = j :=
  List.inj_on_of_nodup_map lined.nodup i_mem j_mem same

theorem inside (i_mem : i ∈ b.instantiations) (takes : i.Takes t) : a.Inside g i.target := by
  obtain ⟨s, s_mem, -⟩ := takes
  exact lined.giver i i_mem s s_mem

/-- A value from outside that is used has joined the line behind one that takes it. -/
theorem exists_first (m_mem : m ∈ b.instantiations) (outside : ¬ a.Inside g m.target)
    (i_mem : i ∈ b.instantiations) (takes : i.Takes m.target) :
    ∃ c ∈ b.instantiations, c.Takes m.target ∧
      Forest.Joins (a.Inside g) (Instantiation.slots b.instantiations)
        (Instantiation.forest g a b.instantiations)
        (b.instantiations.map (·.target)).reverse m.target c.target := by
  obtain alone | ⟨c, joins⟩ := lined.joined m.target (mem_line m_mem) outside
  · have i_line := mem_line i_mem
    rw [alone, List.mem_singleton] at i_line
    exact (outside (i_line ▸ lined.inside i_mem takes)).elim
  · obtain ⟨c, c_mem, rfl, takes⟩ := Instantiation.hands_slots_iff.mp joins.hands
    exact ⟨c, c_mem, takes, joins⟩

/-- The one that takes up the value for all is the first one that the walk came across. -/
theorem eq_first (takesUp : b.TakesUp g a t i) (j_mem : j ∈ b.instantiations) (takes : j.Takes t)
    (joins : Forest.Joins (a.Inside g) (Instantiation.slots b.instantiations)
      (Instantiation.forest g a b.instantiations) (b.instantiations.map (·.target)).reverse t
      j.target) : i = j := by
  obtain ⟨i_mem, i_takes, all⟩ := takesUp
  obtain same | ⟨v, later, inside, above⟩ := all j j_mem takes
  · exact lined.eq_of_target i_mem j_mem same.symm
  · by_contra ne
    have ne : i.target ≠ j.target := fun same => ne (lined.eq_of_target i_mem j_mem same)
    have hands : Forest.Hands (Instantiation.forest g a b.instantiations) i.target v :=
      ⟨_, List.mem_map_of_mem i_mem, List.mem_filter.mpr
        ⟨later.right_mem, by rw [Arena.Inside] at inside; simp [inside]⟩⟩
    refine joins.first i.target (Instantiation.hands_slots_iff.mpr ⟨i, i_mem, rfl, i_takes⟩) ?_
    exact (lined.inTurn _ (mem_line i_mem) _ (mem_line j_mem) ne
      (lined.inside i_mem i_takes) (lined.inside j_mem takes)).mpr (.inl (.head hands above))

/-- The values from outside that a block makes come first exactly if each is taken up for all. -/
theorem takesFirst_iff : b.TakesFirst g a ↔ ∀ m ∈ b.instantiations, ¬ a.Inside g m.target →
    ∀ i ∈ b.instantiations, i.Takes m.target →
      Precedes (b.instantiations.map (·.target)) m.target i.target := by
  constructor
  · intro takesFirst m m_mem outside i i_mem takes
    obtain ⟨c, takesUp⟩ := takesFirst m m_mem outside ⟨i, i_mem, takes⟩
    obtain ⟨c', c'_mem, c'_takes, joins⟩ := lined.exists_first m_mem outside i_mem takes
    obtain rfl := lined.eq_first takesUp c'_mem c'_takes joins
    rw [← Precedes.reverse_iff, joins.precedes_iff _ (mem_line i_mem)
      (lined.inside i_mem takes)]
    refine .inr ((takesUp.2.2 i i_mem takes).imp_right ?_)
    exact fun ⟨v, later, rest⟩ => ⟨v, ⟨_, List.mem_map_of_mem c'_mem, later⟩, rest⟩
  · rintro ordered m m_mem outside ⟨i, i_mem, takes⟩
    obtain ⟨c, c_mem, c_takes, joins⟩ := lined.exists_first m_mem outside i_mem takes
    refine ⟨c, c_mem, c_takes, fun j j_mem j_takes => ?_⟩
    have first := ordered m m_mem outside j j_mem j_takes
    rw [← Precedes.reverse_iff, joins.precedes_iff _ (mem_line j_mem)
      (lined.inside j_mem j_takes)] at first
    obtain earlier | same | ⟨v, ⟨ws, mem, later⟩, rest⟩ := first
    · exact (joins.first j.target
        (Instantiation.hands_slots_iff.mpr ⟨j, j_mem, rfl, j_takes⟩) earlier).elim
    · exact .inl same
    · obtain ⟨c', c'_mem, eq⟩ := List.mem_map.mp mem
      obtain ⟨same, rfl⟩ := Prod.mk.inj eq
      cases lined.eq_of_target c'_mem c_mem same
      exact .inr ⟨v, later, rest⟩

end Block.InLine

/-! ## The blocks of a plan -/

namespace Graph.Toured

variable (uniform : g.Uniform) (toured : g.Toured legs a) (mem : l ∈ legs)
include uniform toured mem

theorem inLine (b_mem : b ∈ l.tour.blocks) : b.InLine g a := by
  obtain ⟨first, last, traced⟩ := toured.traced uniform mem
  have sound := toured.sound uniform mem
  have grows := toured.extends_of_mem uniform mem
  have c := sound.consistent
  have known {i : Instantiation} (i_mem : i ∈ b.instantiations) : i ∈ l.tour.plan.instantiations :=
    Tour.Traced.mem_plan_of_block l.tour b_mem i_mem
  have lt {i : Instantiation} (i_mem : i ∈ b.instantiations) : i.target < l.tour.arena.vars.size :=
    c.due_lt _ (List.mem_map_of_mem (known i_mem))
  obtain ⟨index, at_index⟩ := List.getElem?_of_mem b_mem
  constructor
  case nodup =>
    have nodup : l.tour.plan.targets.Nodup := List.Nodup.of_map _ c.due_nodup
    rw [Leg.targets_eq, List.nodup_flatMap] at nodup
    have index_mem : index ∈ l.order :=
      Leg.mem_order.mpr (List.getElem?_eq_some_iff.mp at_index).1
    have nodup := nodup.1 index index_mem
    rwa [Leg.targetsAt, Leg.instantiationsAt_eq at_index] at nodup
  case giver =>
    intro i i_mem s s_mem
    rw [Arena.Inside, grows.node_eq (lt i_mem)]
    exact sound.giver i (known i_mem) s s_mem
  case inTurn =>
    refine (traced.inTurn uniform b b_mem).of_extends grows (fun v v_mem => ?_) fun i i_mem s s_mem =>
      (sound.provided i (known i_mem) s s_mem).1
    obtain ⟨i, i_mem, rfl⟩ := List.mem_map.mp v_mem
    exact lt i_mem
  case joined => exact traced.joined uniform grows b_mem

/-- In other words, what is handed a value from outside stands behind what makes it. -/
theorem outsideFirst_iff_precedes : l.tour.plan.OutsideFirst g a ↔
    ∀ i ∈ l.tour.plan.instantiations, ∀ m ∈ l.tour.plan.instantiations,
      ¬ a.Inside g m.target → i.Takes m.target →
        Precedes l.tour.plan.targets m.target i.target := by
  constructor
  · rintro first i i_mem m m_mem outside ⟨s, s_mem, same⟩
    exact same ▸ first i i_mem s s_mem (same ▸ outside)
  · intro ordered i i_mem s s_mem outside
    obtain ⟨b, b_mem, i_mem'⟩ := List.mem_flatMap.mp i_mem
    have u_mem : (⟨b.root, i.target, s⟩ : Use) ∈ l.tour.plan.uses := List.mem_flatMap.mpr
      ⟨b, b_mem, Block.mem_uses.mpr ⟨rfl, i, i_mem', rfl, s_mem⟩⟩
    obtain ⟨m, m_mem, same⟩ := List.mem_map.mp (toured.outside_made uniform mem u_mem outside)
    have same : m.target = s.var := same
    exact same ▸ ordered i i_mem m m_mem (same ▸ outside) ⟨s, s_mem, same.symm⟩

/-- A block requires another one that makes a value from outside for it. -/
theorem precedes_other {u v : Nat} (ne : u ≠ v)
    (i_mem : i ∈ Block.instantiationsAt l.tour.blocks u)
    (m_mem : m ∈ Block.instantiationsAt l.tour.blocks v) (takes : i.Takes m.target) :
    Precedes l.tour.plan.targets m.target i.target ↔
      ¬ Relation.ReflTransGen
        (fun x y => y ∈ (Block.requirements l.tour.arena l.tour.blocks).getD x [] ∧
          ¬ Precedes (Block.search l.tour.arena l.tour.blocks).reached.reverse y v) v u := by
  obtain ⟨first, last, traced⟩ := toured.traced uniform mem
  have nodup := List.Nodup.of_map _ (toured.sound uniform mem).consistent.due_nodup
  obtain ⟨s, s_mem, same⟩ := takes
  refine Leg.precedes_of_required nodup ne i_mem m_mem
    (Block.mem_requirements.mpr ⟨ne.symm, i, i_mem, s, s_mem, ?_⟩)
  exact (traced.lookup_makers uniform (Leg.mem_plan i_mem).2 s_mem).mpr ⟨m, m_mem, by rw [same]⟩

/-- Values from outside come first in a plan exactly if each block takes them up for all and no blocks
    circle. -/
theorem plan_outsideFirst_iff : l.tour.plan.OutsideFirst g a ↔
    (∀ b ∈ l.tour.blocks, b.TakesFirst g a) ∧ ¬ l.tour.CirclesOutside g := by
  have grows := toured.extends_of_mem uniform mem
  have nodup : l.tour.plan.targets.Nodup :=
    List.Nodup.of_map _ (toured.sound uniform mem).consistent.due_nodup
  rw [toured.outsideFirst_iff_precedes uniform mem]
  have inside_iff {m : Instantiation} (m_mem : m ∈ l.tour.plan.instantiations) :
      a.Inside g m.target ↔ l.tour.arena.Inside g m.target := by
    have lt := (toured.sound uniform mem).consistent.due_lt _ (List.mem_map_of_mem m_mem)
    rw [Arena.Inside, Arena.Inside, grows.node_eq lt]
  -- within a block, the order of the plan is the one of the block
  have within {index : Nat} {b : Block} (known : l.tour.blocks[index]? = some b)
      {i m : Instantiation} (i_mem : i ∈ b.instantiations) (m_mem : m ∈ b.instantiations) :
      Precedes l.tour.plan.targets m.target i.target ↔
        Precedes (b.instantiations.map (·.target)) m.target i.target := by
    have index_mem : index ∈ l.order := Leg.mem_order.mpr (List.getElem?_eq_some_iff.mp known).1
    have targets : l.targetsAt index = b.instantiations.map (·.target) := by
      rw [Leg.targetsAt, Leg.instantiationsAt_eq known]
    rw [Leg.targets_eq] at nodup ⊢
    rw [Precedes.flatMap_same nodup l.order_nodup index_mem
      (targets ▸ List.mem_map_of_mem m_mem) (targets ▸ List.mem_map_of_mem i_mem), targets]
  constructor
  · intro ordered
    constructor
    · intro b b_mem
      obtain ⟨index, known⟩ := List.getElem?_of_mem b_mem
      refine (toured.inLine uniform mem b_mem).takesFirst_iff.mpr
        fun m m_mem outside i i_mem takes => ?_
      have plan {i : Instantiation} (i_mem : i ∈ b.instantiations) :=
        Tour.Traced.mem_plan_of_block l.tour b_mem i_mem
      exact (within known i_mem m_mem).mp (ordered i (plan i_mem) m (plan m_mem) outside takes)
    · rintro ⟨u, v, ne, ⟨i, i_mem, m, m_mem, outside, takes⟩, path⟩
      have m_plan := (Leg.mem_plan m_mem).2
      exact (toured.precedes_other uniform mem ne i_mem m_mem takes).mp
        (ordered i (Leg.mem_plan i_mem).2 m m_plan (mt (inside_iff m_plan).mp outside) takes) path
  · rintro ⟨takesFirst, noCircle⟩ i i_plan m m_plan outside takes
    obtain ⟨u, u_mem, i_mem⟩ := Leg.exists_index i_plan
    obtain ⟨v, v_mem, m_mem⟩ := Leg.exists_index m_plan
    by_cases eq : u = v
    · subst eq
      have known := List.getElem?_eq_getElem (Leg.mem_order.mp u_mem)
      have b_mem := List.getElem_mem (Leg.mem_order.mp u_mem)
      rw [Leg.instantiationsAt_eq known] at i_mem m_mem
      exact (within known i_mem m_mem).mpr ((toured.inLine uniform mem b_mem).takesFirst_iff.mp
        (takesFirst _ b_mem) m m_mem outside i i_mem takes)
    · refine (toured.precedes_other uniform mem eq i_mem m_mem takes).mpr fun path => ?_
      exact noCircle ⟨u, v, eq, ⟨i, i_mem, m, m_mem, mt (inside_iff m_plan).mpr outside, takes⟩,
        path⟩

end Graph.Toured

/-! ## A composition -/

namespace Compiler

variable {c : Compiler} {s : Setup} {cancellation : Cancellation} {turns : Nat} {report : Report}
  {x : Composition}

/-- The theorem for whatever a compiler made.  Values from outside are there once; and they are there
    first in those plans in whose tour each block takes them up for all and no blocks circle. -/
theorem outsideFirst_iff (ended : c.compile turns cancellation s = some report)
    (ok : report.result = .ok x) : x.OutsideOnce ∧
      ∃ tours, x.graph.tours x.graph.walkLimit {} x.graph.roots = some (tours, x.arena) ∧
        List.Forall₂ (fun p t => p.OutsideFirst x.graph x.arena ↔
          (∀ b ∈ t.blocks, b.TakesFirst x.graph x.arena) ∧ ¬ t.CirclesOutside x.graph)
          x.plans tours := by
  obtain ⟨merged, -, st, done, taken, xs, tours, composes⟩ := exists_composes ended ok
  have uniform := composes.resolved.uniform
  have exists_leg {t : Tour} (t_mem : t ∈ tours) : ∃ l ∈ x.graph.legsFrom {} tours, l.tour = t := by
    rw [← x.graph.tour_legsFrom (a := {}) tours] at t_mem
    exact List.mem_map.mp t_mem
  refine ⟨⟨fun v w v_lt w_lt => composes.legs.outside_unique uniform v_lt w_lt, ?_⟩,
    tours, composes.toured, ?_⟩
  · intro p p_mem i i_mem s s_mem outside
    rw [composes.plans] at p_mem
    obtain ⟨t, t_mem, rfl⟩ := List.mem_map.mp p_mem
    obtain ⟨l, l_mem, rfl⟩ := exists_leg t_mem
    rw [Plan.instantiations_annotate] at i_mem ⊢
    obtain ⟨u, u_mem, -, rfl⟩ := Plan.exists_use i_mem s_mem
    exact countP_eq_one (composes.legs.targets_nodup uniform l_mem)
      (composes.legs.outside_made uniform l_mem u_mem outside)
  · rw [composes.plans, List.forall₂_map_left_iff, List.forall₂_same]
    intro t t_mem
    obtain ⟨l, l_mem, rfl⟩ := exists_leg t_mem
    have exact := composes.legs.plan_outsideFirst_iff uniform l_mem
    unfold Plan.OutsideFirst Plan.targets at exact ⊢
    rwa [Plan.instantiations_annotate]

end Compiler

/-! ## Values from outside that come too late -/

/-- No value from outside that the block makes is handed to several of its instantiations. -/
def Block.UsesOnce (g : Graph) (a : Arena) (b : Block) : Prop :=
  ∀ m ∈ b.instantiations, ¬ a.Inside g m.target → ∀ i ∈ b.instantiations, i.Takes m.target →
    ∀ j ∈ b.instantiations, j.Takes m.target → j.target = i.target

instance : Decidable (b.UsesOnce g a) :=
  inferInstanceAs (Decidable (∀ m ∈ b.instantiations, ¬ (a.node g m.target).isOutside = false →
    ∀ i ∈ b.instantiations, i.Takes m.target →
      ∀ j ∈ b.instantiations, j.Takes m.target → j.target = i.target))

theorem Block.UsesOnce.takesFirst (once : b.UsesOnce g a) : b.TakesFirst g a := by
  rintro m m_mem outside ⟨i, i_mem, takes⟩
  exact ⟨i, i_mem, takes, fun j j_mem j_takes =>
    .inl (once m m_mem outside i i_mem takes j j_mem j_takes)⟩

/-- It takes two blocks to circle. -/
theorem Tour.not_circlesOutside {t : Tour} (few : t.blocks.length ≤ 1) : ¬ t.CirclesOutside g := by
  rintro ⟨u, v, ne, ⟨i, i_mem, m, m_mem, -⟩, -⟩
  have lt {index : Nat} {i : Instantiation} (mem : i ∈ Block.instantiationsAt t.blocks index) :
      index < t.blocks.length := by
    by_contra beyond
    rw [Block.instantiationsAt, List.getElem?_eq_none (Nat.le_of_not_lt beyond)] at mem
    cases mem
  have u_lt := lt i_mem
  have v_lt := lt m_mem
  omega

namespace Sample

/-- A value from outside that is needed below the first slot of the root and for the second one. -/
def late : Setup :=
  setup [
    outside "A",
    service "Y" ["A"] .transient,
    service "R" ["Y", "A"] .transient] ["R"]

/-- Two singletons that need a value from outside.  The one that is come across first makes it, and
    needs the other one. -/
def crossed : Setup :=
  setup [
    outside "A",
    service "S" ["A"] .singleton,
    service "X" ["A", "S"] .singleton,
    service "Y" ["X"] .transient,
    service "Z" ["S"] .transient,
    service "R" ["Y", "Z"] .transient] ["R"]

/-- Tells for each plan if values from outside come first, and for each tour if it passes a check. -/
def checked (check : Graph → Arena → Tour → Bool) (x : Composition) : List Bool × List Bool :=
  (x.plans.map fun p => decide (p.OutsideFirst x.graph x.arena),
    ((x.graph.tours x.graph.walkLimit {} x.graph.roots).elim [] (·.1)).map (check x.graph x.arena))

theorem late_checked :
    (compiled late).map (checked fun _ _ t => t.blocks.length == 1) = some ([false], [true]) := by
  decide +kernel

theorem crossed_checked :
    (compiled crossed).map (checked fun g a t => t.blocks.all fun b => decide (b.UsesOnce g a)) =
      some ([false], [true]) := by
  decide +kernel

/-- What such a run says about the one plan and its tour. -/
theorem exists_checked {s : Setup} {check : Graph → Arena → Tour → Bool}
    (run : (compiled s).map (checked check) = some ([false], [true])) :
    ∃ report x p, bare.compile 50 .never s = some report ∧ report.result = .ok x ∧ x.plans = [p] ∧
      ¬ p.OutsideFirst x.graph x.arena ∧
      ∀ tours, x.graph.tours x.graph.walkLimit {} x.graph.roots = some (tours, x.arena) →
        ∃ t, tours = [t] ∧ check x.graph x.arena t = true := by
  obtain ⟨x, found, results⟩ := Option.map_eq_some_iff.mp run
  obtain ⟨report, ended, ok⟩ := exists_report found
  obtain ⟨first, passes⟩ := Prod.mk.inj results
  obtain ⟨p, plans, first⟩ := List.map_eq_singleton_iff.mp first
  refine ⟨report, x, p, ended, ok, plans, of_decide_eq_false first, fun tours toured => ?_⟩
  rw [toured] at passes
  exact List.map_eq_singleton_iff.mp passes

end Sample

namespace Compiler

/-- So values from outside are not always there before they are used. -/
theorem outside_not_always_first :
    ¬ ∀ (c : Compiler) (s : Setup) (cancellation : Cancellation) (turns : Nat) (report : Report)
      (x : Composition), c.compile turns cancellation s = some report → report.result = .ok x →
      x.OutsideOnce ∧ ∀ p ∈ x.plans, p.OutsideFirst x.graph x.arena := by
  intro always
  obtain ⟨report, x, p, ended, ok, plans, late, -⟩ := Sample.exists_checked Sample.late_checked
  exact late ((always _ _ _ _ report x ended ok).2 p (plans ▸ List.mem_singleton_self p))

/-- In the first sample a block does not take up a value for all, in the second one blocks circle, and
    in both the other condition holds. -/
theorem takesFirst_late_circles_crossed :
    (∃ x tours, Sample.compiled Sample.late = some x ∧
      x.graph.tours x.graph.walkLimit {} x.graph.roots = some (tours, x.arena) ∧
      ∃ t ∈ tours, ¬ (∀ b ∈ t.blocks, b.TakesFirst x.graph x.arena) ∧
        ¬ t.CirclesOutside x.graph) ∧
    ∃ x tours, Sample.compiled Sample.crossed = some x ∧
      x.graph.tours x.graph.walkLimit {} x.graph.roots = some (tours, x.arena) ∧
      ∃ t ∈ tours, (∀ b ∈ t.blocks, b.TakesFirst x.graph x.arena) ∧
        t.CirclesOutside x.graph := by
  constructor
  · obtain ⟨report, x, p, ended, ok, plans, late, only⟩ :=
      Sample.exists_checked Sample.late_checked
    obtain ⟨-, tours, toured, each⟩ := outsideFirst_iff ended ok
    obtain ⟨t, rfl, single⟩ := only tours toured
    rw [plans] at each
    cases each with
    | cons exact =>
      have apart : ¬ t.CirclesOutside x.graph :=
        t.not_circlesOutside (Nat.le_of_eq (beq_iff_eq.mp single))
      refine ⟨x, [t], ?_, toured, t, List.mem_singleton_self t, fun first => ?_, apart⟩
      · rw [Sample.compiled, ended, Option.bind_some, ok]
        rfl
      · exact late (exact.mpr ⟨first, apart⟩)
  · obtain ⟨report, x, p, ended, ok, plans, late, only⟩ :=
      Sample.exists_checked Sample.crossed_checked
    obtain ⟨-, tours, toured, each⟩ := outsideFirst_iff ended ok
    obtain ⟨t, rfl, once⟩ := only tours toured
    rw [plans] at each
    cases each with
    | cons exact =>
      have first : ∀ b ∈ t.blocks, b.TakesFirst x.graph x.arena := fun b b_mem =>
        Block.UsesOnce.takesFirst (of_decide_eq_true (List.all_eq_true.mp once b b_mem))
      refine ⟨x, [t], ?_, toured, t, List.mem_singleton_self t, first, ?_⟩
      · rw [Sample.compiled, ended, Option.bind_some, ok]
        rfl
      · by_contra apart
        exact late (exact.mpr ⟨first, apart⟩)

end Compiler

end ObjectGraph
