import ObjectGraph.Proofs.Plan.Links
import ObjectGraph.Proofs.Plan.Targets

/-
  When a plan makes everything before it is handed out.

  For graphs without deferred factories a plan is meant to be dependency-first: whatever an
  instantiation is handed, values from outside apart, an earlier one makes.  There are two ways to
  miss this, and `dependencyFirst_iff` shows that there is no other.

    * Inside a block.  An instance of a resolution is made for the first use that the walk comes
      across, and a block takes up what is below later slots first.  A use below an earlier slot of
      the same block then gets a reference to what was taken up already (`Block.TooLate`).  The
      weight that is to prevent this is counted by node, while instances are shared by storage key,
      so the contracts of one binding have several nodes.
    * Between blocks.  A block also requires the block that happens to take up a value from outside
      that both use.  So requirements may run in a circle although the values do not, and the search
      then puts the block that it reached first behind the one that needs it (`Tour.Circles`).
-/

namespace ObjectGraph

open Arena

variable {g : Graph} {a a' before : Arena} {legs : List Leg} {l : Leg}

/-! ## Plans that are dependency-first -/

/-- For each variable that an instantiation is handed, values from outside apart, an earlier one of
    the plan makes its storage. -/
def Plan.DependencyFirst (p : Plan) (g : Graph) (a : Arena) : Prop :=
  ∀ before i after, p.instantiations = before ++ i :: after → ∀ s ∈ i.supplies,
    a.Inside g s.var → ∃ m ∈ before, a.storage m.target = a.storage s.var

/-- The check for it, which goes through the instantiations once.  `made` are the storages made so
    far. -/
def Instantiation.madeFirst (g : Graph) (a : Arena) :
    (made : List VariableId) → List Instantiation → Bool
  | _, [] => true
  | made, i :: rest =>
    i.supplies.all (fun s => (a.node g s.var).isOutside || made.contains (a.storage s.var)) &&
      madeFirst g a (a.storage i.target :: made) rest

theorem Instantiation.madeFirst_iff (is : List Instantiation) : ∀ made : List VariableId,
    madeFirst g a made is = true ↔ ∀ before i after, is = before ++ i :: after →
      ∀ s ∈ i.supplies, a.Inside g s.var →
        a.storage s.var ∈ made ∨ ∃ m ∈ before, a.storage m.target = a.storage s.var := by
  induction is with
  | nil =>
    intro made
    refine ⟨fun _ before i after split => ?_, fun _ => rfl⟩
    cases before <;> cases split
  | cons head rest ih =>
    intro made
    simp only [madeFirst, Bool.and_eq_true, List.all_eq_true, Bool.or_eq_true,
      List.contains_iff_mem, ih]
    constructor
    · rintro ⟨first, others⟩ before i after split s s_mem inside
      cases before with
      | nil =>
        cases split
        refine .inl ((first s s_mem).resolve_left ?_)
        rw [inside]
        exact Bool.false_ne_true
      | cons b before =>
        cases split
        rcases others before i after rfl s s_mem inside with mem | ⟨m, m_mem, same⟩
        · rcases List.mem_cons.mp mem with eq | mem
          · exact .inr ⟨head, List.mem_cons_self, eq.symm⟩
          · exact .inl mem
        · exact .inr ⟨m, List.mem_cons_of_mem head m_mem, same⟩
    · intro all
      refine ⟨fun s s_mem => ?_, fun before i after split s s_mem inside => ?_⟩
      · cases outside : (a.node g s.var).isOutside with
        | true => exact .inl rfl
        | false =>
          rcases all [] head rest rfl s s_mem outside with mem | ⟨m, m_mem, -⟩
          · exact .inr mem
          · cases m_mem
      · rcases all (head :: before) i after (by rw [split]; rfl) s s_mem inside with
          mem | ⟨m, m_mem, same⟩
        · exact .inl (List.mem_cons_of_mem _ mem)
        · rcases List.mem_cons.mp m_mem with rfl | m_mem
          · exact .inl (by rw [same]; exact List.mem_cons_self)
          · exact .inr ⟨m, m_mem, same⟩

instance (p : Plan) (g : Graph) (a : Arena) : Decidable (p.DependencyFirst g a) :=
  decidable_of_iff (Instantiation.madeFirst g a [] p.instantiations = true) <| by
    simp only [Instantiation.madeFirst_iff, List.not_mem_nil, false_or]
    rfl

/-- The instantiation `i` is handed what `m` makes. -/
def Instantiation.Uses (g : Graph) (a : Arena) (i m : Instantiation) : Prop :=
  ∃ s ∈ i.supplies, a.Inside g s.var ∧ a.storage m.target = a.storage s.var

instance (g : Graph) (a : Arena) (i m : Instantiation) : Decidable (i.Uses g a m) :=
  inferInstanceAs (Decidable (∃ s ∈ i.supplies, (a.node g s.var).isOutside = false ∧
    a.storage m.target = a.storage s.var))

/-- In the block, `i` is handed what `m` makes, but `i` is below `m` itself, or below an earlier
    slot than `m`. -/
def Block.TooLate (g : Graph) (a : Arena) (b : Block) : Prop :=
  ∃ i ∈ b.instantiations, ∃ m ∈ b.instantiations, i.Uses g a m ∧
    (Forest.Above (Instantiation.forest g a b.instantiations) m.target i.target ∨
      Forest.Later (Instantiation.forest g a b.instantiations) m.target i.target)

/-- A block `u` needs what another block `v` makes, but `v` requires `u` in turn, by way of blocks
    that the search reached no earlier than `v`. -/
def Tour.Circles (g : Graph) (t : Tour) : Prop :=
  ∃ u v, u ≠ v ∧
    (∃ i ∈ Block.instantiationsAt t.blocks u, ∃ m ∈ Block.instantiationsAt t.blocks v,
      i.Uses g t.arena m) ∧
    Relation.ReflTransGen (fun x y => y ∈ (Block.requirements t.arena t.blocks).getD x [] ∧
      ¬ Precedes (Block.search t.arena t.blocks).reached.reverse y v) v u

/-! ## Storages without deferred factories -/

/-- Without deferred factories nothing is handed on. -/
theorem Graph.Toured.not_rehands (uniform : g.Uniform) (toured : g.Toured legs a)
    (plain : ∀ n, n < g.nodes.size → (g.node n).isDeferred = false) (mem : l ∈ legs) :
    ¬ l.Rehands g := by
  rintro ⟨x, x_mem, y, -, rehand⟩
  have c := (toured.sound uniform mem).consistent
  obtain ⟨i, i_mem, x_mem⟩ := List.mem_flatMap.mp x_mem
  obtain ⟨s, -, rfl⟩ := List.mem_map.mp x_mem
  have deferred := rehand.deferred
  rw [Arena.node, plain _ (c.node_lt _ (c.due_lt _ (List.mem_map_of_mem i_mem)))] at deferred
  cases deferred

/-- So the storage of a variable is at the end of its links. -/
theorem Graph.Toured.storage_eq (uniform : g.Uniform) (toured : g.Toured legs a)
    (plain : ∀ n, n < g.nodes.size → (g.node n).isDeferred = false) (mem : l ∈ legs) {v : Nat}
    (lt : v < l.tour.arena.vars.size) : l.tour.arena.storage v = l.tour.arena.terminal v := by
  have grows := toured.extends_of_mem uniform mem
  have linked := (toured.rested uniform).1.linked
  have direct : ∀ v u : Nat, v < a.vars.size → (a.var v).link = some u → (a.var u).link = none :=
    fun v u lt leads => (toured.hop uniform lt leads).resolve_right
      fun ⟨l, mem, rehands⟩ => toured.not_rehands uniform plain mem rehands
  rw [← grows.storage lt, linked.storage_eq_terminal direct (Nat.lt_of_lt_of_le lt grows.size_le),
    grows.terminal_eq (toured.sound uniform mem).consistent.linked linked v lt]

/-! ## Where an instantiation stands -/

namespace Leg

variable {i : Instantiation}

/-- The variables that the block at an index makes. -/
def targetsAt (l : Leg) (index : Nat) : List VariableId :=
  (Block.instantiationsAt l.tour.blocks index).map (·.target)

/-- The indices of the blocks in the order of the plan. -/
def order (l : Leg) : List Nat := (Block.search l.tour.arena l.tour.blocks).ordered.reverse

theorem targets_eq (l : Leg) : l.tour.plan.targets = l.order.flatMap l.targetsAt := by
  rw [Plan.targets, Plan.instantiations, Tour.plan, Block.flatMap_inOrder, List.map_flatMap]
  rfl

theorem mem_order {index : Nat} : index ∈ l.order ↔ index < l.tour.blocks.length :=
  Block.search_perm.mem_iff.trans List.mem_range

theorem order_nodup (l : Leg) : l.order.Nodup :=
  Block.search_perm.nodup_iff.mpr List.nodup_range

theorem exists_index (mem : i ∈ l.tour.plan.instantiations) :
    ∃ index ∈ l.order, i ∈ Block.instantiationsAt l.tour.blocks index := by
  rw [Plan.instantiations, Tour.plan, Block.flatMap_inOrder] at mem
  exact List.mem_flatMap.mp mem

theorem mem_plan {index : Nat} (mem : i ∈ Block.instantiationsAt l.tour.blocks index) :
    index ∈ l.order ∧ i ∈ l.tour.plan.instantiations := by
  have known : index ∈ l.order := by
    rw [mem_order, ← Nat.not_le]
    intro le
    rw [Block.instantiationsAt, List.getElem?_eq_none le] at mem
    cases mem
  refine ⟨known, ?_⟩
  rw [Plan.instantiations, Tour.plan, Block.flatMap_inOrder]
  exact List.mem_flatMap.mpr ⟨index, known, mem⟩

theorem instantiationsAt_eq {b : Block} {index : Nat} (known : l.tour.blocks[index]? = some b) :
    Block.instantiationsAt l.tour.blocks index = b.instantiations := by
  rw [Block.instantiationsAt, known]
  rfl

/-- What a required block makes comes first, unless the block requires the other one in turn. -/
theorem precedes_of_required {m : Instantiation} (nodup : l.tour.plan.targets.Nodup) {u v : Nat}
    (ne : u ≠ v) (i_mem : i ∈ Block.instantiationsAt l.tour.blocks u)
    (m_mem : m ∈ Block.instantiationsAt l.tour.blocks v)
    (required : v ∈ (Block.requirements l.tour.arena l.tour.blocks).getD u []) :
    Precedes l.tour.plan.targets m.target i.target ↔
      ¬ Relation.ReflTransGen
        (fun x y => y ∈ (Block.requirements l.tour.arena l.tour.blocks).getD x [] ∧
          ¬ Precedes (Block.search l.tour.arena l.tour.blocks).reached.reverse y v) v u := by
  obtain ⟨u_mem, -⟩ := mem_plan i_mem
  obtain ⟨v_mem, -⟩ := mem_plan m_mem
  rw [targets_eq] at nodup ⊢
  rw [Precedes.flatMap_other nodup v_mem u_mem (Ne.symm ne) (List.mem_map_of_mem m_mem)
    (List.mem_map_of_mem i_mem)]
  exact Block.settled_precedes Block.requirements_inside (mem_order.mp u_mem) (mem_order.mp v_mem)
    ne required

end Leg

/-! ## The order of two instantiations -/

/-- A leg whose variables refer to their storages directly. -/
structure Leg.Direct (g : Graph) (l : Leg) : Prop where
  sound : l.Sound g
  storage : ∀ v : Nat, v < l.tour.arena.vars.size →
    l.tour.arena.storage v = l.tour.arena.terminal v
  inTurn : ∀ b ∈ l.tour.blocks, b.InTurn g l.tour.arena

namespace Leg.Direct

variable {i m m' : Instantiation} {s : Supply}

theorem target_lt (direct : l.Direct g) (mem : i ∈ l.tour.plan.instantiations) :
    i.target < l.tour.arena.vars.size :=
  direct.sound.consistent.due_lt _ (List.mem_map_of_mem mem)

theorem storage_storage (direct : l.Direct g) (mem : m ∈ l.tour.plan.instantiations) :
    l.tour.arena.storage (l.tour.arena.storage m.target) = l.tour.arena.storage m.target := by
  have lt := direct.target_lt mem
  have c := direct.sound.consistent
  rw [direct.storage _ lt]
  exact c.linked.storage_of_none (c.terminal_lt lt) (c.linked.link_terminal _ lt)

/-- Two instantiations do not make one storage. -/
theorem target_eq (direct : l.Direct g) (m_mem : m ∈ l.tour.plan.instantiations)
    (m'_mem : m' ∈ l.tour.plan.instantiations)
    (same : l.tour.arena.storage m.target = l.tour.arena.storage m'.target) :
    m.target = m'.target := by
  rw [direct.storage _ (direct.target_lt m_mem), direct.storage _ (direct.target_lt m'_mem)] at same
  exact List.inj_on_of_nodup_map direct.sound.consistent.due_nodup
    (List.mem_map_of_mem m_mem) (List.mem_map_of_mem m'_mem) same

theorem nodup (direct : l.Direct g) : l.tour.plan.targets.Nodup :=
  List.Nodup.of_map _ direct.sound.consistent.due_nodup

/-- What an instantiation is handed is made by one of the plan. -/
theorem exists_maker (direct : l.Direct g) (mem : i ∈ l.tour.plan.instantiations)
    (mem' : s ∈ i.supplies) : ∃ m ∈ l.tour.plan.instantiations,
      l.tour.arena.storage m.target = l.tour.arena.storage s.var := by
  obtain ⟨lt, made⟩ := direct.sound.provided i mem s mem'
  obtain ⟨t, t_mem, eq⟩ := List.mem_map.mp made
  obtain ⟨m, m_mem, rfl⟩ := List.mem_map.mp t_mem
  exact ⟨m, m_mem, by rw [direct.storage _ (direct.target_lt m_mem), direct.storage _ lt, eq]⟩

/-- A plan is dependency-first if each instantiation stands behind those that it uses. -/
theorem dependencyFirst_iff_precedes (direct : l.Direct g) :
    l.tour.plan.DependencyFirst g l.tour.arena ↔
      ∀ i ∈ l.tour.plan.instantiations, ∀ m ∈ l.tour.plan.instantiations,
        i.Uses g l.tour.arena m → Precedes l.tour.plan.targets m.target i.target := by
  have split_nodup {before after : List Instantiation} {i : Instantiation}
      (split : l.tour.plan.instantiations = before ++ i :: after) :
      l.tour.plan.targets = before.map (·.target) ++ i.target :: after.map (·.target) ∧
      (before.map (·.target) ++ i.target :: after.map (·.target)).Nodup := by
    have eq : l.tour.plan.targets = before.map (·.target) ++ i.target :: after.map (·.target) := by
      rw [Plan.targets, split, List.map_append, List.map_cons]
    exact ⟨eq, eq ▸ direct.nodup⟩
  constructor
  · intro first i i_mem m m_mem ⟨s, s_mem, inside, same⟩
    obtain ⟨before, after, split⟩ := List.append_of_mem i_mem
    obtain ⟨m', m'_mem, same'⟩ := first before i after split s s_mem inside
    have m'_plan : m' ∈ l.tour.plan.instantiations := by
      rw [split]
      exact List.mem_append_left _ m'_mem
    obtain ⟨eq, nodup⟩ := split_nodup split
    rw [direct.target_eq m_mem m'_plan (same.trans same'.symm), eq, Precedes.split_iff' nodup]
    exact List.mem_map_of_mem m'_mem
  · intro ordered before i after split s s_mem inside
    have i_mem : i ∈ l.tour.plan.instantiations := by
      rw [split]
      simp
    obtain ⟨m, m_mem, same⟩ := direct.exists_maker i_mem s_mem
    have first := ordered i i_mem m m_mem ⟨s, s_mem, inside, same⟩
    obtain ⟨eq, nodup⟩ := split_nodup split
    rw [eq, Precedes.split_iff' nodup] at first
    obtain ⟨m', m'_mem, target⟩ := List.mem_map.mp first
    exact ⟨m', m'_mem, by rw [target, same]⟩

/-- What is used and what uses it are both not from outside. -/
theorem inside_of_uses (direct : l.Direct g) (uniform : g.Uniform)
    (i_mem : i ∈ l.tour.plan.instantiations) (m_mem : m ∈ l.tour.plan.instantiations)
    (uses : i.Uses g l.tour.arena m) :
    l.tour.arena.Inside g m.target ∧ l.tour.arena.Inside g i.target := by
  obtain ⟨s, s_mem, inside, same⟩ := uses
  have c := direct.sound.consistent
  have m_lt := direct.target_lt m_mem
  have s_lt := (direct.sound.provided i i_mem s s_mem).1
  rw [direct.storage _ m_lt, direct.storage _ s_lt] at same
  have key := (c.key_terminal _ m_lt).symm.trans ((congrArg (fun v => (l.tour.arena.node g v).key)
    same).trans (c.key_terminal _ s_lt))
  have profile := uniform.profile_eq _ _ (c.node_lt _ m_lt) (c.node_lt _ s_lt) key
  exact ⟨(Node.isOutside_eq profile).trans inside, direct.sound.giver i i_mem s s_mem⟩

/-- Within one block, `i` stands behind what it uses unless it is too late for it. -/
theorem precedes_same (direct : l.Direct g) (uniform : g.Uniform) {index : Nat} {b : Block}
    (known : l.tour.blocks[index]? = some b) (i_mem : i ∈ b.instantiations)
    (m_mem : m ∈ b.instantiations) (uses : i.Uses g l.tour.arena m) :
    Precedes l.tour.plan.targets m.target i.target ↔
      ¬ (Forest.Above (Instantiation.forest g l.tour.arena b.instantiations) m.target i.target ∨
        Forest.Later (Instantiation.forest g l.tour.arena b.instantiations) m.target i.target) := by
  have at_eq := instantiationsAt_eq known
  obtain ⟨index_mem, i_plan⟩ := mem_plan (l := l) (by rw [at_eq]; exact i_mem)
  obtain ⟨-, m_plan⟩ := mem_plan (l := l) (by rw [at_eq]; exact m_mem)
  have i_at : i.target ∈ l.targetsAt index := by
    rw [targetsAt, at_eq]
    exact List.mem_map_of_mem i_mem
  have m_at : m.target ∈ l.targetsAt index := by
    rw [targetsAt, at_eq]
    exact List.mem_map_of_mem m_mem
  have nodup := direct.nodup
  rw [targets_eq] at nodup ⊢
  rw [Precedes.flatMap_same nodup l.order_nodup index_mem m_at i_at]
  obtain ⟨m_in, i_in⟩ := direct.inside_of_uses uniform i_plan m_plan uses
  have once : (l.targetsAt index).Nodup := by
    rw [List.nodup_flatMap] at nodup
    exact nodup.1 index index_mem
  by_cases eq : m.target = i.target
  · rw [eq]
    exact ⟨fun first => absurd first (first.asymm once), fun late => absurd (.inl .refl) late⟩
  · have inTurn := direct.inTurn b (List.mem_of_getElem? known) m.target
      (by rw [List.mem_reverse]; exact List.mem_map_of_mem m_mem) i.target
      (by rw [List.mem_reverse]; exact List.mem_map_of_mem i_mem) eq m_in i_in
    rw [← inTurn, Precedes.reverse_iff, targetsAt, at_eq]
    rw [targetsAt, at_eq] at once i_at m_at
    exact ⟨fun first => first.asymm once, fun late =>
      (Precedes.total eq m_at i_at).resolve_right late⟩

/-- The block that makes what another one uses is required by it. -/
theorem requires_of_uses (direct : l.Direct g) {u v : Nat} (ne : u ≠ v)
    (i_mem : i ∈ Block.instantiationsAt l.tour.blocks u)
    (m_mem : m ∈ Block.instantiationsAt l.tour.blocks v) (uses : i.Uses g l.tour.arena m) :
    v ∈ (Block.requirements l.tour.arena l.tour.blocks).getD u [] := by
  obtain ⟨s, s_mem, -, same⟩ := uses
  obtain ⟨v_mem, m_plan⟩ := mem_plan m_mem
  refine Block.mem_requirements.mpr ⟨ne.symm, i, i_mem, s, s_mem, ?_⟩
  -- some block is known for the storage
  obtain ⟨b, known, m_mem'⟩ : ∃ b, l.tour.blocks[v]? = some b ∧ m ∈ b.instantiations := by
    rw [Block.instantiationsAt] at m_mem
    cases known : l.tour.blocks[v]? with
    | none => rw [known] at m_mem; cases m_mem
    | some b => rw [known] at m_mem; exact ⟨b, rfl, m_mem⟩
  obtain ⟨index, found⟩ := Block.makers_complete (a := l.tour.arena)
    (List.mem_of_getElem? known) m_mem' (.inr rfl)
  rw [same] at found
  rw [found]
  -- and it can only be the one that makes it
  obtain ⟨b', known', m', m'_mem, either⟩ := Block.makers_sound found
  have m'_at : m' ∈ Block.instantiationsAt l.tour.blocks index := by
    rw [instantiationsAt_eq known']
    exact m'_mem
  obtain ⟨index_mem, m'_plan⟩ := mem_plan m'_at
  have eq : m'.target = m.target := by
    refine direct.target_eq m'_plan m_plan ?_
    rcases either with eq | eq
    · rw [← eq, ← same, direct.storage_storage m_plan]
    · rw [same, eq]
  have nodup := direct.nodup
  rw [targets_eq] at nodup
  have m'_at : m'.target ∈ l.targetsAt index := List.mem_map_of_mem m'_at
  have m_at : m.target ∈ l.targetsAt v := List.mem_map_of_mem m_mem
  rw [Precedes.flatMap_unique nodup index_mem v_mem m'_at (eq ▸ m_at)]

/-- Between two blocks, the order is the one in which the search puts them out. -/
theorem precedes_other (direct : l.Direct g) {u v : Nat} (ne : u ≠ v)
    (i_mem : i ∈ Block.instantiationsAt l.tour.blocks u)
    (m_mem : m ∈ Block.instantiationsAt l.tour.blocks v) (uses : i.Uses g l.tour.arena m) :
    Precedes l.tour.plan.targets m.target i.target ↔
      ¬ Relation.ReflTransGen
        (fun x y => y ∈ (Block.requirements l.tour.arena l.tour.blocks).getD x [] ∧
          ¬ Precedes (Block.search l.tour.arena l.tour.blocks).reached.reverse y v) v u :=
  precedes_of_required direct.nodup ne i_mem m_mem (direct.requires_of_uses ne i_mem m_mem uses)

/-- A plan is dependency-first exactly if no use comes too late within its block and no blocks
    circle. -/
theorem dependencyFirst_iff (direct : l.Direct g) (uniform : g.Uniform) :
    l.tour.plan.DependencyFirst g l.tour.arena ↔
      (∀ b ∈ l.tour.blocks, ¬ b.TooLate g l.tour.arena) ∧ ¬ l.tour.Circles g := by
  rw [direct.dependencyFirst_iff_precedes]
  constructor
  · intro ordered
    constructor
    · rintro b b_mem ⟨i, i_mem, m, m_mem, uses, late⟩
      obtain ⟨index, known⟩ := List.getElem?_of_mem b_mem
      have at_eq := instantiationsAt_eq known
      have i_plan := (mem_plan (l := l) (i := i) (by rw [at_eq]; exact i_mem)).2
      have m_plan := (mem_plan (l := l) (i := m) (by rw [at_eq]; exact m_mem)).2
      exact (direct.precedes_same uniform known i_mem m_mem uses).mp
        (ordered i i_plan m m_plan uses) late
    · rintro ⟨u, v, ne, ⟨i, i_mem, m, m_mem, uses⟩, path⟩
      exact (direct.precedes_other ne i_mem m_mem uses).mp
        (ordered i (mem_plan i_mem).2 m (mem_plan m_mem).2 uses) path
  · rintro ⟨inTime, noCircle⟩ i i_plan m m_plan uses
    obtain ⟨u, u_mem, i_mem⟩ := exists_index i_plan
    obtain ⟨v, v_mem, m_mem⟩ := exists_index m_plan
    by_cases eq : u = v
    · subst eq
      have known := List.getElem?_eq_getElem (mem_order.mp u_mem)
      rw [instantiationsAt_eq known] at i_mem m_mem
      refine (direct.precedes_same uniform known i_mem m_mem uses).mpr fun late => ?_
      exact inTime _ (List.getElem_mem _) ⟨i, i_mem, m, m_mem, uses, late⟩
    · refine (direct.precedes_other eq i_mem m_mem uses).mpr fun path => ?_
      exact noCircle ⟨u, v, eq, ⟨i, i_mem, m, m_mem, uses⟩, path⟩

end Leg.Direct

/-! ## Plans of visits -/

theorem Plan.dependencyFirst_extends {p : Plan} (grows : a.Extends a')
    (lt : ∀ i ∈ p.instantiations, i.target < a.vars.size ∧
      ∀ s ∈ i.supplies, s.var < a.vars.size) :
    p.DependencyFirst g a' ↔ p.DependencyFirst g a := by
  have same {before after : List Instantiation} {i : Instantiation}
      (split : p.instantiations = before ++ i :: after) {s : Supply} (s_mem : s ∈ i.supplies) :
      (a'.Inside g s.var ↔ a.Inside g s.var) ∧ a'.storage s.var = a.storage s.var ∧
        ∀ m ∈ before, a'.storage m.target = a.storage m.target := by
    have s_lt := (lt i (by rw [split]; simp)).2 s s_mem
    refine ⟨by rw [Arena.Inside, Arena.Inside, grows.node_eq s_lt], grows.storage s_lt,
      fun m m_mem => grows.storage (lt m ?_).1⟩
    rw [split]
    exact List.mem_append_left _ m_mem
  constructor
  · intro first before i after split s s_mem inside
    obtain ⟨inside_iff, storage, targets⟩ := same split s_mem
    obtain ⟨m, m_mem, eq⟩ := first before i after split s s_mem (inside_iff.mpr inside)
    exact ⟨m, m_mem, by rw [← targets m m_mem, ← storage, eq]⟩
  · intro first before i after split s s_mem inside
    obtain ⟨inside_iff, storage, targets⟩ := same split s_mem
    obtain ⟨m, m_mem, eq⟩ := first before i after split s s_mem (inside_iff.mp inside)
    exact ⟨m, m_mem, by rw [targets m m_mem, storage, eq]⟩

/-- For a graph without deferred factories and any visits over one arena: a plan is dependency-first
    exactly if no use comes too late within its block and no blocks circle. -/
theorem plan_dependencyFirst_iff (resolved : g.IsResolved)
    (plain : ∀ n, n < g.nodes.size → (g.node n).isDeferred = false) (visits : g.Visits legs a)
    (mem : l ∈ legs) :
    l.tour.plan.DependencyFirst g a ↔
      (∀ b ∈ l.tour.blocks, ¬ b.TooLate g l.tour.arena) ∧ ¬ l.tour.Circles g := by
  have uniform := resolved.uniform
  have toured := visits.toured
  obtain ⟨first, last, traced⟩ := toured.traced uniform mem
  have direct : l.Direct g := {
    sound := toured.sound uniform mem
    storage := fun v lt => toured.storage_eq uniform plain mem lt
    inTurn := traced.inTurn uniform }
  rw [← direct.dependencyFirst_iff uniform]
  exact Plan.dependencyFirst_extends (toured.extends_of_mem uniform mem) fun i i_mem =>
    ⟨direct.target_lt i_mem, fun s s_mem => (direct.sound.provided i i_mem s s_mem).1⟩

/-! ## Plans that are not dependency-first -/

/-- Two contracts of one class, requested below two slots of the root. -/
def Sample.contracts : Graph := Sample.graph <| Sample.setup [
  Sample.service "R" ["Y", "I"] .transient,
  Sample.service "Y" ["J"] .transient,
  Sample.bound ["I", "J"] "P" [] .perResolve] ["R"]

/-- Two singletons that share a value from outside, which is taken up below the later one. -/
def Sample.circle : Graph := Sample.graph <| Sample.setup [
  Sample.service "R" ["S", "X"] .transient,
  Sample.service "X" ["A", "S"] .singleton,
  Sample.service "S" ["A"] .singleton,
  Sample.outside "A"] ["R"]

/-- A visit of a graph finds what a check finds on its legs. -/
theorem Graph.visits_of_any {P : Leg → Arena → Prop} [∀ l a, Decidable (P l a)]
    (found : (g.visit false {}).any (fun v =>
      (g.legsOf false {}).any fun l => decide (P l v.arena)) = true) :
    ∃ legs a, g.Visits legs a ∧ ∃ l ∈ legs, P l a := by
  obtain ⟨v, ends, found⟩ := (Option.any_eq_true _ _).mp found
  obtain ⟨l, mem, found⟩ := List.any_eq_true.mp found
  exact ⟨_, _, .visit .start ends, l, mem, of_decide_eq_true found⟩

/-- The plan of the contracts is a single block, and is not dependency-first. -/
theorem Sample.visits_contracts : Sample.contracts.IsResolved ∧
    (∀ n, n < Sample.contracts.nodes.size → (Sample.contracts.node n).isDeferred = false) ∧
    ∃ legs a, Sample.contracts.Visits legs a ∧ ∃ l ∈ legs,
      ¬ l.tour.plan.DependencyFirst Sample.contracts a ∧ l.tour.blocks.length = 1 :=
  ⟨Sample.isResolved _ (by decide +kernel), by decide +kernel,
    Graph.visits_of_any (by decide +kernel)⟩

/-- In the plan of the circle nothing is used within the block that makes it, and it is not
    dependency-first either. -/
theorem Sample.visits_circle : Sample.circle.IsResolved ∧
    (∀ n, n < Sample.circle.nodes.size → (Sample.circle.node n).isDeferred = false) ∧
    ∃ legs a, Sample.circle.Visits legs a ∧ ∃ l ∈ legs,
      ¬ l.tour.plan.DependencyFirst Sample.circle a ∧
      ∀ b ∈ l.tour.blocks, ∀ i ∈ b.instantiations, ∀ m ∈ b.instantiations,
        ¬ i.Uses Sample.circle l.tour.arena m :=
  ⟨Sample.isResolved _ (by decide +kernel), by decide +kernel,
    Graph.visits_of_any (by decide +kernel)⟩

/-- So plans are not always dependency-first, although no factory is deferred. -/
theorem not_always_dependencyFirst :
    ¬ ∀ g legs a, Graph.IsResolved g →
      (∀ n, n < g.nodes.size → (g.node n).isDeferred = false) → g.Visits legs a →
      ∀ l ∈ legs, l.tour.plan.DependencyFirst g a := by
  intro always
  obtain ⟨resolved, plain, legs, a, visits, l, mem, fails, -⟩ := Sample.visits_contracts
  exact fails (always _ legs a resolved plain visits l mem)

/-- The contracts are used too late, and the blocks of the circle do circle: neither condition
    follows from the other. -/
theorem tooLate_contracts_circles_circle :
    (Sample.contracts.IsResolved ∧ ∃ legs a, Sample.contracts.Visits legs a ∧ ∃ l ∈ legs,
      (∃ b ∈ l.tour.blocks, b.TooLate Sample.contracts l.tour.arena) ∧
        ¬ l.tour.Circles Sample.contracts) ∧
    (Sample.circle.IsResolved ∧ ∃ legs a, Sample.circle.Visits legs a ∧ ∃ l ∈ legs,
      (∀ b ∈ l.tour.blocks, ¬ b.TooLate Sample.circle l.tour.arena) ∧
        l.tour.Circles Sample.circle) := by
  constructor
  · obtain ⟨resolved, plain, legs, a, visits, l, mem, fails, single⟩ := Sample.visits_contracts
    -- a circle needs two blocks
    have acyclic : ¬ l.tour.Circles Sample.contracts := by
      rintro ⟨u, v, ne, ⟨i, i_mem, m, m_mem, -⟩, -⟩
      have u_lt := Leg.mem_order.mp (Leg.mem_plan i_mem).1
      have v_lt := Leg.mem_order.mp (Leg.mem_plan m_mem).1
      omega
    refine ⟨resolved, legs, a, visits, l, mem, Classical.byContradiction fun none => ?_, acyclic⟩
    exact fails ((plan_dependencyFirst_iff resolved plain visits mem).mpr
      ⟨fun b b_mem late => none ⟨b, b_mem, late⟩, acyclic⟩)
  · obtain ⟨resolved, plain, legs, a, visits, l, mem, fails, apart⟩ := Sample.visits_circle
    have inTime : ∀ b ∈ l.tour.blocks, ¬ b.TooLate Sample.circle l.tour.arena :=
      fun b b_mem ⟨i, i_mem, m, m_mem, uses, _⟩ => apart b b_mem i i_mem m m_mem uses
    refine ⟨resolved, legs, a, visits, l, mem, inTime, Classical.byContradiction fun acyclic => ?_⟩
    exact fails ((plan_dependencyFirst_iff resolved plain visits mem).mpr ⟨inTime, acyclic⟩)

end ObjectGraph
