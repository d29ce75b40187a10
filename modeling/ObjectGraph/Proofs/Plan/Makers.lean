import ObjectGraph.Proofs.Plan.Dependency
import ObjectGraph.Proofs.Plan.Mirror

/-
  Which block makes what an instantiation is handed.

  The table of makers is searched for the storage of a variable, which is one hop away, while the
  value that it stands for is at the end of its links.  `Stage.Near` is why that makes no difference:
  what a root makes is kept where its link leads, and what it hands out leads to something unlinked
  or to a variable that it makes.  So the block found is the one that makes the value
  (`Tour.Traced.lookup_makers`).

  That is a matter of which variables share their storages.  So blocks that mirror each other are put
  into one order (`Tour.Mirrors.inOrder`).
-/

namespace ObjectGraph

open Arena

variable {g h : Graph} {a before : Arena} {due : List VariableId}

/-! ## Hops -/

/-- A variable placed by lifetime refers to what holds its own value, if to anything. -/
theorem Placed.Outcome.link_var {n : NodeId} {q : Request} {p : Placed} {u : Nat}
    (outcome : Placed.Outcome g a n q p) (c : Consistent g before due a)
    (lt : p.var < p.arena.vars.size) (leads : (p.arena.var p.var).link = some u) :
    (p.arena.var u).link = none := by
  cases outside : (g.node n).isOutside with
  | false => exact outcome.link_new c (Nat.le_of_eq (outcome.var_eq outside).symm) lt leads
  | true =>
    -- a value from outside is kept by its own variable, be that an old one or a new one
    have unlinked {s : VariableId} (found : a.lookup (.binding (g.node n).key) = some s) :
        (a.var s).link = none := (c.stored _ s found).link
    cases outcome with
    | refer _ _ _ _ inside => cases outside.symm.trans inside
    | there found => exact absurd (unlinked found) (by rw [leads]; nofun)
    | again found =>
      rw [(sameValues_setCreated a _ true).link, unlinked found] at leads
      cases leads
    | remake _ inside => cases outside.symm.trans inside
    | stock _ _ _ launches =>
      rw [launches.var] at lt leads
      exact absurd leads (by
        rw [launches.same.link, show ((((a.allocate n q none).2.store _ a.vars.size)).var
          a.vars.size).link = none from congrArg Variable.link (var_allocate_self a n q none)]
        nofun)
    | fresh unshared => rw [Node.isShared, outside] at unshared; cases unshared

namespace Stage

variable {st st' : Stage} {root target : VariableId} {n : NodeId} {e : Edge} {p : Placed} {s : Supply}

/-- What a root makes refers to a storage at most, and so does what it hands out, or else to something
    that it makes. -/
structure Near (st : Stage) : Prop where
  due : ∀ v ∈ st.due, ∀ u, (st.arena.var v).link = some u → (st.arena.var u).link = none
  handed : ∀ x ∈ st.handed, ∀ u, (st.arena.var x.2.var).link = some u →
    (st.arena.var u).link = none ∨ u ∈ st.due

/-- What is handed out refers to a storage, or to a variable that deferred uses share. -/
theorem Supplied.link_var (sound : Sound g before st)
    (supplied : Supplied g before st st' root target n e p s) {u : Nat}
    (leads : (st'.arena.var s.var).link = some u) :
    (st'.arena.var u).link = none ∨ p.placement = .reference ∧ u ∈ st.due := by
  have same := supplied.same
  have lt := supplied.serves.provided.1
  rw [supplied.effect.var, same.link] at leads
  rw [same.link]
  have placed := supplied.placed
  obtain ⟨-, existing, found, refers⟩ | ⟨-, p', outcome, placed'⟩ := Walk.place_cases g root
    (Walk.isDeferredUse g (g.node n) e) st.walk e
  · rw [placed, refers] at leads ⊢
    cases (congrArg Variable.link (var_allocate_self st.walk.arena _ _ _)).symm.trans leads
    exact .inr ⟨rfl, (sound.shared e.source u found).2.1⟩
  · obtain ⟨-, eq⟩ | ⟨-, -, eq⟩ := placed'
    · rw [placed, eq] at leads lt ⊢
      exact .inl (outcome.link_var sound.consistent lt leads)
    · rw [placed, eq] at leads lt ⊢
      have marked := sameValues_setBlockRoot p'.arena p'.var
      rw [marked.link] at leads
      rw [marked.size_eq] at lt
      exact .inl ((marked.link u).trans (outcome.link_var sound.consistent lt leads))

theorem Near.supplied (sound : Sound g before st) (near : st.Near)
    (supplied : Supplied g before st st' root target n e p s) : st'.Near := by
  have grown := supplied.grown
  have linked := sound.consistent.linked
  have kept {v u : Nat} (lt : v < st.arena.vars.size) (leads : (st'.arena.var v).link = some u) :
      (st.arena.var v).link = some u ∧ (st'.arena.var u).link = (st.arena.var u).link := by
    rw [grown.link lt] at leads
    exact ⟨leads, grown.link (Nat.lt_trans (linked.link_lt v lt u leads) lt)⟩
  constructor
  · intro v mem u leads
    rcases supplied.due_cases mem with ⟨rfl, placed⟩ | mem
    · exact (supplied.link_var sound leads).resolve_right fun made => placed made.1
    · obtain ⟨leads, same⟩ := kept (sound.consistent.due_lt v mem) leads
      rw [same]
      exact near.due v mem u leads
  · intro x mem u leads
    rcases (supplied.handed x).mp mem with rfl | mem
    · exact (supplied.link_var sound leads).imp_right fun made => supplied.mem_due made.2
    · obtain ⟨leads, same⟩ := kept (sound.handed_lt mem).2 leads
      rw [same]
      exact (near.handed x mem u leads).imp_right supplied.mem_due

theorem Near.step (uniform : g.Uniform) (sound : Sound g before st) (near : st.Near)
    (step : Step g st st') : st'.Near := by
  obtain passes | ⟨_, _, _, _, _, _, supplied⟩ := step.supplied uniform sound
  · have arena : st'.arena = st.arena := passes.arena
    refine ⟨fun v mem => ?_, fun x mem u leads => ?_⟩
    · rw [arena]
      exact near.due v (passes.due.mem_iff.mpr mem)
    · rw [arena] at leads ⊢
      rw [passes.handed] at mem
      exact (near.handed x mem u leads).imp_right passes.due.mem_iff.mp
  · exact near.supplied sound supplied

theorem Near.run (uniform : g.Uniform) (sound : Sound g before st) (near : st.Near)
    (run : Run g st st') : st'.Near := by
  induction run with
  | refl => exact near
  | tail earlier step ih => exact ih.step uniform (Run.sound uniform sound earlier) step

end Stage

/-! ## The maker of what is handed out -/

theorem Arena.Linked.terminal_storage (linked : a.Linked) {v : Nat} (lt : v < a.vars.size) :
    a.terminal (a.storage v) = a.terminal v := by
  cases link : (a.var v).link with
  | none => rw [linked.storage_of_none lt link]
  | some u => rw [storage_of_some link, linked.terminal_of_some lt link]

theorem Arena.Linked.terminal_terminal (linked : a.Linked) {v : Nat} (lt : v < a.vars.size) :
    a.terminal (a.terminal v) = a.terminal v :=
  linked.terminal_of_none (Nat.lt_of_le_of_lt (linked.terminal_le v lt) lt) (linked.link_terminal v lt)

/-- A variable whose link leads to a storage is one hop away from it. -/
theorem Arena.Linked.storage_eq (linked : a.Linked) {v : Nat} (lt : v < a.vars.size)
    (direct : ∀ u : Nat, (a.var v).link = some u → (a.var u).link = none) :
    a.storage v = a.terminal v := by
  cases link : (a.var v).link with
  | none => rw [linked.storage_of_none lt link, linked.terminal_of_none lt link]
  | some u =>
    have u_lt : u < a.vars.size := Nat.lt_trans (linked.link_lt v lt u link) lt
    rw [storage_of_some link, linked.terminal_of_some lt link,
      linked.terminal_of_none u_lt (direct u link)]

namespace Tour.Traced

variable {t : Tour} {first last : Walk} {i : Instantiation} {s : Supply} {index : Nat}

theorem near (uniform : g.Uniform) (traced : t.Traced g before first last) :
    (Stage.between last t.blocks.reverse).Near := by
  obtain ⟨p, outcome, serves, -, same, due⟩ := traced.placed
  refine Stage.Near.run uniform traced.sound ⟨fun v mem u leads => ?_, nofun⟩ traced.run
  rw [due, List.mem_singleton] at mem
  subst mem
  have arena : (Stage.between first []).arena = first.arena := rfl
  rw [arena, same.link] at leads ⊢
  exact outcome.link_var traced.rested.1 serves.provided.1 leads

/-- What is made is kept where its link leads. -/
theorem storage_target (uniform : g.Uniform) (traced : t.Traced g before first last)
    (mem : i ∈ t.plan.instantiations) : t.arena.storage i.target = t.arena.terminal i.target := by
  have near := traced.near uniform
  have c := (traced.leg_sound uniform).consistent
  have made : i.target ∈ t.plan.targets := List.mem_map_of_mem mem
  refine c.linked.storage_eq (c.due_lt _ made) fun u leads => ?_
  rw [← traced.arena_eq] at leads ⊢
  exact near.due _ (traced.due_perm.mem_iff.mpr made) u leads

/-- What is handed out is kept where its link leads, or its link leads to something that is made. -/
theorem storage_supply (uniform : g.Uniform) (traced : t.Traced g before first last)
    (mem : i ∈ t.plan.instantiations) (mem' : s ∈ i.supplies) :
    t.arena.storage s.var = t.arena.terminal s.var ∨ t.arena.storage s.var ∈ t.plan.targets := by
  have near := traced.near uniform
  have sound := traced.leg_sound uniform
  have handed : (i.target, s) ∈ (Stage.between last t.blocks.reverse).handed :=
    traced.handed_perm.mem_iff.mpr (List.mem_flatMap.mpr ⟨i, mem, List.mem_map_of_mem mem'⟩)
  by_cases made : t.arena.storage s.var ∈ t.plan.targets
  · exact .inr made
  · refine .inl (sound.consistent.linked.storage_eq (sound.provided i mem s mem').1
      fun u leads => ?_)
    rw [storage_of_some leads] at made
    rw [← traced.arena_eq] at leads ⊢
    exact (near.handed _ handed u leads).resolve_right fun due =>
      made (traced.due_perm.mem_iff.mp due)

/-- What one value is made by stands in one block. -/
theorem index_unique (uniform : g.Uniform) (traced : t.Traced g before first last) {index' : Nat}
    {m m' : Instantiation} (mem : m ∈ Block.instantiationsAt t.blocks index)
    (mem' : m' ∈ Block.instantiationsAt t.blocks index')
    (same : t.arena.terminal m.target = t.arena.terminal m'.target) : index = index' := by
  obtain ⟨index_mem, m_mem⟩ := Leg.mem_plan (l := ⟨before, t⟩) mem
  obtain ⟨index_mem', m'_mem⟩ := Leg.mem_plan (l := ⟨before, t⟩) mem'
  have once := (traced.leg_sound uniform).consistent.due_nodup
  have target : m.target = m'.target := List.inj_on_of_nodup_map once
    (List.mem_map_of_mem m_mem) (List.mem_map_of_mem m'_mem) same
  have nodup := List.Nodup.of_map _ once
  rw [Leg.targets_eq (l := ⟨before, t⟩)] at nodup
  exact Precedes.flatMap_unique nodup index_mem index_mem' (List.mem_map_of_mem mem)
    (target ▸ List.mem_map_of_mem mem')

/-- The table of makers names the block that makes what is handed out. -/
theorem lookup_makers (uniform : g.Uniform) (traced : t.Traced g before first last)
    (mem : i ∈ t.plan.instantiations) (mem' : s ∈ i.supplies) :
    (Block.makers t.arena t.blocks).lookup (t.arena.storage s.var) = some index ↔
      ∃ m ∈ Block.instantiationsAt t.blocks index,
        t.arena.terminal m.target = t.arena.terminal s.var := by
  have sound := traced.leg_sound uniform
  have c := sound.consistent
  have linked := c.linked
  have s_lt := (sound.provided i mem s mem').1
  have sound_of {index : Nat}
      (found : (Block.makers t.arena t.blocks).lookup (t.arena.storage s.var) = some index) :
      ∃ m ∈ Block.instantiationsAt t.blocks index,
        t.arena.terminal m.target = t.arena.terminal s.var := by
    obtain ⟨b, known, m, m_mem, either⟩ := Block.makers_sound found
    have m_at : m ∈ Block.instantiationsAt t.blocks index := by
      rw [Block.instantiationsAt, known]
      exact m_mem
    have m_lt := c.due_lt _ (List.mem_map_of_mem (Leg.mem_plan (l := ⟨before, t⟩) m_at).2)
    refine ⟨m, m_at, ?_⟩
    rw [← linked.terminal_storage s_lt]
    rcases either with eq | eq <;> rw [eq]
    exact (linked.terminal_storage m_lt).symm
  refine ⟨sound_of, ?_⟩
  rintro ⟨m, m_mem, same⟩
  -- some block is known for the storage, and it can only be the one that makes it
  obtain ⟨k, found⟩ : ∃ k,
      (Block.makers t.arena t.blocks).lookup (t.arena.storage s.var) = some k := by
    have known {m : Instantiation} (m_mem : m ∈ t.plan.instantiations) : ∃ b ∈ t.blocks,
        m ∈ b.instantiations := by
      obtain ⟨b, b_mem, m_mem⟩ := List.mem_flatMap.mp m_mem
      exact ⟨b, Block.inOrder_perm.mem_iff.mp b_mem, m_mem⟩
    rcases traced.storage_supply uniform mem mem' with direct | made
    · obtain ⟨-, m_plan⟩ := Leg.mem_plan (l := ⟨before, t⟩) m_mem
      obtain ⟨b, b_mem, m_mem⟩ := known m_plan
      refine Block.makers_complete b_mem m_mem (.inr ?_)
      rw [direct, ← same, traced.storage_target uniform m_plan]
    · obtain ⟨m', m'_plan, target⟩ := List.mem_map.mp made
      obtain ⟨b, b_mem, m'_mem⟩ := known m'_plan
      exact Block.makers_complete b_mem m'_mem (.inl target.symm)
  obtain ⟨m', m'_mem, same'⟩ := sound_of found
  rw [found, traced.index_unique uniform m'_mem m_mem (same'.trans same.symm)]

theorem mem_plan_of_block (t : Tour) {b : Block} (b_mem : b ∈ t.blocks)
    (mem : i ∈ b.instantiations) : i ∈ t.plan.instantiations :=
  List.mem_flatMap.mpr ⟨b, Block.inOrder_perm.mem_iff.mpr b_mem, mem⟩

end Tour.Traced

/-! ## The order of blocks that mirror each other -/

/-- What a block requires, told by the makers of what its instantiations are handed. -/
theorem Block.requires_eq (a : Arena) (makers : Block.Makers) (index : Nat) (b : Block) :
    Block.requires a makers index b = ((((b.instantiations.map fun i => i.supplies.map fun s =>
      makers.lookup (a.storage s.var)).flatten).filterMap id).filter (· ≠ index)).eraseDups := by
  simp only [Block.requires, List.flatMap, List.filterMap_flatten, List.map_map,
    Function.comp_def, List.filterMap_map, id]

namespace Tour.Mirrors

variable {R : NodeId → NodeId → Prop} {m : Pairing} {before before' : Arena} {t t' : Tour}
  {first last first' last' : Walk}

/-- Blocks at one index make what stands for each other. -/
theorem exists_at (mirrors : t.Mirrors g h R m t') {index : Nat} {i : Instantiation}
    (mem : i ∈ Block.instantiationsAt t.blocks index) :
    ∃ i' ∈ Block.instantiationsAt t'.blocks index, m i.target i'.target := by
  have alike := rel_getElem? mirrors.blocks index
  unfold Block.instantiationsAt at mem ⊢
  cases found : t.blocks[index]? with
  | none =>
    rw [found] at mem
    cases mem
  | some b =>
    obtain ⟨b', found', alike⟩ := exists_of_rel_some alike found
    rw [found] at mem
    rw [found']
    obtain ⟨i', mem', alike⟩ := forall₂_left alike.instantiations mem
    exact ⟨i', mem', alike.target⟩

theorem flip (mirrors : t.Mirrors g h R m t') :
    t'.Mirrors h g (fun j i => R i j) (fun y x => m x y) t where
  blocks := by
    have supplies {as bs : List Supply} (all : List.Forall₂ (Supply.Alike m) as bs) :
        List.Forall₂ (Supply.Alike fun y x => m x y) bs as :=
      (List.Forall₂.flip all).imp fun _ _ alike =>
        ⟨alike.slot.symm, alike.request.symm, alike.var⟩
    have instantiations {as bs : List Instantiation}
        (all : List.Forall₂ (Instantiation.Alike m) as bs) :
        List.Forall₂ (Instantiation.Alike fun y x => m x y) bs as :=
      (List.Forall₂.flip all).imp fun _ _ alike => ⟨alike.target, supplies alike.supplies⟩
    exact (List.Forall₂.flip mirrors.blocks).imp fun _ _ alike =>
      ⟨alike.root, instantiations alike.instantiations, alike.steps.symm⟩
  stands pair := (mirrors.stands pair).symm
  ends pair pair' := (mirrors.ends pair pair').symm

variable (uniform : g.Uniform) (uniform' : h.Uniform) (traced : t.Traced g before first last)
  (traced' : t'.Traced h before' first' last') (mirrors : t.Mirrors g h R m t')
include uniform uniform' traced traced' mirrors

/-- What stands for each other is made in blocks at the same index. -/
theorem lookup_makers {i i' : Instantiation} {s s' : Supply} (mem : i ∈ t.plan.instantiations)
    (s_mem : s ∈ i.supplies) (mem' : i' ∈ t'.plan.instantiations) (s_mem' : s' ∈ i'.supplies)
    (pair : m s.var s'.var) : (Block.makers t.arena t.blocks).lookup (t.arena.storage s.var) =
      (Block.makers t'.arena t'.blocks).lookup (t'.arena.storage s'.var) := by
  refine Option.ext fun index => ?_
  rw [traced.lookup_makers uniform mem s_mem, traced'.lookup_makers uniform' mem' s_mem']
  constructor
  · rintro ⟨k, k_mem, same⟩
    obtain ⟨k', k_mem', paired⟩ := mirrors.exists_at k_mem
    exact ⟨k', k_mem', (mirrors.ends paired pair).mp same⟩
  · rintro ⟨k', k_mem', same⟩
    obtain ⟨k, k_mem, paired⟩ := mirrors.flip.exists_at k_mem'
    exact ⟨k, k_mem, (mirrors.ends paired pair).mpr same⟩

theorem requirements_eq :
    Block.requirements t.arena t.blocks = Block.requirements t'.arena t'.blocks := by
  refine congrArg List.toArray (List.ext_getElem? fun index => ?_)
  rw [List.getElem?_mapIdx, List.getElem?_mapIdx]
  have alike := rel_getElem? mirrors.blocks index
  cases found : t.blocks[index]? with
  | none =>
    rw [found] at alike
    cases found' : t'.blocks[index]? with
    | none => rfl
    | some b' => rw [found'] at alike; cases alike
  | some b =>
    obtain ⟨b', found', alike⟩ := exists_of_rel_some alike found
    rw [found', Option.map_some, Option.map_some, Block.requires_eq, Block.requires_eq,
      map_eq_of_rel alike.instantiations fun i mem i' mem' pair =>
        map_eq_of_rel pair.supplies fun s s_mem s' s_mem' paired =>
          lookup_makers uniform uniform' traced traced' mirrors
            (Tour.Traced.mem_plan_of_block t (List.mem_of_getElem? found) mem) s_mem
            (Tour.Traced.mem_plan_of_block t' (List.mem_of_getElem? found') mem') s_mem' paired.var]

/-- Blocks that mirror each other are put into one order. -/
theorem plan_blocks : List.Forall₂ (Block.Alike m) t.plan.blocks t'.plan.blocks := by
  have ordered : (Block.search t.arena t.blocks).ordered =
      (Block.search t'.arena t'.blocks).ordered := by
    rw [Block.search, Block.search, mirrors.requirements_eq uniform uniform' traced traced',
      mirrors.blocks.length_eq]
  have plan : t.plan.blocks =
      (Block.search t.arena t.blocks).ordered.reverse.filterMap (t.blocks.toArray[·]?) := rfl
  have plan' : t'.plan.blocks =
      (Block.search t'.arena t'.blocks).ordered.reverse.filterMap (t'.blocks.toArray[·]?) := rfl
  rw [plan, plan', ordered]
  have each : Relator.LiftFun Eq (Option.Rel (Block.Alike m)) (fun i : Nat => t.blocks.toArray[i]?)
      (fun i : Nat => t'.blocks.toArray[i]?) := by
    rintro index _ rfl
    dsimp only
    rw [List.getElem?_toArray, List.getElem?_toArray]
    exact rel_getElem? mirrors.blocks index
  exact List.rel_filterMap each (List.forall₂_same.mpr fun _ _ => rfl)

end Tour.Mirrors

end ObjectGraph
