import ObjectGraph.Proofs.Plan.Answer

/-
  The blocks of a plan.

  Blocks wait on a stack, and the block that waits last is walked first.  So the order in which they
  are found says little, and the plan puts them in order anew: depth-first along requirements, from
  the block of the root on.  That this block comes last needs all others to be reached from it, also
  where requirements run in a circle.  The variable of a block is what makes this go through: a
  block was opened for a use in a block whose variable is older (`Graph.Toured.root_le`,
  `.reached`).

  Each block makes its own variable last, since nothing stands in front of it in the line of the
  block (`Stage.Headed`).
-/

namespace ObjectGraph

open Arena

variable {g : Graph} {a : Arena} {legs : List Leg} {l : Leg} {b b' m : Block} {i j : Instantiation}

/-! ## Uses and their blocks -/

theorem Plan.exists_use {p : Plan} {s : Supply} (mem : j ∈ p.instantiations)
    (s_mem : s ∈ j.supplies) : ∃ u ∈ p.uses, u.target = j.target ∧ u.supply = s := by
  obtain ⟨b, b_mem, mem⟩ := List.mem_flatMap.mp mem
  exact ⟨⟨b.root, j.target, s⟩, List.mem_flatMap.mpr ⟨b, b_mem,
    Block.mem_uses.mpr ⟨rfl, j, mem, rfl, s_mem⟩⟩, rfl, rfl⟩

theorem Plan.exists_block {p : Plan} {u : Use} (mem : u ∈ p.uses) : ∃ b ∈ p.blocks,
    u.block = b.root ∧ ∃ i ∈ b.instantiations, u.target = i.target ∧ u.supply ∈ i.supplies := by
  obtain ⟨b, b_mem, mem⟩ := List.mem_flatMap.mp mem
  exact ⟨b, b_mem, Block.mem_uses.mp mem⟩

/-- What opens a block is not from outside. -/
theorem Use.inside_of_placement {u : Use} (placed : u.placement g a = .block) :
    a.Inside g u.supply.var := by
  rw [Arena.Inside, ← Bool.not_eq_true]
  intro outside
  have inline : u.placement g a = .inline := by
    rw [placement, isDeferred, outside, Bool.not_true, Bool.and_false, if_neg Bool.false_ne_true]
    exact if_pos outside
  cases inline.symm.trans placed

namespace Graph.Toured

variable (uniform : g.Uniform) (toured : g.Toured legs a) (mem : l ∈ legs)
include uniform toured mem

theorem targets_nodup : l.tour.plan.targets.Nodup :=
  List.Nodup.of_map _ (toured.sound uniform mem).consistent.due_nodup

/-- Blocks that make one variable are one block. -/
theorem block_unique (b_mem : b ∈ l.tour.plan.blocks) (b'_mem : b' ∈ l.tour.plan.blocks)
    (i_mem : i ∈ b.instantiations) (j_mem : j ∈ b'.instantiations) (same : i.target = j.target) :
    b = b' := by
  have nodup := toured.targets_nodup uniform mem
  rw [Plan.targets, Plan.instantiations, List.map_flatMap] at nodup
  exact Precedes.flatMap_unique nodup b_mem b'_mem (List.mem_map_of_mem i_mem)
    (same ▸ List.mem_map_of_mem j_mem)

/-- What makes a variable that the block makes is in the block. -/
theorem mem_of_target (b_mem : b ∈ l.tour.plan.blocks) (i_mem : i ∈ b.instantiations)
    (j_mem : j ∈ l.tour.plan.instantiations) (same : j.target = i.target) :
    j ∈ b.instantiations := by
  obtain ⟨b', b'_mem, j_mem⟩ := List.mem_flatMap.mp j_mem
  rwa [toured.block_unique uniform mem b_mem b'_mem i_mem j_mem same.symm]

/-- What uses something is not from outside. -/
theorem inside_target {u : Use} (u_mem : u ∈ l.tour.plan.uses) : a.Inside g u.target := by
  obtain ⟨b, b_mem, -, i, i_mem, target, s_mem⟩ := Plan.exists_block u_mem
  have sound := toured.sound uniform mem
  have i_mem : i ∈ l.tour.plan.instantiations := List.mem_flatMap.mpr ⟨b, b_mem, i_mem⟩
  have lt := sound.consistent.due_lt _ (List.mem_map_of_mem i_mem)
  rw [target, Arena.Inside, (toured.extends_of_mem uniform mem).node_eq lt]
  exact sound.giver i i_mem _ s_mem

section Explained

variable {top : VariableId} {w : Walk} (explained : l.Explained g top w a)
include explained

theorem block_eq_of_root (b_mem : b ∈ l.tour.plan.blocks) (b'_mem : b' ∈ l.tour.plan.blocks)
    (same : b.root = b'.root) : b = b' := by
  obtain ⟨i, i_mem, root⟩ := (explained.fills b b_mem).1
  obtain ⟨j, j_mem, root'⟩ := (explained.fills b' b'_mem).1
  exact toured.block_unique uniform mem b_mem b'_mem i_mem j_mem
    (root.trans (same.trans root'.symm))

/-- The instantiation that a use belongs to is in the block of the use. -/
theorem exists_user (b_mem : b ∈ l.tour.plan.blocks) {u : Use} (u_mem : u ∈ l.tour.plan.uses)
    (block : u.block = b.root) : ∃ i ∈ b.instantiations, i.target = u.target := by
  obtain ⟨b', b'_mem, block', i, i_mem, target, -⟩ := Plan.exists_block u_mem
  cases toured.block_eq_of_root uniform mem explained b_mem b'_mem (block.symm.trans block')
  exact ⟨i, i_mem, target.symm⟩

/-- Values from outside apart, the variable of a block is the oldest one that it makes. -/
theorem root_le (b_mem : b ∈ l.tour.plan.blocks) (i_mem : i ∈ b.instantiations)
    (inside : a.Inside g i.target) : b.root ≤ i.target := by
  obtain ⟨v, target⟩ : ∃ v, i.target = v := ⟨_, rfl⟩
  induction v using Nat.strong_induction_on generalizing i with
  | _ v ih =>
    obtain eq | ⟨u, u_mem, block, var, -⟩ := (explained.fills b b_mem).2 i i_mem
    · exact Nat.le_of_eq eq.symm
    · -- it was made for an older variable of the block
      obtain ⟨j, j_mem, user⟩ := toured.exists_user uniform mem explained b_mem u_mem block
      have older : u.target < i.target := by
        rw [← var] at inside ⊢
        exact (explained.newer u u_mem inside).1
      rw [← user] at older
      exact Nat.le_of_lt (Nat.lt_of_le_of_lt (ih j.target (target ▸ older) j_mem
        (user ▸ toured.inside_target uniform mem u_mem) rfl) older)

end Explained

end Graph.Toured

/-! ## The variable of a block -/

namespace Stage

variable {st st' : Stage} {top : VariableId}

/-- Blocks make their variables last, and the first block is the one of `top`. -/
structure Headed (top : VariableId) (st : Stage) : Prop where
  found : ∀ b ∈ st.found, (b.instantiations.map (·.target)).getLast? = some b.root
  line : ∀ r, st.block? = some r → st.line.head? = some r
  first : (st.blocks.map (·.root)).getLast? = some top ∨
    st.blocks = [] ∧ st.walk.pending = [top]

theorem headed_start (p : Placed) : Headed p.var (between (.start p) []) :=
  ⟨nofun, nofun, .inr ⟨rfl, rfl⟩⟩

theorem Step.headed (headed : Headed top st) (step : Step g st st') : Headed top st' := by
  cases step with
  | openBlock w found root pending next idle =>
    refine ⟨headed.found, ?_, .inl ?_⟩
    · rintro r ⟨⟩
      rfl
    · rcases headed.first with first | ⟨none, waits⟩
      · show (root :: found.map (·.root)).getLast? = some top
        have first : (found.map (·.root)).getLast? = some top := first
        rw [List.getLast?_cons, first]
        rfl
      · have none : found = [] := none
        have waits : w.pending = [top] := waits
        rw [next] at waits
        cases waits
        rw [none]
        rfl
  | closeBlock w found root made idle =>
    refine ⟨fun b mem => ?_, fun r held => absurd held.symm (Option.some_ne_none r),
      headed.first.imp id fun none => absurd none.1 (List.cons_ne_nil _ _)⟩
    rcases List.mem_cons.mp mem with rfl | mem
    · have heads := headed.line root rfl
      rwa [line, idle, List.append_nil, List.head?_reverse] at heads
    · exact headed.found b mem
  | take w found root made target targets next =>
    refine ⟨headed.found, ?_, headed.first.imp id fun none => absurd none.1 (List.cons_ne_nil _ _)⟩
    rintro r ⟨⟩
    have heads := headed.line root rfl
    rwa [line, next] at heads
  | supply w found root made target n supplies e rest =>
    refine ⟨headed.found, ?_, headed.first.imp id fun none => absurd none.1 (List.cons_ne_nil _ _)⟩
    rintro r ⟨⟩
    have heads := headed.line root rfl
    rw [line, List.head?_append, List.head?_cons] at heads ⊢
    exact heads
  | finish w found root made target n supplies =>
    refine ⟨headed.found, ?_, headed.first.imp id fun none => absurd none.1 (List.cons_ne_nil _ _)⟩
    rintro r ⟨⟩
    have heads := headed.line root rfl
    rw [line] at heads
    rwa [line, List.map_cons, List.reverse_cons, List.append_assoc]

theorem Run.headed (headed : Headed top st) (run : Run g st st') : Headed top st' := by
  induction run with
  | refl => exact headed
  | tail _ step ih => exact step.headed ih

end Stage

theorem Graph.Toured.headed (uniform : g.Uniform) (toured : g.Toured legs a) (mem : l ∈ legs) :
    (∀ b ∈ l.tour.blocks, (b.instantiations.map (·.target)).getLast? = some b.root) ∧
      ∃ b, l.tour.blocks[0]? = some b ∧ b.root = l.tour.var := by
  obtain ⟨rested, known, limit, ends⟩ := toured.exists_tour uniform mem
  obtain ⟨last, traced⟩ := Graph.tour_traced_start rested uniform known ends
  rw [Graph.tour_var ends]
  obtain ⟨found, -, first⟩ := traced.run.headed (Stage.headed_start _)
  refine ⟨fun b b_mem => found b (List.mem_reverse.mpr b_mem), ?_⟩
  rcases first with first | ⟨-, waits⟩
  · rw [Stage.blocks, List.map_reverse, List.getLast?_reverse, List.head?_eq_getElem?,
      List.getElem?_map] at first
    exact Option.map_eq_some_iff.mp first
  · cases traced.pending.symm.trans waits

/-! ## The order of blocks -/

/-- An instantiation of the block is handed what another block makes. -/
def Block.RestsOn (a : Arena) (b m : Block) : Prop :=
  b ≠ m ∧ ∃ i ∈ b.instantiations, ∃ s ∈ i.supplies, ∃ j ∈ m.instantiations,
    a.terminal j.target = a.terminal s.var

instance (b m : Block) : Decidable (b.RestsOn a m) :=
  inferInstanceAs (Decidable (b ≠ m ∧ ∃ i ∈ b.instantiations, ∃ s ∈ i.supplies,
    ∃ j ∈ m.instantiations, a.terminal j.target = a.terminal s.var))

/-- The same among the blocks of a plan. -/
def Plan.Rests (a : Arena) (p : Plan) (b m : Block) : Prop :=
  b ∈ p.blocks ∧ m ∈ p.blocks ∧ b.RestsOn a m

/-- The shape of a plan whose blocks were found in the order `found`. -/
structure Plan.Shaped (a : Arena) (found : List Block) (p : Plan) : Prop where
  /-- It has the blocks that were found, and each of them makes another variable. -/
  perm : p.blocks.Perm found
  once : (p.blocks.map (·.root)).Nodup
  /-- A block makes its own variable last. -/
  rooted : ∀ b ∈ p.blocks, (b.instantiations.map (·.target)).getLast? = some b.root
  /-- The last block makes the variable of the root, and the others make what is handed out. -/
  last : ∃ front last, p.blocks = front ++ [last] ∧ last.root = p.var ∧
    ∀ b ∈ front, ∃ i ∈ p.instantiations, ∃ s ∈ i.supplies, s.var = b.root
  /-- Unless blocks rest on each other in a circle, each comes after those that it rests on. -/
  ordered : (∀ b, ¬ Relation.TransGen (p.Rests a) b b) →
    ∀ b m, p.Rests a b m → Precedes p.blocks m b

namespace Graph.Toured

variable (uniform : g.Uniform) (toured : g.Toured legs a) (mem : l ∈ legs)
include uniform toured mem

theorem roots_nodup : (l.tour.plan.blocks.map (·.root)).Nodup := by
  obtain ⟨w, explained⟩ := toured.explained uniform mem
  have nodup := toured.targets_nodup uniform mem
  rw [Plan.targets, Plan.instantiations, List.map_flatMap, List.nodup_flatMap] at nodup
  refine List.pairwise_map.mpr (nodup.2.imp_of_mem fun b_mem m_mem apart same => ?_)
  obtain ⟨i, i_mem, root⟩ := (explained.fills _ b_mem).1
  obtain ⟨j, j_mem, root'⟩ := (explained.fills _ m_mem).1
  exact apart (List.mem_map_of_mem i_mem)
    (root.trans (same.trans root'.symm) ▸ List.mem_map_of_mem j_mem)

/-- A block stands at one index. -/
theorem index_of_block {u v : Nat} (at_u : l.tour.blocks[u]? = some b)
    (at_v : l.tour.blocks[v]? = some b) : u = v := by
  have nodup : l.tour.blocks.Nodup :=
    Block.inOrder_perm.nodup_iff.mp (List.Nodup.of_map _ (toured.roots_nodup uniform mem))
  obtain ⟨u_lt, rfl⟩ := List.getElem?_eq_some_iff.mp at_u
  obtain ⟨v_lt, same⟩ := List.getElem?_eq_some_iff.mp at_v
  exact ((List.Nodup.getElem_inj_iff nodup).mp same).symm

/-- The requirements of a block are the blocks that it rests on. -/
theorem requires_iff {u v : Nat} (at_u : l.tour.blocks[u]? = some b)
    (at_v : l.tour.blocks[v]? = some m) :
    v ∈ (Block.requirements l.tour.arena l.tour.blocks).getD u [] ↔ b.RestsOn a m := by
  obtain ⟨first, last, traced⟩ := toured.traced uniform mem
  have sound := toured.sound uniform mem
  have grows := toured.extends_of_mem uniform mem
  have ends {v : Nat} (lt : v < l.tour.arena.vars.size) : a.terminal v = l.tour.arena.terminal v :=
    grows.terminal_eq sound.consistent.linked (toured.rested uniform).1.linked v lt
  have planned {b : Block} {u : Nat} (known : l.tour.blocks[u]? = some b) {i : Instantiation}
      (i_mem : i ∈ b.instantiations) : i ∈ l.tour.plan.instantiations :=
    Tour.Traced.mem_plan_of_block l.tour (List.mem_of_getElem? known) i_mem
  have maker {i : Instantiation} {s : Supply} (i_mem : i ∈ b.instantiations)
      (s_mem : s ∈ i.supplies) :
      (Block.makers l.tour.arena l.tour.blocks).lookup (l.tour.arena.storage s.var) = some v ↔
        ∃ j ∈ m.instantiations, a.terminal j.target = a.terminal s.var := by
    rw [traced.lookup_makers uniform (planned at_u i_mem) s_mem, Leg.instantiationsAt_eq at_v,
      ends (sound.provided i (planned at_u i_mem) s s_mem).1]
    refine exists_congr fun j => and_congr_right fun j_mem => ?_
    rw [ends (sound.consistent.due_lt _ (List.mem_map_of_mem (planned at_v j_mem)))]
  have apart : v ≠ u ↔ b ≠ m := by
    refine not_congr ⟨fun eq => ?_, fun eq => ?_⟩
    · rw [eq, at_u] at at_v
      exact Option.some.inj at_v
    · exact toured.index_of_block uniform mem (eq ▸ at_v) at_u
  rw [Block.mem_requirements, Leg.instantiationsAt_eq at_u, apart]
  refine and_congr_right fun _ => exists_congr fun i => and_congr_right fun i_mem =>
    exists_congr fun s => and_congr_right fun s_mem => maker i_mem s_mem

/-- Requirements lead from the block of the root to every block. -/
theorem reached {v : Nat} (known : l.tour.blocks[v]? = some b) : Relation.ReflTransGen
    (fun x y => y ∈ (Block.requirements l.tour.arena l.tour.blocks).getD x []) 0 v := by
  obtain ⟨w, explained⟩ := toured.explained uniform mem
  have planned {b : Block} {v : Nat} (known : l.tour.blocks[v]? = some b) :
      b ∈ l.tour.plan.blocks := Block.inOrder_perm.mem_iff.mpr (List.mem_of_getElem? known)
  obtain ⟨r, root⟩ : ∃ r, b.root = r := ⟨_, rfl⟩
  induction r using Nat.strong_induction_on generalizing b v with
  | _ r ih =>
    obtain top | ⟨u, u_mem, var, placed⟩ := explained.opens b (planned known)
    · -- the block of the root is the first one
      obtain ⟨-, b₀, first, same⟩ := toured.headed uniform mem
      cases toured.block_eq_of_root uniform mem explained (planned first) (planned known)
        (same.trans top.symm)
      rw [toured.index_of_block uniform mem known first]
    · -- the others were opened for a use in a block with an older variable
      obtain ⟨b₁, b₁_mem, -, i, i_mem, target, s_mem⟩ := Plan.exists_block u_mem
      obtain ⟨x, known₁⟩ := List.getElem?_of_mem (Block.inOrder_perm.mem_iff.mp b₁_mem)
      have le : b₁.root ≤ u.target := target ▸ toured.root_le uniform mem explained b₁_mem i_mem
        (target ▸ toured.inside_target uniform mem u_mem)
      have newer := (explained.newer u u_mem (Use.inside_of_placement placed)).1
      have older : b₁.root < b.root := Nat.lt_of_le_of_lt le (var ▸ newer)
      obtain ⟨j, j_mem, made⟩ := (explained.fills b (planned known)).1
      refine (ih b₁.root (root ▸ older) known₁ rfl).tail ?_
      refine (toured.requires_iff uniform mem known₁ known).mpr ⟨?_, i, i_mem, _, s_mem, j, j_mem, ?_⟩
      · rintro rfl
        exact Nat.lt_irrefl _ older
      · rw [made, var]

/-- A block comes after one that it rests on, unless that one rests on it in turn. -/
theorem precedes_of_rests (rests : l.tour.plan.Rests a b m)
    (apart : ¬ Relation.ReflTransGen (l.tour.plan.Rests a) m b) :
    Precedes l.tour.plan.blocks m b := by
  obtain ⟨b_mem, m_mem, rests⟩ := rests
  obtain ⟨u, at_u⟩ := List.getElem?_of_mem (Block.inOrder_perm.mem_iff.mp b_mem)
  obtain ⟨v, at_v⟩ := List.getElem?_of_mem (Block.inOrder_perm.mem_iff.mp m_mem)
  refine Block.precedes_inOrder at_u at_v ((toured.requires_iff uniform mem at_u at_v).mpr rests)
    fun path => apart ?_
  -- a path of requirements is one of blocks
  have walked {x : Nat} (path : Relation.ReflTransGen (fun x y =>
      y ∈ (Block.requirements l.tour.arena l.tour.blocks).getD x []) v x) :
      ∀ b, l.tour.blocks[x]? = some b → Relation.ReflTransGen (l.tour.plan.Rests a) m b := by
    induction path with
    | refl =>
      intro b at_b
      cases at_v.symm.trans at_b
      exact .refl
    | @tail x y _ edge ih =>
      intro b at_y
      have at_x := List.getElem?_eq_getElem (Block.lt_of_requires edge)
      exact (ih _ at_x).tail ⟨Block.inOrder_perm.mem_iff.mpr (List.mem_of_getElem? at_x),
        Block.inOrder_perm.mem_iff.mpr (List.mem_of_getElem? at_y),
        (toured.requires_iff uniform mem at_x at_y).mp edge⟩
  exact walked path b at_u

end Graph.Toured

/-- The plans of all visits are shaped. -/
theorem plan_shaped (resolved : g.IsResolved) (visits : g.Visits legs a) (mem : l ∈ legs) :
    l.tour.plan.Shaped a l.tour.blocks := by
  have uniform := resolved.uniform
  have toured := visits.toured
  obtain ⟨w, explained⟩ := toured.explained uniform mem
  obtain ⟨rooted, top, first, root⟩ := toured.headed uniform mem
  have once := toured.roots_nodup uniform mem
  obtain ⟨front, eq⟩ := Block.exists_inOrder_append first fun v lt =>
    toured.reached uniform mem (List.getElem?_eq_getElem lt)
  have blocks : l.tour.plan.blocks = front ++ [top] := eq
  refine ⟨Block.inOrder_perm, once, fun b b_mem => rooted b (Block.inOrder_perm.mem_iff.mp b_mem),
    ⟨front, top, blocks, root, fun b b_mem => ?_⟩, fun acyclic b m rests => ?_⟩
  · have b_plan : b ∈ l.tour.plan.blocks := by
      rw [blocks]
      exact List.mem_append_left _ b_mem
    obtain same | ⟨u, u_mem, var, -⟩ := explained.opens b b_plan
    · rw [blocks, List.map_append, List.nodup_append] at once
      exact (once.2.2 _ (List.mem_map_of_mem b_mem) _ (by simp) (same.trans root.symm)).elim
    · obtain ⟨b', b'_mem, -, i, i_mem, -, s_mem⟩ := Plan.exists_block u_mem
      exact ⟨i, List.mem_flatMap.mpr ⟨b', b'_mem, i_mem⟩, u.supply, s_mem, var⟩
  · exact toured.precedes_of_rests uniform mem rests fun path =>
      acyclic b (Relation.TransGen.head' rests path)

/-- Two singletons, one of them used by the other, and a transient that is used twice. -/
def Sample.stacked : Graph := Sample.graph <| Sample.setup [
  Sample.service "T" [] .transient,
  Sample.service "A" ["T"] .singleton,
  Sample.service "B" ["A"] .singleton,
  Sample.service "R" ["B", "T", "A", "T"] .transient] ["R"]

/-- This plan has four blocks, of which some rest on others, but in no circle. -/
theorem plan_shaped_stacked : Sample.stacked.IsResolved ∧ ∃ legs a, Sample.stacked.Visits legs a ∧
    ∃ l ∈ legs, l.tour.plan.Shaped a l.tour.blocks ∧ 4 ≤ l.tour.plan.blocks.length ∧
      (∃ b m, l.tour.plan.Rests a b m) ∧ ∀ b, ¬ Relation.TransGen (l.tour.plan.Rests a) b b := by
  have resolved : Sample.stacked.IsResolved := Sample.isResolved _ (by decide +kernel)
  obtain ⟨legs, a, visits, l, mem, count, rests, back⟩ :
      ∃ legs a, Sample.stacked.Visits legs a ∧ ∃ l ∈ legs, 4 ≤ l.tour.plan.blocks.length ∧
        (∃ b ∈ l.tour.plan.blocks, ∃ m ∈ l.tour.plan.blocks, b.RestsOn a m) ∧
        ∀ b ∈ l.tour.plan.blocks, ∀ m ∈ l.tour.plan.blocks, b.RestsOn a m →
          l.tour.plan.blocks.idxOf m < l.tour.plan.blocks.idxOf b :=
    Graph.visits_of_any (by decide +kernel)
  refine ⟨resolved, legs, a, visits, l, mem, plan_shaped resolved visits mem, count, ?_, ?_⟩
  · obtain ⟨b, b_mem, m, m_mem, rests⟩ := rests
    exact ⟨b, m, b_mem, m_mem, rests⟩
  · intro b circle
    -- along a path blocks stand further and further in front
    have down {m : Block} (path : Relation.TransGen (l.tour.plan.Rests a) b m) :
        l.tour.plan.blocks.idxOf m < l.tour.plan.blocks.idxOf b := by
      induction path with
      | single rests => exact back b rests.1 _ rests.2.1 rests.2.2
      | tail _ rests ih => exact Nat.lt_trans (back _ rests.1 _ rests.2.1 rests.2.2) ih
    exact Nat.lt_irrefl _ (down circle)

end ObjectGraph
