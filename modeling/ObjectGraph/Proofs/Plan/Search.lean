import Mathlib.Logic.Relation
import Mathlib.Data.List.Perm.Subperm
import ObjectGraph.Plan.Order
import ObjectGraph.Proofs.Precedes

/-
  The depth-first search through blocks.

  `Block.settle` puts a block out after the ones below it.  What is shown of it here does not depend
  on what the blocks hold:

    * what is put out is a permutation of the blocks (`settled_perm`);
    * a block comes after one that it requires, unless it was itself found below that one
      (`settled_precedes`).  Found below means: reached from there through requirements, by blocks
      none of which was reached before;
    * the first block comes last if all others are reached from it (`exists_settled_cons`).

  The second statement is exact.  `Subtree` is the invariant that carries it: for each block that
  was reached it tells apart the blocks reached earlier, those below and those reached later.
-/

namespace ObjectGraph

namespace Block

variable {required : Array (List Nat)} {o o₁ o₂ : Settled} {count depth : Nat}

/-! ## The search below a block -/

/-- A requirement that leads to a block that is not among `earlier`. -/
def NewEdge (required : Array (List Nat)) (earlier : List Nat) (x y : Nat) : Prop :=
  y ∈ required.getD x [] ∧ y ∉ earlier

/-- What the search found from the block `v` on: the blocks `below` were reached from it, and the
    blocks `earlier` had been reached before it. -/
structure Subtree (required : Array (List Nat)) (o : Settled) (v : Nat)
    (below earlier : List Nat) : Prop where
  reached : ∃ later, o.reached = later ++ (below ++ v :: earlier)
  ordered : ∃ after inner before, o.ordered = after ++ v :: (inner ++ before) ∧
    below.Perm inner ∧ ∀ x ∈ before, ∀ y ∈ required.getD x [], y ∈ earlier
  led : ∀ x, x ∈ v :: below ↔ Relation.ReflTransGen (NewEdge required earlier) v x

/-- The search that went from the state `o`, with the blocks `starts` to reach, to the state `o'`.
    It reached the blocks `below` and put out the blocks `done`. -/
structure Search (required : Array (List Nat)) (starts : List Nat) (o : Settled)
    (below done : List Nat) (o' : Settled) : Prop where
  reached : o'.reached = below ++ o.reached
  ordered : o'.ordered = done ++ o.ordered
  perm : below.Perm done
  starts_mem : ∀ i ∈ starts, i ∈ o'.reached
  closed : ∀ x ∈ below, ∀ y ∈ required.getD x [], y ∈ o'.reached
  led : ∀ x ∈ below, ∃ i ∈ starts, i ∉ o.reached ∧
    Relation.ReflTransGen (NewEdge required o.reached) i x
  each : ∀ v ∈ below, ∃ inner earlier, Subtree required o' v inner earlier

/-- A state of the search through `count` blocks. -/
structure Settled.Fits (required : Array (List Nat)) (count : Nat) (o : Settled) : Prop where
  nodup : o.reached.Nodup
  lt : ∀ v ∈ o.reached, v < count
  closed : ∀ x ∈ o.ordered, ∀ y ∈ required.getD x [], y ∈ o.reached

theorem Settled.Fits.length_le (fits : o.Fits required count) : o.reached.length ≤ count := by
  have sub : o.reached ⊆ List.range count := fun v mem => List.mem_range.mpr (fits.lt v mem)
  have le := (fits.nodup.subperm sub).length_le
  rwa [List.length_range] at le

/-- A path of blocks that are new stays one when fewer blocks count as reached. -/
theorem newPath_mono {earlier earlier' : List Nat} (sub : ∀ z ∈ earlier, z ∈ earlier') {x y : Nat}
    (path : Relation.ReflTransGen (NewEdge required earlier') x y) :
    Relation.ReflTransGen (NewEdge required earlier) x y :=
  Relation.ReflTransGen.mono (fun _ _ edge => ⟨edge.1, fun mem => edge.2 (sub _ mem)⟩) _ _ path

/-- A longer search keeps what a shorter one found. -/
theorem Subtree.mono {v : Nat} {below earlier more moreDone : List Nat}
    (tree : Subtree required o v below earlier) (reached : o₁.reached = more ++ o.reached)
    (ordered : o₁.ordered = moreDone ++ o.ordered) : Subtree required o₁ v below earlier where
  reached := by
    obtain ⟨later, eq⟩ := tree.reached
    exact ⟨more ++ later, by rw [reached, eq, List.append_assoc]⟩
  ordered := by
    obtain ⟨after, inner, before, eq, rest⟩ := tree.ordered
    exact ⟨moreDone ++ after, inner, before, by rw [ordered, eq, List.append_assoc], rest⟩
  led := tree.led

/-- So does putting a block out. -/
theorem Subtree.put {v i : Nat} {below earlier : List Nat}
    (tree : Subtree required o v below earlier) :
    Subtree required { o with ordered := i :: o.ordered } v below earlier :=
  tree.mono (List.nil_append o.reached).symm (List.singleton_append (l := o.ordered)).symm

theorem search_nil (o : Settled) : Search required [] o [] [] o :=
  ⟨rfl, rfl, .refl _, nofun, nofun, nofun, nofun⟩

/-- Searching from one block after the other. -/
theorem Search.trans {i : Nat} {starts below done below' done' : List Nat}
    (first : Search required [i] o below done o₁)
    (rest : Search required starts o₁ below' done' o₂) :
    Search required (i :: starts) o (below' ++ below) (done' ++ done) o₂ where
  reached := by rw [rest.reached, first.reached, List.append_assoc]
  ordered := by rw [rest.ordered, first.ordered, List.append_assoc]
  perm := rest.perm.append first.perm
  starts_mem j mem := by
    rcases List.mem_cons.mp mem with rfl | mem
    · rw [rest.reached]
      exact List.mem_append_right _ (first.starts_mem j List.mem_cons_self)
    · exact rest.starts_mem j mem
  closed x mem y edge := by
    rcases List.mem_append.mp mem with mem | mem
    · exact rest.closed x mem y edge
    · rw [rest.reached]
      exact List.mem_append_right _ (first.closed x mem y edge)
  led x mem := by
    rcases List.mem_append.mp mem with mem | mem
    · obtain ⟨j, start, new, path⟩ := rest.led x mem
      have sub : ∀ z ∈ o.reached, z ∈ o₁.reached := fun z mem => by
        rw [first.reached]
        exact List.mem_append_right _ mem
      exact ⟨j, List.mem_cons_of_mem _ start, fun mem => new (sub j mem),
        newPath_mono sub path⟩
    · obtain ⟨j, start, new, path⟩ := first.led x mem
      rw [List.mem_singleton] at start
      exact ⟨j, start ▸ List.mem_cons_self, new, path⟩
  each v mem := by
    rcases List.mem_append.mp mem with mem | mem
    · exact rest.each v mem
    · obtain ⟨inner, earlier, tree⟩ := first.each v mem
      exact ⟨inner, earlier, tree.mono rest.reached rest.ordered⟩

/-- Reaching a new block: the search goes on from what it requires, and then the block is put
    out. -/
theorem Search.visit {i : Nat} {below done : List Nat} (fits : o.Fits required count)
    (new : i ∉ o.reached)
    (inside : Search required (required.getD i []) { o with reached := i :: o.reached } below done
      o₁) :
    Search required [i] o (below ++ [i]) (i :: done) { o₁ with ordered := i :: o₁.ordered } := by
  -- whatever is found below the block is reached from it by blocks that are new
  have led : ∀ x ∈ below, Relation.ReflTransGen (NewEdge required o.reached) i x := by
    intro x mem
    obtain ⟨j, edge, unreached, path⟩ := inside.led x mem
    have sub : ∀ z ∈ o.reached, z ∈ i :: o.reached := fun z mem => List.mem_cons_of_mem i mem
    exact .head ⟨edge, fun mem => unreached (sub j mem)⟩ (newPath_mono sub path)
  -- and no such path leads out of what is found
  have stays : ∀ x, Relation.ReflTransGen (NewEdge required o.reached) i x → x ∈ i :: below := by
    intro x path
    induction path with
    | refl => exact List.mem_cons_self
    | @tail y z _ edge ih =>
      have found : z ∈ o₁.reached := by
        rcases List.mem_cons.mp ih with rfl | mem
        · exact inside.starts_mem z edge.1
        · exact inside.closed y mem z edge.1
      rw [inside.reached] at found
      rcases List.mem_append.mp found with mem | mem
      · exact List.mem_cons_of_mem i mem
      · rcases List.mem_cons.mp mem with rfl | mem
        · exact List.mem_cons_self
        · exact absurd mem edge.2
  have tree : Subtree required { o₁ with ordered := i :: o₁.ordered } i below o.reached := {
    reached := ⟨[], inside.reached⟩
    ordered := ⟨[], done, o.ordered, by rw [inside.ordered]; rfl, inside.perm,
      fun x mem y edge => fits.closed x mem y edge⟩
    led := by
      intro x
      refine ⟨fun mem => ?_, stays x⟩
      rcases List.mem_cons.mp mem with rfl | mem
      · exact .refl
      · exact led x mem }
  exact {
    reached := by rw [List.append_assoc]; exact inside.reached
    ordered := congrArg (i :: ·) inside.ordered
    perm := (List.perm_append_singleton i below).trans (inside.perm.cons i)
    starts_mem := by
      intro j mem
      rw [List.mem_singleton] at mem
      rw [inside.reached, mem]
      exact List.mem_append_right _ List.mem_cons_self
    closed := by
      intro x mem y edge
      rcases List.mem_append.mp mem with mem | mem
      · exact inside.closed x mem y edge
      · rw [List.mem_singleton] at mem
        subst mem
        exact inside.starts_mem y edge
    led := by
      intro x mem
      refine ⟨i, List.mem_cons_self, new, ?_⟩
      rcases List.mem_append.mp mem with mem | mem
      · exact led x mem
      · rw [List.mem_singleton] at mem
        subst mem
        exact .refl
    each := by
      intro v mem
      rcases List.mem_append.mp mem with mem | mem
      · obtain ⟨inner, earlier, subtree⟩ := inside.each v mem
        exact ⟨inner, earlier, subtree.put⟩
      · rw [List.mem_singleton] at mem
        subst mem
        exact ⟨below, o.reached, tree⟩ }

/-! ## The search keeps its promise -/

theorem foldl_search {step : Settled → Nat → Settled}
    (each : ∀ o i, o.Fits required count → i < count → depth + o.reached.length > count →
      (step o i).Fits required count ∧ ∃ below done, Search required [i] o below done (step o i))
    (starts : List Nat) : ∀ o, o.Fits required count → (∀ i ∈ starts, i < count) →
      depth + o.reached.length > count →
      (starts.foldl step o).Fits required count ∧
        ∃ below done, Search required starts o below done (starts.foldl step o) := by
  induction starts with
  | nil => exact fun o fits _ _ => ⟨fits, [], [], search_nil o⟩
  | cons i rest ih =>
    intro o fits inside deep
    obtain ⟨fits₁, below, done, first⟩ := each o i fits (inside i List.mem_cons_self) deep
    have grown : o.reached.length ≤ (step o i).reached.length := by
      rw [first.reached, List.length_append]
      exact Nat.le_add_left _ _
    obtain ⟨fits₂, below', done', others⟩ := ih (step o i) fits₁
      (fun j mem => inside j (List.mem_cons_of_mem i mem)) (by omega)
    exact ⟨fits₂, _, _, first.trans others⟩

/-- From any state that fits, with levels left for all blocks not reached yet, the search below a
    block does what it should. -/
theorem settle_search (inside : ∀ x, ∀ y ∈ required.getD x [], y < count) (depth : Nat) :
    ∀ o i, o.Fits required count → i < count → depth + o.reached.length > count →
      (settle required depth o i).Fits required count ∧
        ∃ below done, Search required [i] o below done (settle required depth o i) := by
  induction depth with
  | zero =>
    intro o i fits _ deep
    have le := fits.length_le
    omega
  | succ depth ih =>
    intro o i fits lt deep
    rw [settle]
    split
    · rename_i known
      refine ⟨fits, [], [], rfl, rfl, .refl _, fun j mem => ?_, nofun, nofun, nofun⟩
      rwa [List.mem_singleton.mp mem]
    · rename_i new
      have started : Settled.Fits required count { o with reached := i :: o.reached } := {
        nodup := List.nodup_cons.mpr ⟨new, fits.nodup⟩
        lt := by
          intro v mem
          rcases List.mem_cons.mp mem with rfl | mem
          · exact lt
          · exact fits.lt v mem
        closed := fun x mem y edge => List.mem_cons_of_mem i (fits.closed x mem y edge) }
      obtain ⟨fits₁, below, done, search⟩ := foldl_search ih (required.getD i []) _ started
        (inside i) (by simp only [List.length_cons]; omega)
      refine ⟨⟨fits₁.nodup, fits₁.lt, ?_⟩, below ++ [i], i :: done, Search.visit fits new search⟩
      intro x mem y edge
      rcases List.mem_cons.mp mem with rfl | mem
      · exact search.starts_mem y edge
      · exact fits₁.closed x mem y edge

/-! ## The order of all blocks -/

/-- The state when all blocks are put in order. -/
def settled (required : Array (List Nat)) (count : Nat) : Settled :=
  (List.range count).foldl (settle required (count + 1)) {}

section Settled

variable (inside : ∀ x, ∀ y ∈ required.getD x [], y < count)

include inside

theorem settled_search : (settled required count).Fits required count ∧
    ∃ below done, Search required (List.range count) {} below done (settled required count) :=
  foldl_search (settle_search inside (count + 1)) (List.range count) {} ⟨.nil, nofun, nofun⟩
    (fun _ mem => List.mem_range.mp mem) (by simp)

theorem mem_settled (v : Nat) : v ∈ (settled required count).reached ↔ v < count := by
  obtain ⟨fits, _, _, search⟩ := settled_search inside
  exact ⟨fits.lt v, fun lt => search.starts_mem v (List.mem_range.mpr lt)⟩

theorem settled_perm :
    (settled required count).ordered.Perm (List.range count) := by
  obtain ⟨fits, below, done, search⟩ := settled_search inside
  have reached := search.reached
  have ordered := search.ordered
  simp only [List.append_nil] at reached ordered
  rw [ordered]
  refine search.perm.symm.trans ?_
  rw [← reached]
  exact (List.perm_ext_iff_of_nodup fits.nodup List.nodup_range).mpr fun v => by
    rw [mem_settled inside, List.mem_range]

/-- A block comes after one that it requires, unless it was found below that one. -/
theorem settled_precedes {u v : Nat} (u_lt : u < count) (v_lt : v < count) (ne : u ≠ v)
    (edge : v ∈ required.getD u []) :
    Precedes (settled required count).ordered.reverse v u ↔
      ¬ Relation.ReflTransGen (fun x y => y ∈ required.getD x [] ∧
        ¬ Precedes (settled required count).reached.reverse y v) v u := by
  obtain ⟨fits, below, done, search⟩ := settled_search inside
  have reached : (settled required count).reached = below := by
    simpa using search.reached
  obtain ⟨inner, earlier, tree⟩ := search.each v (by
    rw [← reached]
    exact (mem_settled inside v).mpr v_lt)
  obtain ⟨later, split⟩ := tree.reached
  obtain ⟨after, innerDone, before, split', perm, closed⟩ := tree.ordered
  have nodup : ((later ++ inner) ++ v :: earlier).Nodup := by
    rw [List.append_assoc, ← split]
    exact fits.nodup
  have nodup' : (after ++ v :: (innerDone ++ before)).Nodup := by
    rw [← split']
    exact (settled_perm inside).nodup_iff.mpr List.nodup_range
  -- the blocks reached earlier are those in front of the block in the order of search
  have earlier_iff (y : Nat) :
      Precedes (settled required count).reached.reverse y v ↔ y ∈ earlier := by
    rw [Precedes.reverse_iff, split, ← List.append_assoc, Precedes.split_iff nodup]
  -- so being reached through new blocks only is being found below
  have below_iff : Relation.ReflTransGen (fun x y => y ∈ required.getD x [] ∧
      ¬ Precedes (settled required count).reached.reverse y v) v u ↔ u ∈ innerDone := by
    simp only [earlier_iff]
    rw [← perm.mem_iff]
    refine (tree.led u).symm.trans ⟨fun mem => ?_, List.mem_cons_of_mem v⟩
    exact (List.mem_cons.mp mem).resolve_left ne
  rw [below_iff, Precedes.reverse_iff, split', Precedes.split_iff' nodup']
  obtain ⟨-, -, apart⟩ := List.nodup_append.mp nodup'
  have u_mem : u ∈ after ++ v :: (innerDone ++ before) := by
    rw [← split', (settled_perm inside).mem_iff]
    exact List.mem_range.mpr u_lt
  -- a block put out before the search reached `v` requires only blocks that were reached by then
  have not_before : u ∉ before := by
    intro mem
    have known := closed u mem v edge
    exact (List.nodup_cons.mp (List.nodup_append.mp nodup).2.1).1 known
  constructor
  · intro mem mem'
    exact apart u mem u (List.mem_cons_of_mem v (List.mem_append_left _ mem')) rfl
  · intro out
    rcases List.mem_append.mp u_mem with mem | mem
    · exact mem
    · rcases List.mem_append.mp ((List.mem_cons.mp mem).resolve_left ne) with mem | mem
      · exact absurd mem out
      · exact absurd mem not_before

end Settled

/-! ## The first block -/

/-- Blocks that were reached are not searched again. -/
theorem foldl_settle_reached (starts : List Nat) (known : ∀ i ∈ starts, i ∈ o.reached) :
    starts.foldl (settle required depth) o = o := by
  induction starts with
  | nil => rfl
  | cons i rest ih =>
    have same : settle required depth o i = o := by
      cases depth with
      | zero => rfl
      | succ depth => rw [settle, if_pos (known i List.mem_cons_self)]
    rw [List.foldl_cons, same]
    exact ih fun j mem => known j (List.mem_cons_of_mem i mem)

/-- If requirements lead from the first block to all others, it is put out last. -/
theorem exists_settled_cons (inside : ∀ x, ∀ y ∈ required.getD x [], y < count) (pos : 0 < count)
    (led : ∀ v < count, Relation.ReflTransGen (fun x y => y ∈ required.getD x []) 0 v) :
    ∃ rest, (settled required count).ordered = 0 :: rest := by
  obtain ⟨others, rfl⟩ := Nat.exists_eq_succ_of_ne_zero (Nat.ne_of_gt pos)
  obtain ⟨-, below, done, search⟩ := settle_search inside (others.succ + 1) {} 0
    ⟨.nil, nofun, nofun⟩ pos (by simp)
  -- the search that starts from the first block leaves nothing to reach
  have reached : ∀ v, Relation.ReflTransGen (fun x y => y ∈ required.getD x []) 0 v →
      v ∈ (settle required (others.succ + 1) {} 0).reached := by
    intro v path
    induction path with
    | refl => exact search.starts_mem 0 List.mem_cons_self
    | @tail x y _ edge ih =>
      rw [search.reached, List.append_nil] at ih
      exact search.closed x ih y edge
  rw [settled, List.range_succ_eq_map, List.foldl_cons, foldl_settle_reached]
  · exact ⟨_, rfl⟩
  · intro i mem
    obtain ⟨j, lt, rfl⟩ := List.mem_map.mp mem
    exact reached _ (led _ (Nat.succ_lt_succ (List.mem_range.mp lt)))

end Block

end ObjectGraph
