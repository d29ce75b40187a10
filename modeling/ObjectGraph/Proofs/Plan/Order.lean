import ObjectGraph.Proofs.Plan.Search

/-
  The order in which blocks are put.

  It is the one of a search along requirements, and a block requires the ones that make what its
  instantiations are handed.  So a plan makes what was found, block by block
  (`flatMap_inOrder`, `inOrder_perm`), and the requirements are read off the makers, of which
  `makers_sound` and `makers_complete` say what they are.
-/

namespace ObjectGraph

namespace Block

/-! ## The blocks that make what is required -/

section Makers

variable {a : Arena} {blocks : List Block} {makers₀ : Makers} {v : VariableId} {index : Nat}

/-- Noting an instantiation adds entries for its target and for the storage of it. -/
theorem mem_noteMaker {i : Instantiation} {entry : VariableId × Nat}
    (mem : entry ∈ noteMaker a index makers₀ i) :
    entry ∈ makers₀ ∨ entry = (i.target, index) ∨ entry = (a.storage i.target, index) := by
  simp only [noteMaker] at mem
  split at mem
  · exact (List.mem_cons.mp mem).elim (.inr ∘ .inl) .inl
  · rcases List.mem_cons.mp mem with eq | mem
    · exact .inr (.inr eq)
    · exact (List.mem_cons.mp mem).elim (.inr ∘ .inl) .inl

/-- What is noted stays noted. -/
theorem lookup_noteMaker (i : Instantiation)
    (known : (makers₀.lookup v).isSome ∨ v = i.target ∨ v = a.storage i.target) :
    ((noteMaker a index makers₀ i).lookup v).isSome := by
  have noted (old : (makers₀.lookup v).isSome ∨ v = i.target) :
      (((i.target, index) :: makers₀).lookup v).isSome := by
    rw [List.lookup_cons]
    split
    · rfl
    · rename_i ne
      exact old.resolve_right (by simpa using ne)
  simp only [noteMaker]
  split
  · rename_i found
    rcases known with known | rfl | rfl
    · exact noted (.inl known)
    · exact noted (.inr rfl)
    · exact found
  · rw [List.lookup_cons]
    split
    · rfl
    · rename_i ne
      exact noted (known.imp_right fun same => same.resolve_right (by simpa using ne))

/-- All that is noted of a block are entries of this block for what it makes ... -/
theorem mem_foldl_noteMaker (is : List Instantiation) :
    ∀ {makers₀ : Makers} {entry : VariableId × Nat}, entry ∈ is.foldl (noteMaker a index) makers₀ →
      entry ∈ makers₀ ∨ entry.2 = index ∧
        ∃ i ∈ is, entry.1 = i.target ∨ entry.1 = a.storage i.target := by
  induction is with
  | nil => exact .inl
  | cons i is ih =>
    intro makers₀ entry mem
    rcases ih mem with mem | ⟨at', j, mem, eq⟩
    · rcases mem_noteMaker mem with mem | rfl | rfl
      · exact .inl mem
      · exact .inr ⟨rfl, i, List.mem_cons_self, .inl rfl⟩
      · exact .inr ⟨rfl, i, List.mem_cons_self, .inr rfl⟩
    · exact .inr ⟨at', j, List.mem_cons_of_mem i mem, eq⟩

/-- ... and what it makes is found. -/
theorem lookup_foldl_noteMaker (is : List Instantiation) :
    ∀ {makers₀ : Makers},
      (makers₀.lookup v).isSome ∨ (∃ i ∈ is, v = i.target ∨ v = a.storage i.target) →
      ((is.foldl (noteMaker a index) makers₀).lookup v).isSome := by
  induction is with
  | nil => rintro makers₀ (known | ⟨i, mem, -⟩) <;> [exact known; cases mem]
  | cons i is ih =>
    rintro makers₀ (known | ⟨j, mem, eq⟩)
    · exact ih (.inl (lookup_noteMaker i (.inl known)))
    · rcases List.mem_cons.mp mem with rfl | mem
      · exact ih (.inl (lookup_noteMaker j (.inr eq)))
      · exact ih (.inr ⟨j, mem, eq⟩)

/-- An entry names a block that makes the variable ... -/
theorem mem_makersFrom (blocks : List Block) :
    ∀ {index : Nat} {makers₀ : Makers} {entry : VariableId × Nat},
      entry ∈ makersFrom a index makers₀ blocks → entry ∈ makers₀ ∨
        ∃ k b, blocks[k]? = some b ∧ entry.2 = index + k ∧
          ∃ i ∈ b.instantiations, entry.1 = i.target ∨ entry.1 = a.storage i.target := by
  induction blocks with
  | nil => exact .inl
  | cons b rest ih =>
    intro index makers₀ entry mem
    rcases ih mem with mem | ⟨k, b', known, at', found⟩
    · exact (mem_foldl_noteMaker _ mem).imp_right fun ⟨at', found⟩ => ⟨0, b, rfl, at', found⟩
    · exact .inr ⟨k + 1, b', known, by rw [at']; omega, found⟩

/-- ... and every variable that is made has one. -/
theorem lookup_makersFrom (blocks : List Block) :
    ∀ {index : Nat} {makers₀ : Makers}, (makers₀.lookup v).isSome ∨
        (∃ b ∈ blocks, ∃ i ∈ b.instantiations, v = i.target ∨ v = a.storage i.target) →
      ((makersFrom a index makers₀ blocks).lookup v).isSome := by
  induction blocks with
  | nil => rintro index makers₀ (known | ⟨b, mem, -⟩) <;> [exact known; cases mem]
  | cons b rest ih =>
    rintro index makers₀ (known | ⟨b', mem, found⟩)
    · exact ih (.inl (lookup_foldl_noteMaker _ (.inl known)))
    · rcases List.mem_cons.mp mem with rfl | mem
      · exact ih (.inl (lookup_foldl_noteMaker _ (.inr found)))
      · exact ih (.inr ⟨b', mem, found⟩)

/-- The table of makers names a block with an instantiation of the variable or of one that is kept
    in it. -/
theorem makers_sound (found : (makers a blocks).lookup v = some index) :
    ∃ b, blocks[index]? = some b ∧
      ∃ i ∈ b.instantiations, v = i.target ∨ v = a.storage i.target := by
  obtain ⟨l₁, l₂, split, -⟩ := List.lookup_eq_some_iff.mp found
  have mem : (v, index) ∈ makers a blocks := by
    rw [split]
    simp
  rcases mem_makersFrom blocks mem with mem | ⟨k, b, known, at', i, mem, eq⟩
  · cases mem
  · have at' : index = k := at'.trans (Nat.zero_add k)
    exact ⟨b, by rw [at', known], i, mem, eq⟩

/-- And it names one for each variable that is made, and for its storage. -/
theorem makers_complete {b : Block} (mem : b ∈ blocks) {i : Instantiation}
    (mem' : i ∈ b.instantiations) (either : v = i.target ∨ v = a.storage i.target) :
    ∃ index, (makers a blocks).lookup v = some index :=
  Option.isSome_iff_exists.mp (lookup_makersFrom blocks (.inr ⟨b, mem, i, mem', either⟩))

end Makers

/-! ## The order of a list of blocks -/

section InOrder

variable (a : Arena) (blocks : List Block)

/-- What each block requires. -/
def requirements : Array (List Nat) := (blocks.mapIdx (requires a (makers a blocks))).toArray

/-- The state when the blocks are put in order. -/
def search : Settled := settled (requirements a blocks) blocks.length

/-- The instantiations of the block at an index. -/
def instantiationsAt (index : Nat) : List Instantiation :=
  (blocks[index]?).elim [] (·.instantiations)

variable {a blocks}

/-- A block requires those that make what it hands on, but not itself. -/
theorem mem_requirements {u v : Nat} : v ∈ (requirements a blocks).getD u [] ↔
    v ≠ u ∧ ∃ i ∈ instantiationsAt blocks u, ∃ s ∈ i.supplies,
      (makers a blocks).lookup (a.storage s.var) = some v := by
  simp only [requirements, Array.getD_eq_getD_getElem?, List.getElem?_toArray, List.getElem?_mapIdx,
    instantiationsAt]
  cases blocks[u]? with
  | none => simp
  | some b =>
    simp only [Option.map_some, Option.getD_some, requires, List.mem_eraseDups, List.mem_filter,
      List.mem_filterMap, List.mem_flatMap, List.mem_map, Option.elim_some, decide_eq_true_eq]
    constructor
    · rintro ⟨⟨v', ⟨i, mem, s, mem', rfl⟩, found⟩, ne⟩
      exact ⟨ne, i, mem, s, mem', found⟩
    · rintro ⟨ne, i, mem, s, mem', found⟩
      exact ⟨⟨_, ⟨i, mem, s, mem', rfl⟩, found⟩, ne⟩

theorem lt_of_requires {u v : Nat} (mem : v ∈ (requirements a blocks).getD u []) :
    u < blocks.length := by
  obtain ⟨-, i, i_mem, -⟩ := mem_requirements.mp mem
  by_contra out
  rw [instantiationsAt, List.getElem?_eq_none (Nat.not_lt.mp out)] at i_mem
  cases i_mem

theorem requirements_inside :
    ∀ u, ∀ v ∈ (requirements a blocks).getD u [], v < blocks.length := by
  intro u v mem
  obtain ⟨-, i, -, s, -, found⟩ := mem_requirements.mp mem
  obtain ⟨b, known, -⟩ := makers_sound found
  exact (List.getElem?_eq_some_iff.mp known).1

/-- The order is that of the search. -/
theorem inOrder_eq : inOrder a blocks =
    (search a blocks).ordered.reverse.filterMap (blocks.toArray[·]?) := rfl

theorem flatMap_inOrder : (inOrder a blocks).flatMap (·.instantiations) =
    (search a blocks).ordered.reverse.flatMap (instantiationsAt blocks) := by
  rw [inOrder_eq]
  induction (search a blocks).ordered.reverse with
  | nil => rfl
  | cons index rest ih =>
    rw [List.flatMap_cons, ← ih, instantiationsAt, List.filterMap_cons, List.getElem?_toArray]
    cases blocks[index]? <;> rfl

theorem filterMap_range (blocks : List Block) :
    (List.range blocks.length).filterMap (blocks.toArray[·]?) = blocks := by
  induction blocks with
  | nil => rfl
  | cons b rest ih =>
    have shift : ((b :: rest).toArray[·]?) ∘ Nat.succ = (rest.toArray[·]?) := by
      funext index
      simp
    rw [List.length_cons, List.range_succ_eq_map, List.filterMap_cons, List.filterMap_map, shift,
      ih]
    rfl

/-- The search lists every block once. -/
theorem search_perm : (search a blocks).ordered.reverse.Perm (List.range blocks.length) :=
  (List.reverse_perm _).trans (settled_perm requirements_inside)

/-- The order of blocks is a permutation of them. -/
theorem inOrder_perm : (inOrder a blocks).Perm blocks :=
  (search_perm.filterMap _).trans (.of_eq (filterMap_range blocks))

/-- If requirements lead from the first block to all others, it comes last. -/
theorem exists_inOrder_append {b : Block} (first : blocks[0]? = some b)
    (led : ∀ v < blocks.length,
      Relation.ReflTransGen (fun x y => y ∈ (requirements a blocks).getD x []) 0 v) :
    ∃ front, inOrder a blocks = front ++ [b] := by
  obtain ⟨rest, eq⟩ := exists_settled_cons requirements_inside
    (List.getElem?_eq_some_iff.mp first).1 led
  refine ⟨rest.reverse.filterMap (blocks.toArray[·]?), ?_⟩
  rw [inOrder_eq, search, eq, List.reverse_cons, List.filterMap_append]
  simp [first]

/-- A block comes after one that it requires, unless that one leads back to it. -/
theorem precedes_inOrder {u v : Nat} {b m : Block} (at_u : blocks[u]? = some b)
    (at_v : blocks[v]? = some m) (required : v ∈ (requirements a blocks).getD u [])
    (apart : ¬ Relation.ReflTransGen (fun x y => y ∈ (requirements a blocks).getD x []) v u) :
    Precedes (inOrder a blocks) m b := by
  have ne : u ≠ v := fun eq => apart (eq ▸ .refl)
  have first : Precedes (search a blocks).ordered.reverse v u :=
    (settled_precedes requirements_inside (List.getElem?_eq_some_iff.mp at_u).1
      (List.getElem?_eq_some_iff.mp at_v).1 ne required).mpr
      fun path => apart (Relation.ReflTransGen.mono (fun _ _ edge => edge.1) _ _ path)
  have kept := List.Sublist.filterMap (blocks.toArray[·]?) first
  rwa [← inOrder_eq, List.filterMap_cons_some (List.getElem?_toArray.trans at_v),
    List.filterMap_cons_some (List.getElem?_toArray.trans at_u), List.filterMap_nil] at kept

end InOrder

end Block

end ObjectGraph
