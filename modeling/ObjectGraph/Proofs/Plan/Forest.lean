import Mathlib.Logic.Relation
import ObjectGraph.Proofs.Precedes

/-
  The order in which a block takes up what it makes.

  A block makes its variables from a stack: it takes the one on top, and what that one is handed and
  the block is to make goes on top of the stack in turn.  The variables handed out form a forest.
  What stands above is taken up before what is below, and since the stack turns slots around, what
  is below a later slot is taken up before what is below an earlier one.  `InOrder` says that these
  two rules decide the order completely.

  Nothing here knows of variables; `InOrder.hand_on` and `InOrder.hand` are the two ways in which
  the forest grows, with and without a new variable in the line of those taken up.
-/

namespace ObjectGraph

/-- What each variable that a block makes is handed, by slot. -/
abbrev Forest := List (Nat × List Nat)

namespace Forest

variable {f rest : Forest} {n c t u v x y : Nat} {vs : List Nat}

/-- `x` is handed `y`. -/
def Hands (f : Forest) (x y : Nat) : Prop := ∃ vs, (x, vs) ∈ f ∧ y ∈ vs

/-- `y` is below `x`: handed to it, or to what is below it, or the same. -/
abbrev Above (f : Forest) : Nat → Nat → Prop := Relation.ReflTransGen (Hands f)

/-- Some variable that stands above both has `x` below a later slot than `y`. -/
def Later (f : Forest) (x y : Nat) : Prop :=
  ∃ c vs u v, (c, vs) ∈ f ∧ Precedes vs u v ∧ Above f v x ∧ Above f u y

/-- A forest of variables smaller than `n`: each is handed to one other at most, and is greater than
    that one. -/
structure Grown (n : Nat) (f : Forest) : Prop where
  target_lt : ∀ x vs, (x, vs) ∈ f → x < n
  once : (f.map Prod.fst).Nodup
  nodup : ∀ c vs, (c, vs) ∈ f → vs.Nodup
  lt : ∀ x y, Hands f x y → x < y ∧ y < n
  parent : ∀ x x' y, Hands f x y → Hands f x' y → x = x'

theorem Grown.le (grown : Grown n f) (above : Above f x y) : x ≤ y := by
  induction above with
  | refl => exact Nat.le_refl x
  | tail _ hands ih => exact Nat.le_trans ih (Nat.le_of_lt (grown.lt _ _ hands).1)

/-- What is below two slots of a variable is below one slot. -/
theorem Grown.slot_eq (grown : Grown n f) (hands : Hands f c u) (hands' : Hands f c v)
    (above : Above f u x) (above' : Above f v x) : u = v := by
  -- the two ways up from `x` are the same, and none goes on from a slot of `c` to another one
  have stop {w : Nat} (hands' : Hands f c v) (last : Hands f w u) : ¬ Above f v w := by
    intro above
    have eq := grown.parent _ _ _ last hands
    subst eq
    have lt := (grown.lt _ _ hands').1
    have le := grown.le above
    omega
  induction above with
  | refl =>
    rcases Relation.ReflTransGen.cases_tail above' with eq | ⟨w, above', last⟩
    · exact eq
    · exact (stop hands' last above').elim
  | @tail w x above last ih =>
    rcases Relation.ReflTransGen.cases_tail above' with rfl | ⟨w', above', last'⟩
    · have eq := grown.parent _ _ _ last hands'
      subst eq
      have lt := (grown.lt _ _ hands).1
      have le := grown.le above
      omega
    · obtain rfl := grown.parent _ _ _ last last'
      exact ih above'

/-- The variable that stands above has one list of what it is handed. -/
theorem Grown.slots_eq (grown : Grown n ((c, vs) :: rest)) {ws : List Nat}
    (mem : (c, ws) ∈ (c, vs) :: rest) : ws = vs := by
  have out : c ∉ rest.map Prod.fst := (List.nodup_cons.mp grown.once).1
  rcases List.mem_cons.mp mem with eq | mem
  · exact congrArg Prod.snd eq
  · exact absurd (List.mem_map_of_mem mem) out

/-- The line in which variables are taken up is in order: what stands above comes first, and what is
    below a later slot.  Variables for which `known` fails are not spoken of. -/
def InOrder (known : Nat → Prop) (f : Forest) (line : List Nat) : Prop :=
  ∀ x ∈ line, ∀ y ∈ line, x ≠ y → known x → known y →
    (Precedes line x y ↔ Above f x y ∨ Later f x y)

/-! ## One more variable taken up -/

/-- A variable that is taken up and not handed anything yet. -/
theorem hands_take :
    Hands ((c, []) :: f) = Hands f := by
  funext x y
  refine propext ⟨?_, fun ⟨vs, mem, mem'⟩ => ⟨vs, List.mem_cons_of_mem _ mem, mem'⟩⟩
  rintro ⟨vs, mem, mem'⟩
  rcases List.mem_cons.mp mem with eq | mem
  · cases eq
    cases mem'
  · exact ⟨vs, mem, mem'⟩

theorem later_take : Later ((c, []) :: f) x y ↔ Later f x y := by
  unfold Later Above
  rw [hands_take]
  constructor
  · rintro ⟨c', vs, u, v, mem, first, above⟩
    rcases List.mem_cons.mp mem with eq | mem
    · cases eq
      cases first
    · exact ⟨c', vs, u, v, mem, first, above⟩
  · rintro ⟨c', vs, u, v, mem, rest⟩
    exact ⟨c', vs, u, v, List.mem_cons_of_mem _ mem, rest⟩

theorem InOrder.take {known : Nat → Prop} {line : List Nat}
    (ordered : InOrder known f line) : InOrder known ((c, []) :: f) line := by
  intro x x_mem y y_mem ne x_known y_known
  rw [ordered x x_mem y y_mem ne x_known y_known, later_take, Above, Above, hands_take]

theorem Grown.take (grown : Grown n f) (lt : c < n) (new : c ∉ f.map Prod.fst) :
    Grown n ((c, []) :: f) where
  target_lt x vs mem := by
    rcases List.mem_cons.mp mem with eq | mem
    · cases eq
      exact lt
    · exact grown.target_lt x vs mem
  once := List.nodup_cons.mpr ⟨new, grown.once⟩
  nodup x vs mem := by
    rcases List.mem_cons.mp mem with eq | mem
    · cases eq
      exact .nil
    · exact grown.nodup x vs mem
  lt := by
    rw [hands_take]
    exact grown.lt
  parent := by
    rw [hands_take]
    exact grown.parent

theorem grown_nil (n : Nat) : Grown n [] where
  target_lt := nofun
  once := .nil
  nodup := nofun
  lt _ _ hands := nomatch hands.choose_spec.1
  parent _ _ _ hands := nomatch hands.choose_spec.1

theorem Grown.mono {m : Nat} (grown : Grown n f) (le : n ≤ m) : Grown m f where
  target_lt x vs mem := Nat.lt_of_lt_of_le (grown.target_lt x vs mem) le
  once := grown.once
  nodup := grown.nodup
  lt x y hands := ⟨(grown.lt x y hands).1, Nat.lt_of_lt_of_le (grown.lt x y hands).2 le⟩
  parent := grown.parent

/-- A variable that joins the line without being spoken of. -/
theorem InOrder.insert {known : Nat → Prop} {front back : List Nat} (unknown : ¬ known t)
    (ordered : InOrder known f (front ++ back)) : InOrder known f (front ++ t :: back) := by
  have old {x : Nat} (mem : x ∈ front ++ t :: back) (x_known : known x) :
      x ≠ t ∧ x ∈ front ++ back := by
    have ne : x ≠ t := fun eq => unknown (eq ▸ x_known)
    simp only [List.mem_append, List.mem_cons] at mem ⊢
    exact ⟨ne, mem.imp_right fun mem => mem.resolve_left ne⟩
  intro x x_mem y y_mem ne x_known y_known
  obtain ⟨x_ne, x_mem⟩ := old x_mem x_known
  obtain ⟨y_ne, y_mem⟩ := old y_mem y_known
  rw [Precedes.insert_iff x_ne y_ne]
  exact ordered x x_mem y y_mem ne x_known y_known

/-! ## One more slot -/

section Hand

theorem hands_iff (t : Nat) : Hands ((c, vs ++ [t]) :: rest) x y ↔
    Hands ((c, vs) :: rest) x y ∨ x = c ∧ y = t := by
  constructor
  · rintro ⟨ws, mem, mem'⟩
    rcases List.mem_cons.mp mem with eq | mem
    · cases eq
      rcases List.mem_append.mp mem' with mem' | mem'
      · exact .inl ⟨vs, List.mem_cons_self, mem'⟩
      · exact .inr ⟨rfl, List.mem_singleton.mp mem'⟩
    · exact .inl ⟨ws, List.mem_cons_of_mem _ mem, mem'⟩
  · rintro (⟨ws, mem, mem'⟩ | ⟨eq, eq'⟩)
    · rcases List.mem_cons.mp mem with eq | mem
      · cases eq
        exact ⟨vs ++ [t], List.mem_cons_self, List.mem_append_left _ mem'⟩
      · exact ⟨ws, List.mem_cons_of_mem _ mem, mem'⟩
    · rw [eq, eq']
      exact ⟨vs ++ [t], List.mem_cons_self, by simp⟩

variable (grown : Grown n ((c, vs) :: rest)) (new : n ≤ t)

include grown new

theorem Grown.hand : Grown (t + 1) ((c, vs ++ [t]) :: rest) where
  target_lt x ws mem := by
    have lt : x < n := by
      rcases List.mem_cons.mp mem with eq | mem
      · cases eq
        exact grown.target_lt c vs List.mem_cons_self
      · exact grown.target_lt x ws (List.mem_cons_of_mem _ mem)
    omega
  once := grown.once
  nodup c' ws mem := by
    rcases List.mem_cons.mp mem with eq | mem
    · cases eq
      refine List.nodup_append.mpr ⟨grown.nodup c vs List.mem_cons_self, by simp, ?_⟩
      intro u mem v mem' eq
      rw [List.mem_singleton] at mem'
      have lt := (grown.lt c u ⟨vs, List.mem_cons_self, mem⟩).2
      omega
    · exact grown.nodup c' ws (List.mem_cons_of_mem _ mem)
  lt x y hands := by
    rcases (hands_iff t).mp hands with hands | ⟨eq, eq'⟩
    · obtain ⟨lt, lt'⟩ := grown.lt x y hands
      exact ⟨lt, by omega⟩
    · have lt := grown.target_lt c vs List.mem_cons_self
      exact ⟨by omega, by omega⟩
  parent x x' y hands hands' := by
    have notNew {z : Nat} (hands : Hands ((c, vs) :: rest) z t) : False := by
      have lt := (grown.lt z t hands).2
      omega
    rcases (hands_iff t).mp hands with hands | ⟨eq, isNew⟩ <;>
      rcases (hands_iff t).mp hands' with hands' | ⟨eq', isNew'⟩
    · exact grown.parent x x' y hands hands'
    · exact (notNew (isNew' ▸ hands)).elim
    · exact (notNew (isNew ▸ hands')).elim
    · rw [eq, eq']

/-- Nothing is below the new variable. -/
theorem above_new (above : Above ((c, vs ++ [t]) :: rest) t y) : y = t := by
  rcases Relation.ReflTransGen.cases_head above with rfl | ⟨z, hands, -⟩
  · rfl
  · rcases (hands_iff t).mp hands with ⟨ws, mem, -⟩ | ⟨rfl, -⟩
    · have lt := grown.target_lt t ws mem
      omega
    · have lt := grown.target_lt t vs List.mem_cons_self
      omega

theorem above_old (ne : y ≠ t) :
    Above ((c, vs ++ [t]) :: rest) x y ↔ Above ((c, vs) :: rest) x y := by
  constructor
  · intro above
    induction above with
    | refl => exact .refl
    | @tail z y above hands ih =>
      rcases (hands_iff t).mp hands with hands | ⟨-, eq⟩
      · have old : z ≠ t := by
          intro eq
          obtain ⟨ws, mem, -⟩ := hands
          have lt := grown.target_lt z ws mem
          omega
        exact .tail (ih old) hands
      · exact (ne eq).elim
  · exact Relation.ReflTransGen.mono (fun _ _ hands => (hands_iff t).mpr (.inl hands)) _ _

theorem above_to_new (ne : x ≠ t) :
    Above ((c, vs ++ [t]) :: rest) x t ↔ Above ((c, vs) :: rest) x c := by
  have c_ne : c ≠ t := by
    rintro rfl
    have lt := grown.target_lt c vs List.mem_cons_self
    omega
  rw [← above_old grown new c_ne]
  constructor
  · intro above
    rcases Relation.ReflTransGen.cases_tail above with eq | ⟨z, above, hands⟩
    · exact (ne eq.symm).elim
    · rcases (hands_iff t).mp hands with hands | ⟨rfl, -⟩
      · have lt := (grown.lt z t hands).2
        omega
      · exact above
  · exact fun above => above.tail ((hands_iff t).mpr (.inr ⟨rfl, rfl⟩))

theorem later_old (x_ne : x ≠ t) (y_ne : y ≠ t) :
    Later ((c, vs ++ [t]) :: rest) x y ↔ Later ((c, vs) :: rest) x y := by
  constructor
  · rintro ⟨c', ws, u, v, mem, first, above, above'⟩
    have v_ne : v ≠ t := by
      rintro rfl
      exact x_ne (above_new grown new above)
    have u_ne : u ≠ t := by
      rintro rfl
      exact y_ne (above_new grown new above')
    rw [above_old grown new x_ne] at above
    rw [above_old grown new y_ne] at above'
    rcases List.mem_cons.mp mem with eq | mem
    · cases eq
      refine ⟨c, vs, u, v, List.mem_cons_self, ?_, above, above'⟩
      rcases Precedes.append_iff.mp first with first | ⟨-, mem⟩ | first
      · exact first
      · exact (v_ne (List.mem_singleton.mp mem)).elim
      · exact (v_ne (List.mem_singleton.mp first.right_mem)).elim
    · exact ⟨c', ws, u, v, List.mem_cons_of_mem _ mem, first, above, above'⟩
  · rintro ⟨c', ws, u, v, mem, first, above, above'⟩
    rw [← above_old grown new x_ne] at above
    rw [← above_old grown new y_ne] at above'
    rcases List.mem_cons.mp mem with eq | mem
    · cases eq
      exact ⟨c, vs ++ [t], u, v, List.mem_cons_self, Precedes.append_iff.mpr (.inl first), above,
        above'⟩
    · exact ⟨c', ws, u, v, List.mem_cons_of_mem _ mem, first, above, above'⟩

/-- What comes before the new variable below a later slot comes before the one that it is handed
    to. -/
theorem later_to_new (x_ne : x ≠ t) :
    Later ((c, vs ++ [t]) :: rest) x t ↔ Later ((c, vs) :: rest) x c := by
  have grown' := Grown.hand grown new
  have c_ne : c ≠ t := by
    have lt := grown.target_lt c vs List.mem_cons_self
    omega
  rw [← later_old grown new x_ne c_ne]
  constructor
  · rintro ⟨c', ws, u, v, mem, first, above, above'⟩
    have v_ne : v ≠ t := by
      rintro rfl
      exact x_ne (above_new grown new above)
    have u_ne : u ≠ t := by
      rintro rfl
      -- the new variable is in the last slot
      have eq := grown'.parent _ _ _ ⟨ws, mem, first.left_mem⟩ ⟨_, List.mem_cons_self, by simp⟩
      subst eq
      rw [grown'.slots_eq mem] at first
      have nodup := grown'.nodup _ _ List.mem_cons_self
      exact List.not_mem_nil ((Precedes.split_iff nodup).mp first)
    exact ⟨c', ws, u, v, mem, first, above, (above_old grown new c_ne).mpr
      ((above_to_new grown new u_ne).mp above')⟩
  · rintro ⟨c', ws, u, v, mem, first, above, above'⟩
    exact ⟨c', ws, u, v, mem, first, above,
      above'.tail ((hands_iff t).mpr (.inr ⟨rfl, rfl⟩))⟩

/-- The new variable comes before what is below an earlier slot, be it of the one that it is handed
    to or further up. -/
theorem new_later (y_ne : y ≠ t) (ne : y ≠ c) :
    Later ((c, vs ++ [t]) :: rest) t y ↔
      Above ((c, vs) :: rest) c y ∨ Later ((c, vs) :: rest) c y := by
  have grown' := Grown.hand grown new
  have c_ne : c ≠ t := by
    have lt := grown.target_lt c vs List.mem_cons_self
    omega
  rw [← later_old grown new c_ne y_ne]
  constructor
  · rintro ⟨c', ws, u, v, mem, first, above, above'⟩
    by_cases eq : v = t
    · subst eq
      have eq := grown'.parent _ _ _ ⟨ws, mem, first.right_mem⟩ ⟨_, List.mem_cons_self, by simp⟩
      subst eq
      left
      rw [← above_old grown new y_ne]
      exact .head ⟨ws, mem, first.left_mem⟩ above'
    · right
      exact ⟨c', ws, u, v, mem, first, (above_old grown new c_ne).mpr
        ((above_to_new grown new eq).mp above), above'⟩
  · rintro (above | ⟨c', ws, u, v, mem, first, above, above'⟩)
    · rcases Relation.ReflTransGen.cases_head above with eq | ⟨u, ⟨ws, mem, mem'⟩, above⟩
      · exact (ne eq.symm).elim
      · rw [grown.slots_eq mem] at mem'
        refine ⟨c, vs ++ [t], u, t, List.mem_cons_self, ?_, .refl,
          (above_old grown new y_ne).mpr above⟩
        exact Precedes.append_iff.mpr (.inr (.inl ⟨mem', List.mem_singleton_self t⟩))
    · exact ⟨c', ws, u, v, mem, first, above.tail ((hands_iff t).mpr (.inr ⟨rfl, rfl⟩)), above'⟩

/-- The new variable does not come before the one that it is handed to. -/
theorem not_new_later : ¬ Later ((c, vs ++ [t]) :: rest) t c := by
  have grown' := Grown.hand grown new
  have c_ne : c ≠ t := by
    have lt := grown.target_lt c vs List.mem_cons_self
    omega
  rintro ⟨c', ws, u, v, mem, first, above, above'⟩
  have hands : Hands ((c, vs ++ [t]) :: rest) c t := (hands_iff t).mpr (.inr ⟨rfl, rfl⟩)
  have eq := grown'.slot_eq ⟨ws, mem, first.left_mem⟩ ⟨ws, mem, first.right_mem⟩
    (above'.tail hands) above
  rw [eq] at first
  exact first.asymm (grown'.nodup c' ws mem) first

variable {known : Nat → Prop} {front back : List Nat}

/-- A slot whose variable does not join the line. -/
theorem InOrder.hand_on {line : List Nat} (ordered : InOrder known ((c, vs) :: rest) line)
    (lt : ∀ x ∈ line, x < n) : InOrder known ((c, vs ++ [t]) :: rest) line := by
  intro x x_mem y y_mem ne x_known y_known
  have x_lt := lt x x_mem
  have y_lt := lt y y_mem
  rw [above_old grown new (by omega), later_old grown new (by omega) (by omega)]
  exact ordered x x_mem y y_mem ne x_known y_known

/-- A slot whose variable joins the line, right behind the one that it is handed to. -/
theorem InOrder.hand (ordered : InOrder known ((c, vs) :: rest) (front ++ c :: back))
    (nodup : (front ++ c :: back).Nodup) (lt : ∀ x ∈ front ++ c :: back, x < n)
    (c_known : known c) : InOrder known ((c, vs ++ [t]) :: rest) (front ++ c :: t :: back) := by
  have c_mem : c ∈ front ++ c :: back := by simp
  have c_lt := lt c c_mem
  have out : t ∉ front ++ c :: back := fun mem => by
    have t_lt := lt t mem
    omega
  have nodup' : ((front ++ [c]) ++ t :: back).Nodup := by
    refine (List.perm_middle.nodup_iff).mpr (List.nodup_cons.mpr ⟨?_, ?_⟩) <;>
      rwa [List.append_assoc]
  have old {x : Nat} (mem : x ∈ front ++ c :: t :: back) (ne : x ≠ t) : x ∈ front ++ c :: back := by
    simp only [List.mem_append, List.mem_cons] at mem ⊢
    exact mem.imp_right fun mem => mem.imp_right fun mem => mem.resolve_left ne
  have line : front ++ c :: t :: back = (front ++ [c]) ++ t :: back := by simp
  intro x x_mem y y_mem ne x_known y_known
  by_cases x_eq : x = t
  · -- the new variable comes before what its giver comes before
    subst x_eq
    have y_old := old y_mem (Ne.symm ne)
    rw [line, Precedes.split_iff nodup']
    by_cases y_eq : y = c
    · subst y_eq
      have y_out : y ∉ back := (List.nodup_cons.mp (List.nodup_append.mp nodup).2.1).1
      refine ⟨fun mem => (y_out mem).elim, ?_⟩
      rintro (above | later)
      · exact (ne (above_new grown new above).symm).elim
      · exact (not_new_later grown new later).elim
    · rw [new_later grown new (Ne.symm ne) y_eq,
        ← ordered c c_mem y y_old (Ne.symm y_eq) c_known y_known, Precedes.split_iff nodup]
      exact ⟨.inr, fun either => either.resolve_left fun above =>
        ne (above_new grown new above).symm⟩
  · have x_old := old x_mem x_eq
    by_cases y_eq : y = t
    · -- it comes after its giver and what its giver comes after
      subst y_eq
      rw [line, Precedes.split_iff' nodup', above_to_new grown new ne, later_to_new grown new ne]
      by_cases x_c : x = c
      · subst x_c
        exact ⟨fun _ => .inl .refl, fun _ => by simp⟩
      · rw [← ordered x x_old c c_mem x_c x_known c_known, Precedes.split_iff' nodup,
          List.mem_append, List.mem_singleton, or_iff_left x_c]
    · have y_old := old y_mem y_eq
      rw [above_old grown new y_eq, later_old grown new x_eq y_eq,
        ← ordered x x_old y y_old ne x_known y_known, line, Precedes.insert_iff x_eq y_eq,
        List.append_assoc]
      rfl

end Hand

end Forest

end ObjectGraph
