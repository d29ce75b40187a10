import ObjectGraph.Proofs.Plan.Origin
import ObjectGraph.Proofs.Plan.Targets

/-
  Where a block makes the values from outside.

  A value from outside may be handed out many times, so it has no place in the forest of a block.  It
  joins the line when the walk comes across it first, right behind the variable that takes it up
  (`Forest.Joins`).  What is handed to that one for later slots then joins in between.  So all that
  comes before the value are the variables before its taker, the taker, and what is below later slots
  of the taker.

  `Stage.Joined` is the invariant of a walk.  A block whose root is a value from outside is left out;
  there is nothing else to it.
-/

namespace ObjectGraph

open Arena

/-! ## Variables that join the line -/

namespace Forest

variable {known : Nat → Prop} {F R f r : Forest} {n c d s t x y v : Nat} {vs ws line front back : List Nat}

/-- `c` is handed `v` for a later slot than `t`. -/
def After (F : Forest) (c t v : Nat) : Prop := ∃ vs, (c, vs) ∈ F ∧ Precedes vs t v

/-- The variable `t`, for which `known` fails, has joined the line behind `c`, the first of all that
    are handed `t` to be taken up.  `F` tells what all are handed, and `f` the known part of it. -/
structure Joins (known : Nat → Prop) (F f : Forest) (line : List Nat) (t c : Nat) : Prop where
  hands : Hands F c t
  first : ∀ x, Hands F x t → ¬ Precedes line x c
  precedes_iff : ∀ y ∈ line, known y → (Precedes line y t ↔
    Precedes line y c ∨ y = c ∨ ∃ v, After F c t v ∧ known v ∧ Above f v y)

theorem After.hands (after : After F c t v) : Hands F c t ∧ Hands F c v := by
  obtain ⟨vs, mem, first⟩ := after
  exact ⟨⟨vs, mem, first.left_mem⟩, ⟨vs, mem, first.right_mem⟩⟩

theorem after_take : After ((d, []) :: F) c t v ↔ After F c t v := by
  constructor
  · rintro ⟨vs, mem, first⟩
    rcases List.mem_cons.mp mem with eq | mem
    · cases eq
      cases first
    · exact ⟨vs, mem, first⟩
  · exact fun ⟨vs, mem, first⟩ => ⟨vs, List.mem_cons_of_mem _ mem, first⟩

/-- What is handed on last comes behind all that is handed on before. -/
theorem after_iff (s : Nat) : After ((d, vs ++ [s]) :: R) c t v ↔
    After ((d, vs) :: R) c t v ∨ c = d ∧ t ∈ vs ∧ v = s := by
  constructor
  · rintro ⟨ws, mem, first⟩
    rcases List.mem_cons.mp mem with eq | mem
    · cases eq
      rcases Precedes.append_iff.mp first with first | ⟨mem, mem'⟩ | first
      · exact .inl ⟨vs, List.mem_cons_self, first⟩
      · exact .inr ⟨rfl, mem, List.mem_singleton.mp mem'⟩
      · exact absurd first (by simp [Precedes])
    · exact .inl ⟨ws, List.mem_cons_of_mem _ mem, first⟩
  · rintro (⟨ws, mem, first⟩ | ⟨rfl, mem, rfl⟩)
    · rcases List.mem_cons.mp mem with eq | mem
      · cases eq
        exact ⟨vs ++ [s], List.mem_cons_self, Precedes.append_iff.mpr (.inl first)⟩
      · exact ⟨ws, List.mem_cons_of_mem _ mem, first⟩
    · exact ⟨vs ++ [v], List.mem_cons_self,
        Precedes.append_iff.mpr (.inr (.inl ⟨mem, List.mem_singleton_self v⟩))⟩

theorem Joins.take (joins : Joins known F f line t c) :
    Joins known ((d, []) :: F) ((d, []) :: f) line t c where
  hands := by rw [hands_take]; exact joins.hands
  first := by rw [hands_take]; exact joins.first
  precedes_iff := by
    simp only [after_take, Above, hands_take]
    exact joins.precedes_iff

/-! ### A line with one more variable -/

theorem line_behind : front ++ d :: s :: back = (front ++ [d]) ++ s :: back := by
  rw [List.append_assoc]
  rfl

/-- An item put into a line leaves the order of the others. -/
theorem precedes_behind (x_ne : x ≠ s) (y_ne : y ≠ s) :
    Precedes (front ++ d :: s :: back) x y ↔ Precedes (front ++ d :: back) x y := by
  rw [line_behind, Precedes.insert_iff x_ne y_ne, List.append_assoc]
  rfl

theorem nodup_behind (nodup : (front ++ d :: back).Nodup) (out : s ∉ front ++ d :: back) :
    ((front ++ [d]) ++ s :: back).Nodup := by
  refine (List.perm_middle.nodup_iff).mpr (List.nodup_cons.mpr ⟨?_, ?_⟩) <;>
    rwa [List.append_assoc]

theorem mem_line_of_mem (back : List Nat) (mem : x ∈ front ++ [d]) : x ∈ front ++ d :: back := by
  rw [List.append_cons]
  exact List.mem_append_left back mem

theorem mem_line_of_ne (mem : y ∈ front ++ d :: s :: back) (ne : y ≠ s) :
    y ∈ front ++ d :: back := by
  simp only [List.mem_append, List.mem_cons] at mem ⊢
  exact mem.imp_right fun mem => mem.imp_right fun mem => mem.resolve_left ne

/-! ### One more slot -/

section Known

variable (grown : Grown n ((d, ws) :: r)) (new : n ≤ s)
include grown new

/-- The new variable is known and stands at the end, so it does not matter for what is in line. -/
theorem below_later_iff (ne : y ≠ s) :
    (∃ v, After ((d, vs ++ [s]) :: R) c t v ∧ known v ∧ Above ((d, ws ++ [s]) :: r) v y) ↔
      ∃ v, After ((d, vs) :: R) c t v ∧ known v ∧ Above ((d, ws) :: r) v y := by
  constructor
  · rintro ⟨v, after, v_known, above⟩
    rcases (after_iff s).mp after with after | ⟨-, -, rfl⟩
    · exact ⟨v, after, v_known, (above_old grown new ne).mp above⟩
    · exact (ne (above_new grown new above)).elim
  · rintro ⟨v, after, v_known, above⟩
    exact ⟨v, (after_iff s).mpr (.inl after), v_known, (above_old grown new ne).mpr above⟩

/-- A slot whose variable does not join the line. -/
theorem Joins.hand_on (joins : Joins known ((d, vs) :: R) ((d, ws) :: r) line t c)
    (t_ne : t ≠ s) (lt : ∀ x ∈ line, x < n) :
    Joins known ((d, vs ++ [s]) :: R) ((d, ws ++ [s]) :: r) line t c where
  hands := (hands_iff s).mpr (.inl joins.hands)
  first x hands := joins.first x (((hands_iff s).mp hands).resolve_right fun last => t_ne last.2)
  precedes_iff y mem y_known := by
    have y_lt := lt y mem
    rw [below_later_iff grown new (by omega)]
    exact joins.precedes_iff y mem y_known

/-- A slot whose variable joins the line: it comes before `t` if the one that it is handed to does. -/
theorem Joins.hand (joins : Joins known ((d, vs) :: R) ((d, ws) :: r) (front ++ d :: back) t c)
    (nodup : (front ++ d :: back).Nodup) (lt : ∀ x ∈ front ++ d :: back, x < n)
    (once : d ∉ R.map Prod.fst) (takers : ∀ x y, Hands ((d, vs) :: R) x y → x ∈ front ++ [d])
    (slots_lt : ∀ x y, Hands ((d, vs) :: R) x y → y < n) (t_mem : t ∈ front ++ d :: back)
    (d_known : known d) (s_known : known s) :
    Joins known ((d, vs ++ [s]) :: R) ((d, ws ++ [s]) :: r) (front ++ d :: s :: back) t c := by
  have apart {x : Nat} (mem : x ∈ front ++ d :: back) : x ≠ s := by
    have x_lt := lt x mem
    omega
  have out : s ∉ front ++ d :: back := fun mem => apart mem rfl
  have c_mem := mem_line_of_mem back (takers c t joins.hands)
  have t_ne := apart t_mem
  have c_ne := apart c_mem
  refine ⟨(hands_iff s).mpr (.inl joins.hands), fun x hands => ?_, fun y y_mem y_known => ?_⟩
  · have hands := ((hands_iff s).mp hands).resolve_right fun last => t_ne last.2
    rw [precedes_behind (apart (mem_line_of_mem back (takers x t hands))) c_ne]
    exact joins.first x hands
  · by_cases eq : y = s
    · -- the new variable comes before what its giver comes before
      subst eq
      have d_mem : d ∈ front ++ d :: back := by simp
      have old := joins.precedes_iff d d_mem d_known
      rw [Precedes.split_iff nodup, Precedes.split_iff nodup] at old
      have nodup' := nodup_behind nodup out
      rw [line_behind, Precedes.split_iff nodup', Precedes.split_iff nodup', old]
      constructor
      · rintro (mem | rfl | ⟨v, after, v_known, above⟩)
        · exact .inl mem
        · obtain ⟨ws', mem, t_mem⟩ := joins.hands
          have known_slots : ws' = vs := by
            rcases List.mem_cons.mp mem with eq | mem
            · cases eq
              rfl
            · exact (once (List.mem_map_of_mem mem)).elim
          exact .inr (.inr ⟨y, (after_iff y).mpr (.inr ⟨rfl, known_slots ▸ t_mem, rfl⟩), s_known, .refl⟩)
        · have v_ne : v ≠ y := by
            have v_lt := slots_lt c v after.hands.2
            omega
          exact .inr (.inr ⟨v, (after_iff y).mpr (.inl after), v_known,
            (above_to_new grown new v_ne).mpr above⟩)
      · rintro (mem | eq | ⟨v, after, v_known, above⟩)
        · exact .inl mem
        · exact (c_ne eq.symm).elim
        · rcases (after_iff y).mp after with after | ⟨rfl, -⟩
          · have v_ne : v ≠ y := by
              have v_lt := slots_lt c v after.hands.2
              omega
            exact .inr (.inr ⟨v, after, v_known, (above_to_new grown new v_ne).mp above⟩)
          · exact .inr (.inl rfl)
    · rw [precedes_behind eq t_ne, precedes_behind eq c_ne, below_later_iff grown new eq]
      exact joins.precedes_iff y (mem_line_of_ne y_mem eq) y_known

end Known

section Unknown

variable (unknown : ¬ known s)
include unknown

/-- What is below later slots does not change with a variable that is not spoken of. -/
theorem below_later_iff_of_unknown :
    (∃ v, After ((d, vs ++ [s]) :: R) c t v ∧ known v ∧ Above f v y) ↔
      ∃ v, After ((d, vs) :: R) c t v ∧ known v ∧ Above f v y := by
  constructor
  · rintro ⟨v, after, v_known, above⟩
    rcases (after_iff s).mp after with after | ⟨-, -, rfl⟩
    · exact ⟨v, after, v_known, above⟩
    · exact (unknown v_known).elim
  · rintro ⟨v, after, v_known, above⟩
    exact ⟨v, (after_iff s).mpr (.inl after), v_known, above⟩

/-- One more variable is handed something that is there already: it is not the first one. -/
theorem Joins.again (joins : Joins known ((d, vs) :: R) f (front ++ d :: back) t c)
    (nodup : (front ++ d :: back).Nodup)
    (takers : ∀ x y, Hands ((d, vs) :: R) x y → x ∈ front ++ [d]) :
    Joins known ((d, vs ++ [s]) :: R) f (front ++ d :: back) t c where
  hands := (hands_iff s).mpr (.inl joins.hands)
  first x hands := by
    rcases (hands_iff s).mp hands with hands | ⟨rfl, -⟩
    · exact joins.first x hands
    · -- what has been taken up so far does not stand behind the current variable
      rw [Precedes.split_iff nodup]
      intro behind
      have nodup : ((front ++ [x]) ++ back).Nodup := by rwa [List.append_assoc]
      exact (List.nodup_append.mp nodup).2.2 c (takers c t joins.hands) c behind rfl
  precedes_iff y mem y_known := by
    rw [below_later_iff_of_unknown unknown]
    exact joins.precedes_iff y mem y_known

/-- One more value joins the line behind the one that it is handed to. -/
theorem Joins.insert (joins : Joins known ((d, vs) :: R) f (front ++ d :: back) t c)
    (out : s ∉ front ++ d :: back) (t_mem : t ∈ front ++ d :: back)
    (takers : ∀ x y, Hands ((d, vs) :: R) x y → x ∈ front ++ [d]) :
    Joins known ((d, vs ++ [s]) :: R) f (front ++ d :: s :: back) t c := by
  have apart {x : Nat} (mem : x ∈ front ++ d :: back) : x ≠ s := fun eq => out (eq ▸ mem)
  have t_ne := apart t_mem
  have c_ne := apart (mem_line_of_mem back (takers c t joins.hands))
  refine ⟨(hands_iff s).mpr (.inl joins.hands), fun x hands => ?_, fun y y_mem y_known => ?_⟩
  · have hands := ((hands_iff s).mp hands).resolve_right fun last => t_ne last.2
    rw [precedes_behind (apart (mem_line_of_mem back (takers x t hands))) c_ne]
    exact joins.first x hands
  · have y_ne : y ≠ s := fun eq => unknown (eq ▸ y_known)
    rw [precedes_behind y_ne t_ne, precedes_behind y_ne c_ne, below_later_iff_of_unknown unknown]
    exact joins.precedes_iff y (mem_line_of_ne y_mem y_ne) y_known

end Unknown

/-- A value that was not handed to anything yet joins the line behind the first one to take it. -/
theorem joins_new (nodup : (front ++ d :: back).Nodup) (out : s ∉ front ++ d :: back)
    (free : ∀ x, ¬ Hands ((d, vs) :: R) x s) :
    Joins known ((d, vs ++ [s]) :: R) f (front ++ d :: s :: back) s d := by
  have nodup' := nodup_behind nodup out
  have nodup'' : (front ++ d :: s :: back).Nodup := by rwa [line_behind]
  refine ⟨(hands_iff s).mpr (.inr ⟨rfl, rfl⟩), fun x hands => ?_, fun y y_mem y_known => ?_⟩
  · obtain ⟨rfl, -⟩ := ((hands_iff s).mp hands).resolve_left (free x)
    exact fun twice => twice.asymm nodup'' twice
  · have none : ¬ ∃ v, After ((d, vs ++ [s]) :: R) d s v ∧ known v ∧ Above f v y := by
      rintro ⟨v, after, -⟩
      rcases (after_iff s).mp after with after | ⟨-, mem, -⟩
      · exact free d after.hands.1
      · exact free d ⟨vs, List.mem_cons_self, mem⟩
    rw [or_iff_left none, Precedes.split_iff' nodup'', line_behind, Precedes.split_iff' nodup',
      List.mem_append, List.mem_singleton]


end Forest

/-! ## The line of a block -/

variable {g : Graph} {a a' before : Arena}

namespace Instantiation

/-- What each of some instantiations is handed, by slot. -/
def slots (is : List Instantiation) : Forest := is.map fun i => (i.target, i.supplies.map (·.var))

/-- Who hands on what is told by the supplies. -/
theorem hands_slots_iff {is : List Instantiation} {x y : VariableId} :
    Forest.Hands (slots is) x y ↔ ∃ i ∈ is, i.target = x ∧ ∃ s ∈ i.supplies, s.var = y := by
  constructor
  · rintro ⟨vs, mem, mem'⟩
    obtain ⟨i, i_mem, eq⟩ := List.mem_map.mp mem
    cases eq
    obtain ⟨s, s_mem, rfl⟩ := List.mem_map.mp mem'
    exact ⟨i, i_mem, rfl, s, s_mem, rfl⟩
  · rintro ⟨i, i_mem, rfl, s, s_mem, rfl⟩
    exact ⟨_, List.mem_map.mpr ⟨i, i_mem, rfl⟩, List.mem_map_of_mem s_mem⟩

/-- Each value from outside in the line of some instantiations has joined it, or is all there is. -/
def Joined (g : Graph) (a : Arena) (is : List Instantiation) (line : List VariableId) : Prop :=
  ∀ t ∈ line, ¬ a.Inside g t →
    line = [t] ∨ ∃ c, Forest.Joins (a.Inside g) (slots is) (forest g a is) line t c

/-- The current block while an instantiation is supplied, in an arena that had `n` variables: those
    taken up, the current one, and those `back` on the stack. -/
structure Current (g : Graph) (a : Arena) (n : Nat) (target : VariableId) (supplies : List Supply)
    (made : List Instantiation) (back : List VariableId) : Prop where
  grown : Forest.Grown n (forest g a ({ target, supplies } :: made))
  nodup : ((made.map (·.target)).reverse ++ target :: back).Nodup
  lt : ∀ x ∈ (made.map (·.target)).reverse ++ target :: back, x < n
  slots_lt : ∀ i ∈ { target, supplies } :: made, ∀ s ∈ i.supplies, s.var < n
  giver : a.Inside g target

namespace Current

variable {n : Nat} {target : VariableId} {supplies : List Supply} {made : List Instantiation}
  {back : List VariableId} {s : Supply}

theorem slots_append (target : VariableId) (supplies : List Supply) (made : List Instantiation)
    (s : Supply) : slots ({ target, supplies := supplies ++ [s] } :: made) =
      (target, supplies.map (·.var) ++ [s.var]) :: slots made := by
  simp [slots]

theorem forest_append (g : Graph) (a : Arena) (target : VariableId) (supplies : List Supply)
    (made : List Instantiation) (s : Supply) :
    forest g a ({ target, supplies := supplies ++ [s] } :: made) =
      (target, needs g a { target, supplies } ++
        if (a.node g s.var).isOutside then [] else [s.var]) :: forest g a made := by
  rw [forest, List.map_cons, needs_append, ← forest]

/-- What takes something has been taken up. -/
theorem takers {x y : VariableId} (hands : Forest.Hands (slots ({ target, supplies } :: made)) x y) :
    x ∈ (made.map (·.target)).reverse ++ [target] := by
  obtain ⟨i, i_mem, rfl, -⟩ := hands_slots_iff.mp hands
  rcases List.mem_cons.mp i_mem with rfl | i_mem
  · simp
  · exact List.mem_append_left _ (List.mem_reverse.mpr (List.mem_map_of_mem i_mem))

variable (current : Current g a n target supplies made back)
include current

theorem hands_lt (x y : VariableId) (hands : Forest.Hands (slots ({ target, supplies } :: made)) x y) :
    y < n := by
  obtain ⟨i, i_mem, -, s, s_mem, rfl⟩ := hands_slots_iff.mp hands
  exact current.slots_lt i i_mem s s_mem

theorem once : target ∉ (slots made).map Prod.fst := by
  have eq : (slots made).map Prod.fst = made.map (·.target) := by
    rw [slots, List.map_map]
    rfl
  rw [eq]
  intro mem
  exact (List.nodup_append.mp current.nodup).2.2 target (List.mem_reverse.mpr mem) target
    List.mem_cons_self rfl

variable (joined : Joined g a ({ target, supplies } :: made)
  ((made.map (·.target)).reverse ++ target :: back))
include joined

/-- A value from outside is not all that there is in the line, since the current variable is there as
    well. -/
theorem exists_joins {t : VariableId} (mem : t ∈ (made.map (·.target)).reverse ++ target :: back)
    (outside : ¬ a.Inside g t) : ∃ c, Forest.Joins (a.Inside g)
      ((target, supplies.map (·.var)) :: slots made)
      ((target, needs g a { target, supplies }) :: forest g a made)
      ((made.map (·.target)).reverse ++ target :: back) t c := by
  refine (joined t mem outside).resolve_left fun alone => ?_
  have target_mem : target ∈ [t] := by
    rw [← alone]
    simp
  exact outside (List.mem_singleton.mp target_mem ▸ current.giver)

/-- A new value that is not from outside may be put behind the current one in the line ... -/
theorem hand (inside : a.Inside g s.var) (new : n ≤ s.var) :
    Joined g a ({ target, supplies := supplies ++ [s] } :: made)
      ((made.map (·.target)).reverse ++ target :: s.var :: back) := by
  intro t mem outside
  have mem := Forest.mem_line_of_ne mem fun eq => outside (eq ▸ inside)
  obtain ⟨c, joins⟩ := current.exists_joins joined mem outside
  rw [slots_append, forest_append, inside, if_neg Bool.false_ne_true]
  exact .inr ⟨c, joins.hand current.grown new current.nodup current.lt current.once (fun _ _ => takers)
    current.hands_lt mem current.giver inside⟩

/-- ... or be made elsewhere. -/
theorem hand_on (inside : a.Inside g s.var) (new : n ≤ s.var) :
    Joined g a ({ target, supplies := supplies ++ [s] } :: made)
      ((made.map (·.target)).reverse ++ target :: back) := by
  intro t mem outside
  obtain ⟨c, joins⟩ := current.exists_joins joined mem outside
  rw [slots_append, forest_append, inside, if_neg Bool.false_ne_true]
  exact .inr ⟨c, joins.hand_on current.grown new (fun eq => outside (eq ▸ inside)) current.lt⟩

/-- A value from outside may be handed out once more. -/
theorem again (outside : ¬ a.Inside g s.var) :
    Joined g a ({ target, supplies := supplies ++ [s] } :: made)
      ((made.map (·.target)).reverse ++ target :: back) := by
  intro t mem t_outside
  obtain ⟨c, joins⟩ := current.exists_joins joined mem t_outside
  rw [slots_append, forest_append, if_pos (Bool.not_eq_false _ ▸ outside), List.append_nil]
  exact .inr ⟨c, joins.again outside current.nodup fun _ _ => takers⟩

/-- A new value from outside comes behind the current one in the line. -/
theorem insert (outside : ¬ a.Inside g s.var)
    (nodup : ((made.map (·.target)).reverse ++ target :: s.var :: back).Nodup)
    (free : ∀ i ∈ { target, supplies } :: made, ∀ s' ∈ i.supplies, s'.var ≠ s.var) :
    Joined g a ({ target, supplies := supplies ++ [s] } :: made)
      ((made.map (·.target)).reverse ++ target :: s.var :: back) := by
  have out : s.var ∉ (made.map (·.target)).reverse ++ target :: back := by
    rw [Forest.line_behind] at nodup
    have out := (List.nodup_cons.mp (List.perm_middle.nodup_iff.mp nodup)).1
    rwa [List.append_assoc] at out
  intro t mem t_outside
  rw [slots_append, forest_append, if_pos (Bool.not_eq_false _ ▸ outside), List.append_nil]
  by_cases eq : t = s.var
  · rw [eq]
    refine .inr ⟨target, Forest.joins_new current.nodup out fun x hands => ?_⟩
    have hands : Forest.Hands (slots ({ target, supplies } :: made)) x s.var := hands
    obtain ⟨i, i_mem, -, s', s'_mem, same⟩ := hands_slots_iff.mp hands
    exact free i i_mem s' s'_mem same
  · have mem := Forest.mem_line_of_ne mem eq
    obtain ⟨c, joins⟩ := current.exists_joins joined mem t_outside
    exact .inr ⟨c, joins.insert outside out mem fun _ _ => takers⟩

end Current

end Instantiation

namespace Stage

variable {st st' : Stage}

/-- The instantiations of the current block, the current one with what it has so far. -/
def part : Stage → List Instantiation
  | between _ _ => []
  | within _ _ _ made => made
  | supplying _ _ _ made target _ supplies _ => { target, supplies } :: made

/-- Where the values from outside are, at each stage of a walk, as told by a later arena. -/
structure Joined (g : Graph) (a : Arena) (st : Stage) : Prop where
  found : ∀ b ∈ st.found, Instantiation.Joined g a b.instantiations
    (b.instantiations.map (·.target)).reverse
  line : Instantiation.Joined g a st.part st.line

/-- What is put on a stack has not been handed out before. -/
theorem Supplied.not_handed (uniform : g.Uniform) (sound : Sound g before st)
    {root target : VariableId} {n : NodeId} {e : Edge} {p : Placed} {s : Supply}
    (supplied : Supplied g before st st' root target n e p s) (placed : p.placement ≠ .reference) :
    ∀ x ∈ st.handed, x.2.var ≠ s.var := by
  intro x mem eq
  have c' := (supplied.sound uniform sound).consistent
  have once := (supplied.due.map st'.arena.terminal).nodup_iff.mpr c'.due_nodup
  rw [Placed.dueAfter_of_ne placed, List.map_cons, List.nodup_cons] at once
  have provided := sound.consistent.provided_mono supplied.grown c'.linked (fun _ => id)
    (sound.provided x mem)
  rw [eq, supplied.effect.var] at provided
  exact once.1 provided.2

/-- The current block when a slot is supplied. -/
theorem current_of_supplied (uniform : g.Uniform) {w w' : Walk} {found : List Block}
    {root target : VariableId} {made : List Instantiation} {n : NodeId}
    {supplies supplies' : List Supply} {e : Edge} {rest rest' : List Edge} {p : Placed} {s : Supply}
    (sound : Sound g before (supplying w found root made target n supplies rest))
    (ordered : Ordered g (supplying w found root made target n supplies rest))
    (supplied : Supplied g before (supplying w found root made target n supplies rest)
      (supplying w' found root made target n supplies' rest') root target n e p s)
    (grows : w'.arena.Extends a) :
    Instantiation.Current g a w.arena.vars.size target supplies made w.targets where
  grown := by
    have grown : w.arena.Extends a := Extends.trans supplied.grown grows
    rw [Instantiation.forest_extends grown fun i mem =>
      sound.supply_lt i (List.mem_append_left _ mem)]
    exact ordered.grown
  nodup := sound.line_nodup
  lt := sound.line_lt
  slots_lt i mem := sound.supply_lt i (List.mem_append_left _ mem)
  giver := by
    have lt : target < w.arena.vars.size :=
      sound.consistent.due_lt target (mem_due_of_current supplied.current)
    rw [Arena.Inside, grows.node_eq (Nat.lt_of_lt_of_le lt supplied.grown.size_le)]
    exact supplied.giver uniform sound

/-- Supplying an edge joins what it hands on. -/
theorem Joined.supply (uniform : g.Uniform) {w : Walk} {found : List Block}
    {root target : VariableId} {made : List Instantiation} {n : NodeId} {supplies : List Supply}
    {e : Edge} {rest : List Edge}
    (sound : Sound g before (supplying w found root made target n supplies (e :: rest)))
    (ordered : Ordered g (supplying w found root made target n supplies (e :: rest)))
    (joined : Joined g a (supplying w found root made target n supplies (e :: rest)))
    (grows : (w.supply g root (g.node n) e).2.arena.Extends a) :
    Joined g a (supplying (w.supply g root (g.node n) e).2 found root made target n
      (supplies ++ [(w.supply g root (g.node n) e).1]) rest) := by
  have supplied := sound.supplied uniform
  set s := (w.supply g root (g.node n) e).1
  set w' := (w.supply g root (g.node n) e).2
  set p := w.place g root (Walk.isDeferredUse g (g.node n) e) e
  have current := current_of_supplied uniform sound ordered supplied grows
  have inside_iff : a.Inside g s.var ↔ _ := supplied.inside_iff uniform sound grows
  have targets : w'.targets = if p.placement = .inline then p.var :: w.targets else w.targets :=
    supplied.effect.targets
  have var : s.var = p.var := supplied.effect.var
  have made_new (inline : p.placement = .inline) : p.placement ≠ .reference := by
    rw [inline]
    decide
  refine ⟨joined.found, ?_⟩
  rw [part, Stage.line, targets, ← var]
  by_cases inside : a.Inside g s.var
  · have new : w.arena.vars.size ≤ s.var :=
      Nat.le_of_eq (supplied.var_eq (inside_iff.mp inside)).symm
    split
    · exact current.hand joined.line inside new
    · exact current.hand_on joined.line inside new
  · split
    · rename_i inline
      have free : ∀ i ∈ { target, supplies } :: made, ∀ s' ∈ i.supplies, s'.var ≠ s.var := by
        intro i i_mem s' s'_mem
        refine supplied.not_handed uniform sound (made_new inline) (i.target, s') ?_
        exact List.mem_flatMap.mpr ⟨i, List.mem_append_left _ i_mem, List.mem_map_of_mem s'_mem⟩
      have nodup : ((made.map (·.target)).reverse ++ target :: s.var :: w.targets).Nodup := by
        have nodup := (supplied.sound uniform sound).line_nodup
        rwa [Stage.line, targets, if_pos inline, ← var] at nodup
      exact current.insert joined.line inside nodup free
    · exact current.again joined.line inside

/-- Every step keeps instances and uses joined. -/
theorem Step.joined (uniform : g.Uniform) (sound : Sound g before st) (ordered : Ordered g st)
    (joined : Joined g a st) (grows : st'.arena.Extends a) (step : Step g st st') :
    Joined g a st' := by
  cases step with
  | openBlock w found root pending next idle =>
    exact ⟨joined.found, fun t mem _ => .inl (List.mem_singleton.mp mem ▸ rfl)⟩
  | closeBlock w found root made idle =>
    refine ⟨fun b mem => ?_, fun t mem => absurd mem List.not_mem_nil⟩
    rcases List.mem_cons.mp mem with rfl | mem
    · have line := joined.line
      rwa [Stage.line, idle, List.append_nil] at line
    · exact joined.found b mem
  | take w found root made target targets next =>
    refine ⟨joined.found, fun t mem outside => ?_⟩
    have line : (supplying { w with targets } found root made target
        (w.arena.var target).node [] (g.dependencies (w.arena.var target).node)).line =
        (within w found root made).line := by
      rw [Stage.line, Stage.line, next]
    rw [line] at mem ⊢
    exact (joined.line t mem outside).imp_right (Exists.imp fun _ joins => joins.take)
  | supply w found root made target n supplies e rest =>
    exact joined.supply uniform sound ordered grows
  | finish w found root made target n supplies =>
    have line : (within w found root ({ target, supplies } :: made)).line =
        (supplying w found root made target n supplies []).line := by
      simp [Stage.line]
    exact ⟨joined.found, line ▸ joined.line⟩

theorem Run.joined (uniform : g.Uniform) (sound : Sound g before st) (ordered : Ordered g st)
    (joined : Joined g a st) (run : Run g st st') (grows : st'.arena.Extends a) :
    Joined g a st' := by
  induction run with
  | refl => exact joined
  | tail earlier step ih =>
    exact step.joined uniform (Run.sound uniform sound earlier)
      (Run.ordered uniform sound ordered earlier) (ih ((Run.extends (.single step)).trans grows))
      grows

end Stage

/-- In every block of a tour, the values from outside have joined the line. -/
theorem Tour.Traced.joined (uniform : g.Uniform) {t : Tour} {first last : Walk}
    (traced : t.Traced g before first last) (grows : t.arena.Extends a) {b : Block}
    (mem : b ∈ t.blocks) :
    Instantiation.Joined g a b.instantiations (b.instantiations.map (·.target)).reverse := by
  have joined : Stage.Joined g a (.between first []) := ⟨nofun, nofun⟩
  exact (traced.run.joined uniform traced.sound (Stage.ordered_between first) joined
    (traced.arena_eq ▸ grows)).found b (List.mem_reverse.mpr mem)

end ObjectGraph
