import Mathlib.Logic.Relation
import ObjectGraph.Type.System

/-
  Assignability is reachability by declared base types.

  The search looks at one pending type in each turn.  `Search.Sound` is what a turn keeps: all
  pending types are reachable, and of every type that was seen each base type is seen or pending.
  So when nothing is pending any more, the types that were seen are closed under base types, and the
  requested type, which is not among them, is out of reach.

  The search ends whatever the table says, cycles and shared bases included: `turnsLeft` drops by one
  in each turn.  `Search.Ends` says so of the turns themselves.
-/

namespace ObjectGraph

namespace TypeSystem

variable {ts : TypeSystem} {goal t u c : TypeTerm}

/-- `u` is declared as a base type of `t`. -/
def Declares (ts : TypeSystem) (t u : TypeTerm) : Prop := ∃ bases, (t, bases) ∈ ts.bases ∧ u ∈ bases

theorem mem_basesOf : u ∈ ts.basesOf t ↔ ts.Declares t u := by
  simp only [basesOf, List.mem_flatMap, List.mem_filter, beq_iff_eq]
  constructor
  · rintro ⟨⟨t, bases⟩, ⟨entry, rfl⟩, mem⟩
    exact ⟨bases, entry, mem⟩
  · rintro ⟨bases, entry, mem⟩
    exact ⟨(t, bases), ⟨entry, rfl⟩, mem⟩

/-- At first all base types are yet to be taken up. -/
theorem unseenBases_nil (ts : TypeSystem) : ts.unseenBases [] = ts.bases.flatMap (·.2) :=
  congrArg (List.flatMap _) (List.filter_eq_self.mpr fun _ _ => rfl)

namespace Search

variable {s s' : Search} {found : Bool}

/-! ## A turn -/

/-- What a turn can be: the end of the search, a type that was seen already, or a new one. -/
inductive Turned (ts : TypeSystem) (goal : TypeTerm) : Search → Bool ⊕ Search → Prop where
  | exhausted (seen : List TypeTerm) : Turned ts goal ⟨[], seen⟩ (.inl false)
  | hit (rest seen : List TypeTerm) : Turned ts goal ⟨goal :: rest, seen⟩ (.inl true)
  | passed (t : TypeTerm) (rest seen : List TypeTerm) (known : t ∈ seen) :
      Turned ts goal ⟨t :: rest, seen⟩ (.inr ⟨rest, seen⟩)
  | opened (t : TypeTerm) (rest seen : List TypeTerm) (ne : t ≠ goal) :
      Turned ts goal ⟨t :: rest, seen⟩ (.inr ⟨(ts.basesOf t).reverse ++ rest, t :: seen⟩)

theorem turned (ts : TypeSystem) (goal : TypeTerm) (s : Search) :
    Turned ts goal s (s.turn ts goal) := by
  obtain ⟨pending, seen⟩ := s
  cases pending with
  | nil => exact .exhausted seen
  | cons t rest =>
    simp only [turn]
    split
    · rename_i eq
      subst eq
      exact .hit rest seen
    · rename_i ne
      split
      · rename_i known
        exact .passed t rest seen (List.contains_iff_mem.mp known)
      · exact .opened t rest seen ne

/-! ## What the turns keep -/

/-- A search for `goal` that began with the type `c`: what is pending is reachable, and the types
    that were seen are closed under base types up to what is pending. -/
structure Sound (ts : TypeSystem) (c goal : TypeTerm) (s : Search) : Prop where
  reached : ∀ t ∈ s.pending, Relation.ReflTransGen ts.Declares c t
  start : c ∈ s.seen ∨ c ∈ s.pending
  closed : ∀ t ∈ s.seen, ∀ u, ts.Declares t u → u ∈ s.seen ∨ u ∈ s.pending
  unmet : goal ∉ s.seen

theorem sound_start (ts : TypeSystem) (c goal : TypeTerm) : Sound ts c goal { pending := [c] } where
  reached t mem := by
    rw [List.mem_singleton.mp mem]
  start := .inr List.mem_cons_self
  closed := nofun
  unmet := nofun

theorem Sound.turn (sound : Sound ts c goal s) (next : s.turn ts goal = .inr s') :
    Sound ts c goal s' := by
  have turned := turned ts goal s
  rw [next] at turned
  obtain ⟨reached, start, closed, unmet⟩ := sound
  cases turned with
  | passed t rest seen known =>
    -- what was pending at the front is seen, so nothing is lost
    have kept {u : TypeTerm} (mem : u ∈ seen ∨ u ∈ t :: rest) : u ∈ seen ∨ u ∈ rest := by
      rcases mem with mem | mem
      · exact .inl mem
      · rcases List.mem_cons.mp mem with rfl | mem
        · exact .inl known
        · exact .inr mem
    exact ⟨fun u mem => reached u (List.mem_cons_of_mem t mem), kept start,
      fun u mem v declared => kept (closed u mem v declared), unmet⟩
  | opened t rest seen ne =>
    have kept {u : TypeTerm} (mem : u ∈ seen ∨ u ∈ t :: rest) :
        u ∈ t :: seen ∨ u ∈ (ts.basesOf t).reverse ++ rest := by
      rcases mem with mem | mem
      · exact .inl (List.mem_cons_of_mem t mem)
      · rcases List.mem_cons.mp mem with rfl | mem
        · exact .inl List.mem_cons_self
        · exact .inr (List.mem_append_right _ mem)
    refine ⟨fun u mem => ?_, kept start, fun u mem v declared => ?_, ?_⟩
    · rcases List.mem_append.mp mem with mem | mem
      · have declared := mem_basesOf.mp (List.mem_reverse.mp mem)
        exact (reached t List.mem_cons_self).tail declared
      · exact reached u (List.mem_cons_of_mem t mem)
    · rcases List.mem_cons.mp mem with rfl | mem
      · exact .inr (List.mem_append_left _ (List.mem_reverse.mpr (mem_basesOf.mpr declared)))
      · exact kept (closed u mem v declared)
    · intro mem
      rcases List.mem_cons.mp mem with eq | mem
      · exact ne eq.symm
      · exact unmet mem

/-- When nothing is pending, everything within reach was seen. -/
theorem Sound.mem_seen (sound : Sound ts c goal s) (none : s.pending = [])
    (reach : Relation.ReflTransGen ts.Declares c t) : t ∈ s.seen := by
  have seen {u : TypeTerm} (mem : u ∈ s.seen ∨ u ∈ s.pending) : u ∈ s.seen :=
    mem.resolve_right (by rw [none]; exact List.not_mem_nil)
  induction reach with
  | refl => exact seen sound.start
  | tail _ declared ih => exact seen (sound.closed _ ih _ declared)

/-- The answer of a turn is right. -/
theorem Sound.right (sound : Sound ts c goal s) (stop : s.turn ts goal = .inl found) :
    found = true ↔ Relation.ReflTransGen ts.Declares c goal := by
  have turned := turned ts goal s
  rw [stop] at turned
  cases turned with
  | exhausted seen =>
    refine ⟨nofun, fun reach => ?_⟩
    exact absurd (sound.mem_seen rfl reach) sound.unmet
  | hit rest seen => exact ⟨fun _ => sound.reached goal List.mem_cons_self, fun _ => rfl⟩

/-! ## All turns -/

/-- The search for `goal` ends with an answer after a number of turns. -/
inductive Ends (ts : TypeSystem) (goal : TypeTerm) : Nat → Search → Bool → Prop where
  | stop {s : Search} {found : Bool} (answers : s.turn ts goal = .inl found) : Ends ts goal 1 s found
  | go {n : Nat} {s s' : Search} {found : Bool} (next : s.turn ts goal = .inr s')
      (later : Ends ts goal n s' found) : Ends ts goal (n + 1) s found

/-- Every search ends, and after no more turns than were left. -/
theorem ends_answer (ts : TypeSystem) (goal : TypeTerm) (s : Search) :
    ∃ turns ≤ s.turnsLeft ts + 1, Ends ts goal turns s (s.answer ts goal) := by
  fun_induction answer ts goal s with
  | case1 s found stop => exact ⟨1, Nat.le_add_left 1 _, .stop stop⟩
  | case2 s s' next ih =>
    obtain ⟨turns, le, later⟩ := ih
    rw [turnsLeft_turn next] at le
    exact ⟨turns + 1, Nat.succ_le_succ le, .go next later⟩

/-- The answer at the end is right. -/
theorem Sound.of_ends {turns : Nat} (sound : Sound ts c goal s)
    (ends : Ends ts goal turns s found) :
    found = true ↔ Relation.ReflTransGen ts.Declares c goal := by
  induction ends with
  | stop answers => exact sound.right answers
  | go next _ ih => exact ih (sound.turn next)

end Search

/-- The search for a requested type ends, with no more than two turns beyond one for each declared
    base type, and it finds the type exactly if declared base types lead to it. -/
theorem isAssignable_iff_reachable (ts : TypeSystem) (concrete requested : TypeTerm) :
    (∃ turns ≤ (ts.bases.flatMap (·.2)).length + 2,
      Search.Ends ts requested turns { pending := [concrete] }
        (ts.isAssignable concrete requested)) ∧
    (ts.isAssignable concrete requested = true ↔
      Relation.ReflTransGen ts.Declares concrete requested) := by
  obtain ⟨turns, le, ends⟩ := Search.ends_answer ts requested { pending := [concrete] }
  refine ⟨⟨turns, ?_, ends⟩, (Search.sound_start ts concrete requested).of_ends ends⟩
  rw [Search.turnsLeft, unseenBases_nil, List.length_singleton] at le
  omega

/-- Two types that are declared as bases of each other, and one that both lead to. -/
example : ∀ t ∈ ["A", "B", "C"].map TypeTerm.plain,
    isAssignable ⟨[], [(.plain "A", [.plain "B", .plain "C"]), (.plain "B", [.plain "A"]),
      (.plain "A", [.plain "C"])]⟩ t (.plain "C") = true := by
  decide +kernel

end TypeSystem

end ObjectGraph
