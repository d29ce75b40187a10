import Mathlib.Data.List.Nodup

/-
  Which of two items of a list comes first.

  `Precedes` is the order of a list as a relation.  What is shown of it is how it follows the way in
  which a list is put together, one item or one list after the other.
-/

namespace ObjectGraph

/-! ## Which of two comes first -/

/-- `x` stands somewhere before `y` in the list. -/
def Precedes {α : Type} (l : List α) (x y : α) : Prop := [x, y].Sublist l

instance {α : Type} [DecidableEq α] (l : List α) (x y : α) : Decidable (Precedes l x y) :=
  inferInstanceAs (Decidable ([x, y].Sublist l))

namespace Precedes

variable {α : Type} {l m : List α} {x y z : α}

/-- The first item comes before all others. -/
theorem cons_iff : Precedes (z :: l) x y ↔ x = z ∧ y ∈ l ∨ Precedes l x y := by
  simp only [Precedes, List.cons_sublist_cons', List.singleton_sublist]
  exact or_comm

/-- Items of the front come before those of the back. -/
theorem append_iff :
    Precedes (l ++ m) x y ↔ Precedes l x y ∨ x ∈ l ∧ y ∈ m ∨ Precedes m x y := by
  induction l with
  | nil => simp [Precedes]
  | cons z l ih =>
    rw [List.cons_append, cons_iff, cons_iff, ih, List.mem_append, List.mem_cons]
    grind

theorem reverse_iff : Precedes l.reverse x y ↔ Precedes l y x := by
  rw [Precedes, Precedes, ← List.reverse_sublist, List.reverse_reverse]
  rfl

theorem left_mem (first : Precedes l x y) : x ∈ l := first.subset List.mem_cons_self

theorem right_mem (first : Precedes l x y) : y ∈ l := first.subset (by simp)

/-- What stands at a smaller index comes first. -/
theorem of_getElem? {i j : Nat} (at_i : l[i]? = some x) (at_j : l[j]? = some y) (lt : i < j) :
    Precedes l x y := by
  induction l generalizing i j with
  | nil => cases at_i
  | cons z l ih =>
    obtain ⟨j, rfl⟩ := Nat.exists_eq_add_of_lt lt
    rw [List.getElem?_cons_succ] at at_j
    cases i with
    | zero =>
      cases at_i
      exact cons_iff.mpr (.inl ⟨rfl, List.mem_of_getElem? at_j⟩)
    | succ i => exact cons_iff.mpr (.inr (ih at_i at_j (by omega)))

/-- Without repetitions, only one of two items comes first ... -/
theorem asymm (nodup : l.Nodup) (first : Precedes l x y) : ¬ Precedes l y x := by
  induction l with
  | nil => cases first
  | cons z l ih =>
    obtain ⟨out, nodup⟩ := List.nodup_cons.mp nodup
    rw [cons_iff] at first ⊢
    rintro (⟨rfl, mem⟩ | second)
    · rcases first with ⟨rfl, mem⟩ | first
      · exact out mem
      · exact out first.right_mem
    · rcases first with ⟨rfl, mem⟩ | first
      · exact out second.right_mem
      · exact ih nodup first second

/-- ... and one of them does. -/
theorem total (ne : x ≠ y) (hx : x ∈ l) (hy : y ∈ l) : Precedes l x y ∨ Precedes l y x := by
  induction l with
  | nil => cases hx
  | cons z l ih =>
    rw [cons_iff, cons_iff]
    rcases List.mem_cons.mp hx with rfl | hx
    · exact .inl (.inl ⟨rfl, (List.mem_cons.mp hy).resolve_left (Ne.symm ne)⟩)
    · by_cases eq : y = z
      · exact .inr (.inl ⟨eq, hx⟩)
      · exact (ih hx ((List.mem_cons.mp hy).resolve_left eq)).imp .inr .inr

/-- In a list without repetitions, `x` comes first of whatever stands behind it. -/
theorem split_iff {before after : List α} (nodup : (before ++ x :: after).Nodup) :
    Precedes (before ++ x :: after) x y ↔ y ∈ after := by
  obtain ⟨-, nodup', apart⟩ := List.nodup_append.mp nodup
  have out : x ∉ after := (List.nodup_cons.mp nodup').1
  have out' : x ∉ before := fun mem => apart x mem x List.mem_cons_self rfl
  rw [append_iff, cons_iff]
  constructor
  · rintro (first | ⟨mem, -⟩ | ⟨-, mem⟩ | first)
    · exact absurd first.left_mem out'
    · exact absurd mem out'
    · exact mem
    · exact absurd first.left_mem out
  · exact fun mem => .inr (.inr (.inl ⟨rfl, mem⟩))

/-- And last of whatever stands in front of it. -/
theorem split_iff' {before after : List α} (nodup : (before ++ x :: after).Nodup) :
    Precedes (before ++ x :: after) y x ↔ y ∈ before := by
  obtain ⟨-, nodup', apart⟩ := List.nodup_append.mp nodup
  have out : x ∉ after := (List.nodup_cons.mp nodup').1
  have out' : x ∉ before := fun mem => apart x mem x List.mem_cons_self rfl
  rw [append_iff, cons_iff]
  constructor
  · rintro (first | ⟨mem, -⟩ | ⟨-, mem⟩ | first)
    · exact absurd first.right_mem out'
    · exact mem
    · exact absurd mem out
    · exact absurd first.right_mem out
  · exact fun mem => .inr (.inl ⟨mem, List.mem_cons_self⟩)

/-- Another item in between makes no difference. -/
theorem insert_iff (x_ne : x ≠ z) (y_ne : y ≠ z) :
    Precedes (l ++ z :: m) x y ↔ Precedes (l ++ m) x y := by
  rw [append_iff, append_iff, cons_iff, List.mem_cons]
  constructor
  · rintro (first | ⟨mem, mem'⟩ | ⟨eq, -⟩ | first)
    · exact .inl first
    · exact .inr (.inl ⟨mem, mem'.resolve_left y_ne⟩)
    · exact (x_ne eq).elim
    · exact .inr (.inr first)
  · rintro (first | ⟨mem, mem'⟩ | first)
    · exact .inl first
    · exact .inr (.inl ⟨mem, .inr mem'⟩)
    · exact .inr (.inr (.inr first))

section FlatMap

variable {β : Type} {f : β → List α} {l : List β} {i j : β}

/-- Items are in the order of their lists, or within one of them. -/
theorem flatMap_iff : Precedes (l.flatMap f) x y ↔
    (∃ i ∈ l, Precedes (f i) x y) ∨ ∃ i j, Precedes l i j ∧ x ∈ f i ∧ y ∈ f j := by
  induction l with
  | nil => simp [Precedes]
  | cons k l ih =>
    rw [List.flatMap_cons, append_iff, ih]
    constructor
    · rintro (first | ⟨mem, mem'⟩ | ⟨i, mem, first⟩ | ⟨i, j, first, mem⟩)
      · exact .inl ⟨k, List.mem_cons_self, first⟩
      · obtain ⟨j, mem_j, mem'⟩ := List.mem_flatMap.mp mem'
        exact .inr ⟨k, j, cons_iff.mpr (.inl ⟨rfl, mem_j⟩), mem, mem'⟩
      · exact .inl ⟨i, List.mem_cons_of_mem k mem, first⟩
      · exact .inr ⟨i, j, cons_iff.mpr (.inr first), mem⟩
    · rintro (⟨i, mem, first⟩ | ⟨i, j, first, mem, mem'⟩)
      · rcases List.mem_cons.mp mem with rfl | mem
        · exact .inl first
        · exact .inr (.inr (.inl ⟨i, mem, first⟩))
      · rcases cons_iff.mp first with ⟨rfl, mem_j⟩ | first
        · exact .inr (.inl ⟨mem, List.mem_flatMap.mpr ⟨j, mem_j, mem'⟩⟩)
        · exact .inr (.inr (.inr ⟨i, j, first, mem, mem'⟩))

theorem flatMap_unique (nodup : (l.flatMap f).Nodup) (i_mem : i ∈ l) (j_mem : j ∈ l)
    (x_i : x ∈ f i) (x_j : x ∈ f j) : i = j := by
  by_contra ne
  have twice : Precedes (l.flatMap f) x x := by
    rw [flatMap_iff]
    rcases total ne i_mem j_mem with first | first
    · exact .inr ⟨i, j, first, x_i, x_j⟩
    · exact .inr ⟨j, i, first, x_j, x_i⟩
  exact twice.asymm nodup twice

/-- In a list of lists without repetitions, the order within one of them counts ... -/
theorem flatMap_same (nodup : (l.flatMap f).Nodup) (once : l.Nodup) (mem : i ∈ l)
    (x_mem : x ∈ f i) (y_mem : y ∈ f i) :
    Precedes (l.flatMap f) x y ↔ Precedes (f i) x y := by
  rw [flatMap_iff]
  refine ⟨?_, fun first => .inl ⟨i, mem, first⟩⟩
  rintro (⟨j, j_mem, first⟩ | ⟨j, k, first, x_j, y_k⟩)
  · rwa [flatMap_unique nodup mem j_mem x_mem first.left_mem]
  · have eq := flatMap_unique nodup mem first.left_mem x_mem x_j
    have eq' := flatMap_unique nodup mem first.right_mem y_mem y_k
    subst eq eq'
    exact absurd first (first.asymm once)

/-- ... and otherwise the order of the lists. -/
theorem flatMap_other (nodup : (l.flatMap f).Nodup) (i_mem : i ∈ l) (j_mem : j ∈ l) (ne : i ≠ j)
    (x_mem : x ∈ f i) (y_mem : y ∈ f j) :
    Precedes (l.flatMap f) x y ↔ Precedes l i j := by
  rw [flatMap_iff]
  refine ⟨?_, fun first => .inr ⟨i, j, first, x_mem, y_mem⟩⟩
  rintro (⟨k, k_mem, first⟩ | ⟨k, k', first, x_k, y_k⟩)
  · have eq := flatMap_unique nodup i_mem k_mem x_mem first.left_mem
    have eq' := flatMap_unique nodup j_mem k_mem y_mem first.right_mem
    exact absurd (eq.trans eq'.symm) ne
  · rwa [flatMap_unique nodup i_mem first.left_mem x_mem x_k,
      flatMap_unique nodup j_mem first.right_mem y_mem y_k]

end FlatMap

end Precedes

end ObjectGraph
