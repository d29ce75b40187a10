import Mathlib.Data.List.Forall2
import Mathlib.Data.List.Nodup
import Mathlib.Data.List.Perm.Basic

/-
  Lists, apart from what is in them.

  Most of it is about lists whose items correspond one by one (`List.Forall₂`): what is found,
  counted, kept or numbered in one of them corresponds to what is in the other one.  A resolution and
  a second one, a walk and the graph that it walks, slots and what fills them are compared in this
  way.  The rest says where the items of a list stand, also in a list of lists (`offset`), and how many
  there are.
-/

namespace ObjectGraph

variable {α β γ : Type}

/-! ## Lists that correspond -/

section Forall₂

variable {P : α → β → Prop} {as : List α} {bs : List β}

/-- Each item of the first list has its counterpart in the second one ... -/
theorem forall₂_left (all : List.Forall₂ P as bs) {a : α} (mem : a ∈ as) : ∃ b ∈ bs, P a b := by
  obtain ⟨i, lt, rfl⟩ := List.mem_iff_getElem.mp mem
  have lt' : i < bs.length := all.length_eq ▸ lt
  exact ⟨bs[i], List.getElem_mem lt', all.get lt lt'⟩

/-- ... and each of the second one has its counterpart in the first one. -/
theorem forall₂_right (all : List.Forall₂ P as bs) {b : β} (mem : b ∈ bs) : ∃ a ∈ as, P a b := by
  obtain ⟨i, lt, rfl⟩ := List.mem_iff_getElem.mp mem
  have lt' : i < as.length := all.length_eq ▸ lt
  exact ⟨as[i], List.getElem_mem lt', all.get lt' lt⟩

theorem eq_of_forall₂ {P : α → α → Prop} {xs ys : List α} (all : List.Forall₂ P xs ys)
    (same : ∀ x y, P x y → x = y) : xs = ys := by
  have eq := all.imp same
  rwa [List.forall₂_eq_eq_eq] at eq

/-- Two lists that correspond to a third one correspond to each other. -/
theorem forall₂_trans {Q : β → γ → Prop} {cs : List γ} (first : List.Forall₂ P as bs)
    (second : List.Forall₂ Q bs cs) :
    List.Forall₂ (fun a c => ∃ b, P a b ∧ Q b c) as cs := by
  induction first generalizing cs with
  | nil =>
    cases second
    exact .nil
  | cons pair _ ih =>
    cases second with
    | cons pair' rest => exact .cons ⟨_, pair, pair'⟩ (ih rest)

/-- Functions that agree on what corresponds give the same. -/
theorem map_eq_of_rel {f : α → γ} {f' : β → γ} (all : List.Forall₂ P as bs)
    (same : ∀ a ∈ as, ∀ b ∈ bs, P a b → f a = f' b) : as.map f = bs.map f' := by
  induction all with
  | nil => rfl
  | cons pair _ ih =>
    rw [List.map_cons, List.map_cons, same _ List.mem_cons_self _ List.mem_cons_self pair,
      ih fun a mem b mem' => same a (List.mem_cons_of_mem _ mem) b (List.mem_cons_of_mem _ mem')]

/-- Lists that are related are related by a function, if the first one has no repetitions. -/
theorem exists_map_of_rel [DecidableEq α] [Inhabited β] (all : List.Forall₂ P as bs)
    (nodup : as.Nodup) : ∃ f, bs = as.map f ∧ ∀ a ∈ as, P a (f a) := by
  induction all with
  | nil => exact ⟨fun _ => default, rfl, nofun⟩
  | @cons a b as bs pair _ ih =>
    rw [List.nodup_cons] at nodup
    obtain ⟨f, rfl, each⟩ := ih nodup.2
    have others (x : α) (mem : x ∈ as) : (if x = a then b else f x) = f x :=
      if_neg fun same : x = a => nodup.1 (same ▸ mem)
    refine ⟨fun x => if x = a then b else f x, ?_, List.forall_mem_cons.mpr ⟨?_, fun x mem => ?_⟩⟩
    · rw [List.map_cons, if_pos rfl, List.map_congr_left others]
    · show P a (if a = a then b else f a)
      rw [if_pos rfl]
      exact pair
    · show P x (if x = a then b else f x)
      rw [others x mem]
      exact each x mem

/-- What is kept of two lists by conditions that agree corresponds. -/
theorem forall₂_filter {p : α → Bool} {p' : β → Bool} (all : List.Forall₂ P as bs)
    (same : ∀ a ∈ as, ∀ b ∈ bs, P a b → p a = p' b) :
    List.Forall₂ P (as.filter p) (bs.filter p') := by
  induction all with
  | nil => exact .nil
  | @cons a b as bs pair _ ih =>
    have rest := ih fun a mem b mem' =>
      same a (List.mem_cons_of_mem _ mem) b (List.mem_cons_of_mem _ mem')
    rw [List.filter_cons, List.filter_cons, same a List.mem_cons_self b List.mem_cons_self pair]
    split
    · exact .cons pair rest
    · exact rest

/-- What is kept of the second list corresponds to some of the first one, in its order. -/
theorem exists_rel_filter (all : List.Forall₂ P as bs) (keeps : β → Bool) :
    ∃ as', as'.Sublist as ∧ List.Forall₂ P as' (bs.filter keeps) := by
  induction all with
  | nil => exact ⟨[], .slnil, .nil⟩
  | @cons a b _ _ pair _ ih =>
    obtain ⟨as', sub, rest⟩ := ih
    by_cases kept : keeps b = true
    · exact ⟨a :: as', sub.cons_cons a, by rw [List.filter_cons_of_pos kept]; exact .cons pair rest⟩
    · exact ⟨as', sub.cons a, by rw [List.filter_cons_of_neg kept]; exact rest⟩

theorem rel_mapIdx {Q : α → γ → Prop} {f : Nat → β → γ} (all : List.Forall₂ P as bs)
    (each : ∀ k a b, P a b → Q a (f k b)) : List.Forall₂ Q as (bs.mapIdx f) := by
  induction all generalizing f with
  | nil => exact .nil
  | cons pair _ ih =>
    rw [List.mapIdx_cons]
    exact .cons (each 0 _ _ pair) (ih fun k => each (k + 1))

theorem rel_zipIdx (all : List.Forall₂ P as bs) (first : Nat) :
    List.Forall₂ (fun x y => P x.1 y.1 ∧ x.2 = y.2) (as.zipIdx first) (bs.zipIdx first) := by
  induction all generalizing first with
  | nil => exact .nil
  | cons pair _ ih => exact .cons ⟨pair, rfl⟩ (ih (first + 1))

theorem countP_eq_of_rel {p : α → Bool} {q : β → Bool} (all : List.Forall₂ P as bs)
    (same : ∀ a b, P a b → p a = q b) : as.countP p = bs.countP q := by
  induction all with
  | nil => rfl
  | cons pair _ ih => rw [List.countP_cons, List.countP_cons, ih, same _ _ pair]

/-- Lists that differ in the names of their keys find the same. -/
theorem lookup_eq_of_rel [DecidableEq α] [DecidableEq β] {xs : List (α × γ)} {ys : List (β × γ)}
    (all : List.Forall₂ (fun x y => P x.1 y.1 ∧ x.2 = y.2) xs ys) {a : α} {b : β}
    (one : ∀ x y, P x y → (a = x ↔ b = y)) : xs.lookup a = ys.lookup b := by
  induction all with
  | nil => rfl
  | @cons x y _ _ alike _ ih =>
    obtain ⟨pair, same⟩ := alike
    have eq : (a == x.1) = (b == y.1) := by
      rw [Bool.eq_iff_iff, beq_iff_eq, beq_iff_eq]
      exact one _ _ pair
    rw [List.lookup_cons, List.lookup_cons, eq, same, ih]

theorem rel_getElem? (all : List.Forall₂ P as bs) (i : Nat) : Option.Rel P as[i]? bs[i]? := by
  induction all generalizing i with
  | nil => exact .none
  | cons pair _ ih =>
    cases i with
    | zero => exact .some pair
    | succ i => exact ih i

/-- Searching two lists whose elements correspond finds elements that correspond. -/
theorem rel_preferred {f : α → Bool} {g : β → Bool} (all : List.Forall₂ P as bs)
    (same : ∀ a b, P a b → f a = g b) :
    Option.Rel P ((as.find? f).or as.head?) ((bs.find? g).or bs.head?) := by
  have found : Option.Rel P (as.find? f) (bs.find? g) := by
    induction all with
    | nil => exact .none
    | @cons a b _ _ head _ ih =>
      rw [List.find?_cons, List.find?_cons, same a b head]
      cases g b with
      | true => exact .some head
      | false => exact ih
  cases as_found : as.find? f <;> cases bs_found : bs.find? g <;> rw [as_found, bs_found] at found
  · cases all with
    | nil => exact .none
    | cons head _ => exact .some head
  · cases found
  · cases found
  · exact found

end Forall₂

/-! ## Options that correspond -/

section Rel

variable {P Q : α → β → Prop} {x : Option α} {y : Option β}

theorem rel_flip (rel : Option.Rel P x y) : Option.Rel (fun b a => P a b) y x := by
  cases rel with
  | none => exact .none
  | some pair => exact .some pair

theorem rel_none_iff (rel : Option.Rel P x y) : x = none ↔ y = none := by
  cases rel with
  | none => exact iff_of_true rfl rfl
  | some => exact ⟨nofun, nofun⟩

theorem rel_mono (rel : Option.Rel P x y) (weaker : ∀ a b, P a b → Q a b) : Option.Rel Q x y := by
  cases rel with
  | none => exact .none
  | some pair => exact .some (weaker _ _ pair)

theorem exists_of_rel_some {a : α} (rel : Option.Rel P x y) (found : x = some a) :
    ∃ b, y = some b ∧ P a b := by
  cases rel with
  | none => cases found
  | some pair =>
    cases found
    exact ⟨_, rfl, pair⟩

end Rel

/-! ## What is found -/

section Lookup

variable [BEq α] [LawfulBEq α] {entries : List (α × β)} {key key' : α} {value value' : β}

theorem mem_of_lookup (found : entries.lookup key = some value) : (key, value) ∈ entries := by
  obtain ⟨before, after, split, -⟩ := List.lookup_eq_some_iff.mp found
  rw [split]
  exact List.mem_append_right _ List.mem_cons_self

/-- An entry of a new key is in front of the others, but no key that is known is that of it. -/
theorem lookup_cons_of_unknown (found : entries.lookup key = some value)
    (unknown : entries.lookup key' = none) :
    ((key', value') :: entries).lookup key = some value := by
  have other : key ≠ key' := by
    rintro rfl
    rw [found] at unknown
    cases unknown
  rw [List.lookup_cons, beq_false_of_ne other, found]

end Lookup

/-- What is chosen and suits is the first that suits. -/
theorem find?_of_or_head {P : α → Bool} {l : List α} {a : α}
    (chosen : (l.find? P).or l.head? = some a) (suits : P a = true) : l.find? P = some a := by
  rcases Option.or_eq_some_iff.mp chosen with found | ⟨none, head⟩
  · exact found
  · rw [List.find?_eq_none] at none
    exact absurd suits (none a (List.mem_of_head? head))

section Sorted

variable {le : α → α → Bool} {P : α → Bool} {l : List α} {a : α}
  (trans : ∀ a b c, le a b = true → le b c = true → le a c = true)
  (total : ∀ a b, (le a b || le b a) = true)
include trans total

/-- The elements that come first among all of a kind. -/
theorem exists_of_find?_mergeSort (found : (l.mergeSort le).find? P = some a) :
    ∃ i : Nat, l[i]? = some a ∧ P a = true ∧ ∀ (j : Nat) (b : α), l[j]? = some b → P b = true →
      le a b = true ∧ (le b a = true → i ≤ j) := by
  rw [← List.mergeSort_zipIdx, List.find?_map] at found
  obtain ⟨⟨a, i⟩, first, rfl⟩ := Option.map_eq_some_iff.mp found
  have sorted : (l.zipIdx.mergeSort (List.zipIdxLE le)).Pairwise fun x y =>
      List.zipIdxLE le x y = true :=
    List.pairwise_mergeSort (List.zipIdxLE_trans trans) (List.zipIdxLE_total total) _
  obtain ⟨holds, before, after, split, none⟩ := List.find?_eq_some_iff_append.mp first
  have listed : (a, i) ∈ l.zipIdx := by
    rw [← @List.mem_mergeSort _ (List.zipIdxLE le), split]
    simp
  refine ⟨i, List.mem_zipIdx_iff_getElem?.mp listed, holds, fun j b at_j suits => ?_⟩
  have mem : (b, j) ∈ before ++ (a, i) :: after := by
    rw [← split, List.mem_mergeSort]
    exact List.mem_zipIdx_iff_getElem?.mpr at_j
  rw [split] at sorted
  have leads : List.zipIdxLE le (a, i) (b, j) = true := by
    rcases List.mem_append.mp mem with mem | mem
    · have unsuited := none _ mem
      rw [Function.comp_apply, suits] at unsuited
      cases unsuited
    · rcases List.mem_cons.mp mem with same | mem
      · rw [same]
        exact (Bool.or_self _).symm.trans (List.zipIdxLE_total total _ _)
      · exact List.rel_of_pairwise_cons (List.pairwise_append.mp sorted).2.1 mem
  unfold List.zipIdxLE at leads
  split at leads
  · rename_i ahead
    refine ⟨ahead, fun behind => ?_⟩
    rw [if_pos behind] at leads
    exact of_decide_eq_true leads
  · cases leads

/-- What is found first: nothing is better, and what is as good comes later. -/
theorem find?_mergeSort_iff : (l.mergeSort le).find? P = some a ↔
    ∃ i : Nat, l[i]? = some a ∧ P a = true ∧ ∀ (j : Nat) (b : α), l[j]? = some b → P b = true →
      le a b = true ∧ (le b a = true → i ≤ j) := by
  refine ⟨exists_of_find?_mergeSort trans total, fun ⟨i, at_i, holds, leads⟩ => ?_⟩
  obtain ⟨b, found⟩ : ∃ b, (l.mergeSort le).find? P = some b := by
    rw [← Option.isSome_iff_exists, List.find?_isSome]
    exact ⟨a, List.mem_mergeSort.mpr (List.mem_of_getElem? at_i), holds⟩
  obtain ⟨j, at_j, holds', leads'⟩ := exists_of_find?_mergeSort trans total found
  obtain ⟨ahead, first⟩ := leads j b at_j holds'
  obtain ⟨ahead', first'⟩ := leads' i a at_i holds
  obtain rfl := Nat.le_antisymm (first ahead') (first' ahead)
  rw [found, ← at_j, at_i]

end Sorted

/-! ## Where an item stands -/

/-- An item of two lists stands in one of them. -/
theorem getElem?_append_eq_some {l m : List α} {i : Nat} {x : α} :
    (l ++ m)[i]? = some x ↔ l[i]? = some x ∨ ∃ k, i = l.length + k ∧ m[k]? = some x := by
  rw [List.getElem?_append]
  split
  · rename_i lt
    refine ⟨.inl, fun either => either.resolve_right ?_⟩
    rintro ⟨k, rfl, -⟩
    omega
  · rename_i out
    rw [List.getElem?_eq_none (Nat.not_lt.mp out)]
    constructor
    · exact fun found => .inr ⟨i - l.length, by omega, found⟩
    · rintro (found | ⟨k, rfl, found⟩)
      · cases found
      · rwa [Nat.add_sub_cancel_left]

theorem getElem?_map_range {f : Nat → α} {n i : Nat} {x : α} :
    ((List.range n).map f)[i]? = some x ↔ i < n ∧ f i = x := by
  simp only [List.getElem?_map, Option.map_eq_some_iff, List.getElem?_eq_some_iff,
    List.getElem_range, List.length_range]
  constructor
  · rintro ⟨_, ⟨lt, rfl⟩, eq⟩
    exact ⟨lt, eq⟩
  · rintro ⟨lt, eq⟩
    exact ⟨i, ⟨lt, rfl⟩, eq⟩

/-- A list is what stands at its indices. -/
theorem map_range_length (l : List α) (f : α → β) :
    ((List.range l.length).map fun k => (l[k]?).map f) = l.map fun x => some (f x) :=
  List.ext_getElem (by simp) fun k lt lt' => by
    rw [List.length_map] at lt'
    simp [List.getElem?_eq_getElem lt']

section Split

variable {s : α} {first mid last front back : List α}

/-- What is not in the first part of a list stands behind it. -/
theorem exists_split_left (eq : first ++ last = front ++ s :: back) (absent : s ∉ first) :
    ∃ f, front = first ++ f ∧ last = f ++ s :: back := by
  induction first generalizing front with
  | nil => exact ⟨front, rfl, eq⟩
  | cons x first ih =>
    obtain ⟨ne, absent⟩ := not_or.mp (List.mem_cons.not.mp absent)
    cases front with
    | nil => exact absurd (List.cons.inj eq).1.symm ne
    | cons y front =>
      obtain ⟨rfl, tail⟩ := List.cons.inj eq
      obtain ⟨f, rfl, rest⟩ := ih tail absent
      exact ⟨f, rfl, rest⟩

/-- What is neither in the first nor in the last part of a list stands between them. -/
theorem exists_split (eq : first ++ mid ++ last = front ++ s :: back) (not_first : s ∉ first)
    (not_last : s ∉ last) : ∃ f b, front = first ++ f ∧ back = b ++ last ∧ mid = f ++ s :: b := by
  rw [List.append_assoc] at eq
  obtain ⟨f, rfl, inner⟩ := exists_split_left eq not_first
  obtain ⟨c, -, rest⟩ | ⟨c, rfl, rest⟩ := List.append_eq_append_iff.mp inner
  · exact absurd (rest ▸ List.mem_append_right _ List.mem_cons_self) not_last
  · cases c with
    | nil => exact absurd (rest.subst (motive := (s ∈ ·)) List.mem_cons_self) not_last
    | cons _ b =>
      obtain ⟨rfl, rfl⟩ := List.cons.inj rest
      exact ⟨f, b, rfl, rfl, rfl⟩

end Split

/-! ## How many there are -/

/-- If a function tells the items apart, one of them has each of its values ... -/
theorem countP_eq_one {f : α → Nat} {is : List α} {v : Nat}
    (nodup : (is.map f).Nodup) (mem : v ∈ is.map f) : is.countP (fun m => f m == v) = 1 := by
  have one := List.count_eq_one_of_mem nodup mem
  rwa [List.count, List.countP_map] at one

/-- ... and at most one of them meets a condition that fixes its value. -/
theorem countP_le_one {f : α → Nat} {p : α → Bool} {is : List α}
    (nodup : (is.map f).Nodup) (same : ∀ x ∈ is, ∀ y ∈ is, p x = true → p y = true → f x = f y) :
    is.countP p ≤ 1 := by
  rw [List.countP_eq_length_filter]
  have nodup' := (List.filter_sublist (p := p).map f).nodup nodup
  match kept : is.filter p with
  | [] => exact Nat.zero_le 1
  | [x] => exact Nat.le_refl 1
  | x :: y :: rest =>
    have mem (z : α) (z_mem : z ∈ is.filter p) := List.mem_filter.mp z_mem
    rw [kept] at nodup' mem
    have eq := same x (mem x (by simp)).1 y (mem y (by simp)).1 (mem x (by simp)).2
      (mem y (by simp)).2
    simp [eq] at nodup'

section Pairs

variable (related : α → β → Bool)

theorem length_filters_cons (a : α) (as : List α) (bs : List β) :
    (bs.flatMap fun b => (a :: as).filter (related · b)).length =
      (bs.filter (related a)).length + (bs.flatMap fun b => as.filter (related · b)).length := by
  induction bs with
  | nil => rfl
  | cons b bs ih =>
    rw [List.flatMap_cons, List.flatMap_cons, List.length_append, List.length_append, ih,
      List.filter_cons, List.filter_cons]
    cases related a b with
    | true =>
      rw [if_pos rfl, if_pos rfl, List.length_cons, List.length_cons]
      omega
    | false =>
      rw [if_neg Bool.false_ne_true, if_neg Bool.false_ne_true]
      omega

/-- Pairs are counted by their first or by their second elements. -/
theorem length_pairs (as : List α) (bs : List β) :
    (as.flatMap fun a => (bs.filter (related a)).map (a, ·)).length =
      (bs.flatMap fun b => as.filter (related · b)).length := by
  induction as with
  | nil => simp
  | cons a as ih =>
    rw [length_filters_cons, List.flatMap_cons, List.length_append, List.length_map, ih]

end Pairs

/-- Two elements of lists that are not empty, or two elements of one list. -/
theorem two_le_length_flatMap (f : α → List β) (l : List α) :
    2 ≤ (l.flatMap f).length ↔ 2 ≤ (l.filter fun a => !(f a).isEmpty).length ∨
      ∃ a, (l.filter fun a => !(f a).isEmpty) = [a] ∧ 2 ≤ (f a).length := by
  have same : l.flatMap f = (l.filter fun a => !(f a).isEmpty).flatMap f := by
    induction l with
    | nil => rfl
    | cons a l ih =>
      rw [List.flatMap_cons, ih, List.filter_cons]
      cases empty : f a with
      | nil => rfl
      | cons => rw [List.isEmpty_cons, Bool.not_false, if_pos rfl, List.flatMap_cons, empty]
  have some : ∀ a ∈ l.filter fun a => !(f a).isEmpty, 0 < (f a).length := by
    intro a mem
    have nonempty := (List.mem_filter.mp mem).2
    exact List.length_pos_iff.mpr fun none => by simp [none] at nonempty
  rw [same]
  match l.filter fun a => !(f a).isEmpty, some with
  | [], _ => simp
  | [a], _ => simp
  | a :: b :: rest, some =>
    have first := some a (by simp)
    have second := some b (by simp)
    refine iff_of_true ?_ (.inl (by simp))
    simp only [List.flatMap_cons, List.length_append]
    omega

/-! ## Lists of lists -/

/-- Sorting a list by places gives all of it, if every element has a place. -/
theorem perm_flatMap_filter {n : Nat} {place : α → Nat} (l : List α)
    (known : ∀ x ∈ l, place x < n) :
    ((List.range n).flatMap fun i => l.filter (place · == i)).Perm l := by
  induction l with
  | nil => simp
  | cons x rest ih =>
    have alone : ∀ m, ((List.range m).flatMap fun i => if place x == i then [x] else []) =
        if place x < m then [x] else [] := by
      intro m
      induction m with
      | zero => rfl
      | succ m ihm =>
        rw [List.range_succ, List.flatMap_append, ihm, List.flatMap_singleton]
        rcases Nat.lt_trichotomy (place x) m with lt | eq | gt
        · simp [lt, Nat.ne_of_lt lt, Nat.lt_succ_of_lt lt]
        · simp [eq]
        · simp [Nat.lt_asymm gt, Nat.ne_of_gt gt, Nat.not_lt.mpr (Nat.succ_le_of_lt gt)]
    have split : ∀ i, (x :: rest).filter (place · == i) =
        (if place x == i then [x] else []) ++ rest.filter (place · == i) := by
      intro i
      rw [List.filter_cons]
      split <;> rfl
    simp only [split]
    refine (List.flatMap_append_perm _ _ _).symm.trans ?_
    rw [alone n, if_pos (known x List.mem_cons_self)]
    exact (ih fun y mem => known y (List.mem_cons_of_mem x mem)).cons x

section Offset

variable {ls : List (List α)} {l l' : List α} {n n' i i' j : Nat} {a : α}

/-- How many items stand in the lists before one of them. -/
def offset (ls : List (List α)) (n : Nat) : Nat := (ls.take n).flatten.length

theorem offset_succ (at_n : ls[n]? = some l) : offset ls (n + 1) = offset ls n + l.length := by
  rw [offset, offset, List.take_add_one, at_n]
  simp

theorem offset_mono (ls : List (List α)) (le : n ≤ n') : offset ls n ≤ offset ls n' := by
  obtain ⟨k, rfl⟩ := Nat.exists_eq_add_of_le le
  rw [offset, offset, List.take_add, List.flatten_append, List.length_append]
  exact Nat.le_add_right _ _

/-- Items are in the order of their lists, and of their places in these. -/
theorem offset_add_lt_iff (at_n : ls[n]? = some l) (lt : i < l.length) (at_n' : ls[n']? = some l')
    (lt' : i' < l'.length) :
    offset ls n + i < offset ls n' + i' ↔ n < n' ∨ n = n' ∧ i < i' := by
  have next := offset_succ at_n
  have next' := offset_succ at_n'
  rcases Nat.lt_trichotomy n n' with less | rfl | more
  · have mono : offset ls (n + 1) ≤ offset ls n' := offset_mono ls less
    omega
  · omega
  · have mono : offset ls (n' + 1) ≤ offset ls n := offset_mono ls more
    omega

/-- What stands in one of the lists stands in all of them together ... -/
theorem getElem?_flatten_offset (at_n : ls[n]? = some l) (at_i : l[i]? = some a) :
    ls.flatten[offset ls n + i]? = some a := by
  obtain ⟨lt, rfl⟩ := List.getElem?_eq_some_iff.mp at_n
  have split : ls.flatten = (ls.take n).flatten ++ (ls[n] ++ (ls.drop (n + 1)).flatten) := by
    rw [← List.flatten_cons, ← List.drop_eq_getElem_cons lt, ← List.flatten_append,
      List.take_append_drop]
  rw [split, offset, List.getElem?_append_right (Nat.le_add_right _ _), Nat.add_sub_cancel_left,
    List.getElem?_append_left (List.getElem?_eq_some_iff.mp at_i).1, at_i]

/-- ... and the other way round. -/
theorem exists_offset (at_j : ls.flatten[j]? = some a) :
    ∃ n l i, ls[n]? = some l ∧ l[i]? = some a ∧ offset ls n + i = j := by
  induction ls generalizing j with
  | nil => simp at at_j
  | cons first rest ih =>
    rw [List.flatten_cons] at at_j
    rcases Nat.lt_or_ge j first.length with lt | ge
    · rw [List.getElem?_append_left lt] at at_j
      exact ⟨0, first, j, rfl, at_j, by simp [offset]⟩
    · rw [List.getElem?_append_right ge] at at_j
      obtain ⟨n, l, i, at_n, at_i, eq⟩ := ih at_j
      refine ⟨n + 1, l, i, at_n, at_i, ?_⟩
      rw [offset, List.take_succ_cons, List.flatten_cons, List.length_append]
      rw [offset] at eq
      omega

end Offset

section Heads

variable (ls : List (List α))

theorem heads_sublist : (ls.filterMap List.head?).Sublist ls.flatten := by
  induction ls with
  | nil => exact .slnil
  | cons l ls ih =>
    cases l with
    | nil => exact ih
    | cons a l => exact (ih.trans (List.sublist_append_right l _)).cons_cons a

/-- The first elements of all lists are all there is exactly if no list has a second one. -/
theorem heads_eq_flatten_iff :
    ls.filterMap List.head? = ls.flatten ↔ ∀ l ∈ ls, l.length ≤ 1 := by
  induction ls with
  | nil => simp
  | cons l ls ih =>
    rw [List.forall_mem_cons, ← ih]
    match l with
    | [] => rw [List.filterMap_cons_none rfl]; simp
    | [a] => simp
    | a :: b :: l =>
      refine iff_of_false (fun eq => ?_) (fun both => absurd both.1 (by simp))
      -- what comes behind the second one is no shorter than the first ones of the rest
      have shorter := (heads_sublist ls).length_le
      have lengths := congrArg List.length eq
      simp only [List.filterMap_cons, List.head?_cons, List.flatten_cons, List.length_append,
        List.length_cons] at lengths
      omega

theorem heads_eq_nil_iff : ls.filterMap List.head? = [] ↔ ls.flatten = [] := by
  simp [List.filterMap_eq_nil_iff, List.flatten_eq_nil_iff]

end Heads

end ObjectGraph
