import ObjectGraph.Proofs.Graph.Provider
import ObjectGraph.Proofs.Lists

/-
  Who wins when competitors drop out.

  Two choices are made by comparison: the best of the bindings that match a request, and the first
  servable constructor of a class in the order of preference.  Both are won by a competitor that
  beats all others, so neither choice changes when others drop out or fall back
  (`Match.best?_eq_some`, `ConstructorCandidate.find?_rank_of_fewer`).

  Constructors are sorted in a stable way.  What is found first in a sorted list is told without
  sorting by `find?_mergeSort_iff`: nothing else is better, and what is as good comes later.
-/

namespace ObjectGraph

theorem ne_gt_eq_isLE (o : Ordering) : (o != .gt) = o.isLE := by cases o <;> rfl

/-! ## Matches -/

namespace Match

instance : Std.TransCmp fun a b : Match => compare b.id a.id :=
  @Std.TransCmp.opposite _ (compareOn fun m : Match => m.id) _

instance : Std.TransCmp Match.cmp :=
  inferInstanceAs <| Std.TransCmp <| compareLex (compareOn fun m : Match => m.rank) <|
    compareLex (compareOn fun m : Match => m.isGeneric) fun a b => compare b.id a.id

variable {ms : List Match} {m m' n n' : Match}

/-- The best match beats all others. -/
theorem isLE_of_best? (best : best? ms = some m) : ∀ n ∈ ms, (m.cmp n).isLE = true := by
  induction ms generalizing m with
  | nil => cases best
  | cons first rest ih =>
    have self : (first.cmp first).isLE = true := by
      rw [@Std.ReflCmp.compare_self _ Match.cmp _]
      rfl
    unfold best? at best
    split at best
    · rename_i none
      cases best
      cases rest with
      | nil => exact List.forall_mem_singleton.mpr self
      | cons second others =>
        obtain ⟨other, found⟩ := exists_best? (List.cons_ne_nil second others)
        rw [none] at found
        cases found
    · rename_i other found
      split at best
      · rename_i worse
        cases best
        refine List.forall_mem_cons.mpr ⟨?_, ih found⟩
        rw [beq_iff_eq, Std.OrientedCmp.gt_iff_lt] at worse
        rw [worse]
        rfl
      · rename_i better
        cases best
        refine List.forall_mem_cons.mpr ⟨self, fun n mem => ?_⟩
        refine Std.TransCmp.isLE_trans (b := other) ?_ (ih found n mem)
        rw [Bool.not_eq_true] at better
        exact (ne_gt_eq_isLE _).symm.trans (by rw [bne, better]; rfl)

/-- Matches of different bindings never tie. -/
theorem id_eq_of_isLE (ahead : (m.cmp n).isLE = true) (behind : (n.cmp m).isLE = true) :
    m.id = n.id := by
  have same := Std.OrientedCmp.isLE_antisymm ahead behind
  unfold cmp at same
  rw [Ordering.then_eq_eq, Ordering.then_eq_eq] at same
  exact (Nat.compare_eq_eq.mp same.2.2).symm

/-- A match that beats all others is the best. -/
theorem best?_eq_some (distinct : ∀ a ∈ ms, ∀ b ∈ ms, a.id = b.id → a = b) (mem : m ∈ ms)
    (leads : ∀ n ∈ ms, (m.cmp n).isLE = true) : best? ms = some m := by
  obtain ⟨n, best⟩ := exists_best? (List.ne_nil_of_mem mem)
  have among := mem_of_best? best
  have same := id_eq_of_isLE (leads n among) (isLE_of_best? best m mem)
  rw [best, distinct m mem n among same]

/-- What comparison looks at, apart from the numbers of bindings. -/
structure Comparable (m m' : Match) : Prop where
  rank : m.rank = m'.rank
  isGeneric : m.isGeneric = m'.isGeneric

theorem cmp_eq (left : m.Comparable m') (right : n.Comparable n')
    (ids : compare n.id m.id = compare n'.id m'.id) : m.cmp n = m'.cmp n' := by
  rw [cmp, cmp, left.rank, left.isGeneric, right.rank, right.isGeneric, ids]

end Match

/-! ## Constructors -/

namespace ConstructorCandidate

/-- A constructor with no more answerable parameters than before. -/
structure Weakens (a a' : ConstructorCandidate) : Prop where
  call : a'.call = a.call
  answerable : a'.answerable ≤ a.answerable

/-- A way to put constructors in order that favours those with more answerable parameters. -/
structure Favours (le : ConstructorCandidate → ConstructorCandidate → Bool) : Prop where
  trans : ∀ a b c, le a b = true → le b c = true → le a c = true
  total : ∀ a b, (le a b || le b a) = true
  /-- What is ahead stays ahead when others are weakened. -/
  ahead : ∀ {a b b'}, b.Weakens b' → le a b = true → le a b' = true
  /-- What does not come up to it does not come up to it when weakened. -/
  behind : ∀ {a b b'}, b.Weakens b' → le b' a = true → le b a = true

/-- Every comparison puts in order. -/
theorem order_of_cmp (le : ConstructorCandidate → ConstructorCandidate → Bool)
    (cmp : ConstructorCandidate → ConstructorCandidate → Ordering) [Std.TransCmp cmp]
    (eq : ∀ a b, le a b = (cmp a b).isLE) :
    (∀ a b c, le a b = true → le b c = true → le a c = true) ∧
      ∀ a b, (le a b || le b a) = true := by
  refine ⟨fun a b c => ?_, fun a b => ?_⟩
  · rw [eq, eq, eq]
    exact Std.TransCmp.isLE_trans
  · rw [eq, eq, @Std.OrientedCmp.eq_swap _ cmp _ b]
    cases cmp a b <;> rfl

/-- More answerable parameters first. -/
instance : Std.TransCmp fun a b : ConstructorCandidate => compare b.answerable a.answerable :=
  @Std.TransCmp.opposite _ (compareOn fun c : ConstructorCandidate => c.answerable) _

instance : Std.TransCmp fun a b : ConstructorCandidate =>
    compare b.call.visibility a.call.visibility :=
  @Std.TransCmp.opposite _ (compareOn fun c : ConstructorCandidate => c.call.visibility.rank) _

theorem favours_byOrdinal : Favours byOrdinal := by
  obtain ⟨trans, total⟩ := order_of_cmp byOrdinal
    (compareLex (compareOn fun c => c.call.ordinal) fun a b => compare b.answerable a.answerable)
    fun _ _ => ne_gt_eq_isLE _
  refine ⟨trans, total, ?_, ?_⟩
  · rintro a b b' ⟨call, answerable⟩
    unfold byOrdinal
    rw [call, ne_gt_eq_isLE, ne_gt_eq_isLE, Ordering.isLE_then_iff_or, Ordering.isLE_then_iff_or,
      Nat.isLE_compare, Nat.isLE_compare]
    exact Or.imp_right (And.imp_right (Nat.le_trans answerable))
  · rintro a b b' ⟨call, answerable⟩
    unfold byOrdinal
    rw [call, ne_gt_eq_isLE, ne_gt_eq_isLE, Ordering.isLE_then_iff_or, Ordering.isLE_then_iff_or,
      Nat.isLE_compare, Nat.isLE_compare]
    exact Or.imp_right (And.imp_right fun le => Nat.le_trans le answerable)

theorem favours_byAnswerable : Favours byAnswerable := by
  obtain ⟨trans, total⟩ := order_of_cmp byAnswerable
    (compareLex (fun a b => compare b.answerable a.answerable)
      fun a b => compare b.call.visibility a.call.visibility)
    fun _ _ => ne_gt_eq_isLE _
  refine ⟨trans, total, ?_, ?_⟩
  · rintro a b b' ⟨call, answerable⟩
    unfold byAnswerable
    rw [call, ne_gt_eq_isLE, ne_gt_eq_isLE, Ordering.isLE_then_iff_or, Ordering.isLE_then_iff_or,
      Nat.compare_eq_lt, Nat.compare_eq_lt, Nat.compare_eq_eq, Nat.compare_eq_eq]
    rintro (less | ⟨same, visible⟩)
    · exact .inl (Nat.lt_of_le_of_lt answerable less)
    · exact (Nat.lt_or_eq_of_le (same ▸ answerable)).imp_right fun same => ⟨same, visible⟩
  · rintro a b b' ⟨call, answerable⟩
    unfold byAnswerable
    rw [call, ne_gt_eq_isLE, ne_gt_eq_isLE, Ordering.isLE_then_iff_or, Ordering.isLE_then_iff_or,
      Nat.compare_eq_lt, Nat.compare_eq_lt, Nat.compare_eq_eq, Nat.compare_eq_eq]
    rintro (less | ⟨same, visible⟩)
    · exact .inl (Nat.lt_of_lt_of_le less answerable)
    · exact (Nat.lt_or_eq_of_le (same ▸ answerable)).imp_right fun same => ⟨same, visible⟩

/-- Constructors are put in an order that does not depend on what can be answered. -/
theorem exists_order (calls : List InjectedCall) :
    ∃ (contenders : List InjectedCall) (le : _ → _ → Bool), Favours le ∧
    ∀ canAnswer, rank canAnswer calls =
      ((contenders.map (of canAnswer)).mergeSort le).map (·.call) := by
  have marked (canAnswer : Request → Bool) :
      (calls.map (of canAnswer)).filter (·.call.ordinal.isSome) =
        (calls.filter (·.ordinal.isSome)).map (of canAnswer) := List.filter_map ..
  cases none : (calls.filter (·.ordinal.isSome)).isEmpty with
  | true =>
    refine ⟨calls, byAnswerable, favours_byAnswerable, fun canAnswer => ?_⟩
    unfold rank
    dsimp only
    rw [marked, List.isEmpty_map, none, if_pos rfl]
  | false =>
    refine ⟨calls.filter (·.ordinal.isSome), byOrdinal, favours_byOrdinal, fun canAnswer => ?_⟩
    unfold rank
    dsimp only
    rw [marked, List.isEmpty_map, none, if_neg Bool.false_ne_true]

variable {canAnswer canAnswer' : Request → Bool} {call : InjectedCall}

theorem weakens_of (fewer : ∀ q, canAnswer' q = true → canAnswer q = true) (call : InjectedCall) :
    (of canAnswer call).Weakens (of canAnswer' call) :=
  ⟨rfl, List.countP_mono_left fun p _ => fewer p.request⟩

theorem of_eq_of (fewer : ∀ q, canAnswer' q = true → canAnswer q = true)
    (keeps : ∀ p ∈ call.parameters, canAnswer p.request = true → canAnswer' p.request = true) :
    of canAnswer' call = of canAnswer call := by
  unfold of
  rw [List.countP_congr fun p mem => ⟨fewer p.request, keeps p mem⟩]

/-- The preferred constructor among the suitable ones stays preferred when fewer requests can be
    answered and fewer constructors are suitable, as long as it loses nothing itself. -/
theorem find?_rank_of_fewer {P Q : InjectedCall → Bool} {calls : List InjectedCall}
    (fewer : ∀ q, canAnswer' q = true → canAnswer q = true)
    (stricter : ∀ c, Q c = true → P c = true)
    (found : (rank canAnswer calls).find? P = some call) (still : Q call = true)
    (keeps : ∀ p ∈ call.parameters, canAnswer p.request = true → canAnswer' p.request = true) :
    (rank canAnswer' calls).find? Q = some call := by
  obtain ⟨contenders, le, favours, ranked⟩ := exists_order calls
  have first (canAnswer : Request → Bool) (P : InjectedCall → Bool) (call : InjectedCall) :
      (rank canAnswer calls).find? P = some call ↔ ∃ i : Nat, contenders[i]? = some call ∧
        P call = true ∧ ∀ (j : Nat) (c : InjectedCall), contenders[j]? = some c → P c = true →
          le (of canAnswer call) (of canAnswer c) = true ∧
            (le (of canAnswer c) (of canAnswer call) = true → i ≤ j) := by
    rw [ranked, List.find?_map, Option.map_eq_some_iff]
    simp only [find?_mergeSort_iff favours.trans favours.total, List.getElem?_map,
      Option.map_eq_some_iff, Function.comp_apply]
    constructor
    · rintro ⟨a, ⟨i, ⟨c, at_i, rfl⟩, holds, leads⟩, rfl⟩
      exact ⟨i, at_i, holds, fun j c at_j suits => leads j _ ⟨c, at_j, rfl⟩ suits⟩
    · rintro ⟨i, at_i, holds, leads⟩
      refine ⟨_, ⟨i, ⟨call, at_i, rfl⟩, holds, ?_⟩, rfl⟩
      rintro j _ ⟨c, at_j, rfl⟩ suits
      exact leads j c at_j suits
  obtain ⟨i, at_i, -, leads⟩ := (first canAnswer P call).mp found
  refine (first canAnswer' Q call).mpr ⟨i, at_i, still, fun j c at_j suits => ?_⟩
  obtain ⟨ahead, earlier⟩ := leads j c at_j (stricter c suits)
  have weakens := weakens_of fewer c
  rw [of_eq_of fewer keeps]
  exact ⟨favours.ahead weakens ahead, fun behind => earlier (favours.behind weakens behind)⟩

end ConstructorCandidate

end ObjectGraph
