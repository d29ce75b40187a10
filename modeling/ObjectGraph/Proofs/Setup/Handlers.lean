import Mathlib.Data.List.Induction
import ObjectGraph.Setup.Handlers

/-
  What is left of the handlers that were registered.

  A handler replaces those of its type and tag, and this moves the place of the type and tag to the
  end of the chain.  No request can tell: whether a handler serves it depends on the type and the tag
  alone (`serves_eq_of_sameKey`), so where an earlier handler of the key would serve a request, the
  last one does, and the requests are asked from the last one on.

  The chain itself is told by the places of registrations: it reads off, from the first to the last,
  the places that no later handler of the same type and tag follows (`HoldsLast`).
-/

namespace ObjectGraph

namespace HandlerChain

variable {ts : TypeOracle} {q : Request} {hs : List Handler} {h h' : Handler} {i : Nat}

/-! ## Who serves a request -/

/-- The handler is the last one of a list that serves a request. -/
def IsLast (ts : TypeOracle) (q : Request) (hs : List Handler) (h : Handler) : Prop :=
  ∃ before after, hs = before ++ h :: after ∧ serves ts q h = true ∧
    ∀ h' ∈ after, serves ts q h' = false

/-- Handlers that replace each other serve the same requests. -/
theorem serves_eq_of_sameKey (same : sameKey h h' = true) : serves ts q h = serves ts q h' := by
  rw [sameKey, Bool.and_eq_true, beq_iff_eq, beq_iff_eq] at same
  rw [serves, serves, same.1, same.2]

/-- One more handler is registered on top of the chain of the others. -/
theorem ofList_append (hs : List Handler) (h : Handler) :
    ofList (hs ++ [h]) = (ofList hs).register h := by
  rw [ofList, List.foldl_append]
  rfl

/-- Replacing handlers of the same type and tag does not change who serves a request. -/
theorem find?_ofList (hs : List Handler) :
    (ofList hs).find? ts q = hs.reverse.find? (serves ts q) := by
  induction hs using List.reverseRecOn with
  | nil => rfl
  | append_singleton hs h ih =>
    rw [ofList_append, HandlerChain.find?, register, List.reverse_append, List.reverse_append,
      List.reverse_singleton, List.singleton_append, List.singleton_append]
    cases serving : serves ts q h with
    | true => rw [List.find?_cons_of_pos serving, List.find?_cons_of_pos serving]
    | false =>
      rw [List.find?_cons_of_neg (by simp [serving]), List.find?_cons_of_neg (by simp [serving]),
        ← ih, ← List.filter_reverse, List.find?_filter, HandlerChain.find?]
      congr 1
      funext x
      cases same : sameKey x h with
      | false => simp
      | true => simp [serves_eq_of_sameKey same, serving]

theorem find?_ofList_eq_some_iff : (ofList hs).find? ts q = some h ↔ IsLast ts q hs h := by
  rw [find?_ofList, List.find?_eq_some_iff_append]
  constructor
  · rintro ⟨serving, after, before, split, none⟩
    refine ⟨before.reverse, after.reverse, ?_, serving, fun h' mem => ?_⟩
    · rw [← hs.reverse_reverse, split]
      simp
    · simpa using none h' (List.mem_reverse.mp mem)
  · rintro ⟨before, after, rfl, serving, none⟩
    refine ⟨serving, after.reverse, before.reverse, by simp, fun h' mem => ?_⟩
    rw [none h' (List.mem_reverse.mp mem)]
    rfl

theorem find?_ofList_eq_none_iff :
    (ofList hs).find? ts q = none ↔ ∀ h ∈ hs, serves ts q h = false := by
  rw [find?_ofList, List.find?_eq_none]
  simp

/-! ## What the chain holds -/

/-- No later handler of the same type and tag follows the one at a place. -/
def IsFinal (hs : List Handler) (i : Nat) : Prop :=
  ∃ h, hs[i]? = some h ∧ ∀ j h', i < j → hs[j]? = some h' → ¬ (h'.type = h.type ∧ h'.tag = h.tag)

/-- The chain holds the last handler of each type and tag in the order of the registrations. -/
def HoldsLast (hs : List Handler) (chain : HandlerChain) : Prop :=
  ∃ places : List Nat, places.Pairwise (· < ·) ∧ (∀ i, i ∈ places ↔ IsFinal hs i) ∧
    places.map (hs[·]?) = chain.map some

theorem sameKey_iff : sameKey h h' = true ↔ h'.type = h.type ∧ h'.tag = h.tag := by
  rw [sameKey, Bool.and_eq_true, beq_iff_eq, beq_iff_eq, eq_comm, @eq_comm _ h.tag]

theorem IsFinal.lt (final : IsFinal hs i) : i < hs.length := by
  obtain ⟨h, found, -⟩ := final
  exact (List.getElem?_eq_some_iff.mp found).1

/-- What the chain with one more handler drops: the handlers of the same type and tag. -/
def replaced (h : Handler) (old : Option Handler) : Bool := old.any (sameKey · h)

/-- Of the final places one more handler leaves those that it does not replace, and it is at a final
    place itself. -/
theorem isFinal_append : IsFinal (hs ++ [h]) i ↔
    IsFinal hs i ∧ replaced h hs[i]? = false ∨ i = hs.length := by
  constructor
  · rintro ⟨x, found, last⟩
    obtain ⟨lt, -⟩ := List.getElem?_eq_some_iff.mp found
    rw [List.length_append, List.length_singleton] at lt
    by_cases old : i < hs.length
    · rw [List.getElem?_append_left old] at found
      refine .inl ⟨⟨x, found, fun j h' later found' => ?_⟩, ?_⟩
      · have j_lt := (List.getElem?_eq_some_iff.mp found').1
        exact last j h' later (by rw [List.getElem?_append_left j_lt, found'])
      · have other := last hs.length h old List.getElem?_concat_length
        rw [found, replaced, Option.any_some, Bool.eq_false_iff]
        exact fun same => other (sameKey_iff.mp same)
    · exact .inr (by omega)
  · rintro (⟨⟨x, found, last⟩, kept⟩ | rfl)
    · obtain ⟨lt, -⟩ := List.getElem?_eq_some_iff.mp found
      refine ⟨x, by rw [List.getElem?_append_left lt, found], fun j h' later found' => ?_⟩
      by_cases old : j < hs.length
      · rw [List.getElem?_append_left old] at found'
        exact last j h' later found'
      · obtain ⟨j_lt, -⟩ := List.getElem?_eq_some_iff.mp found'
        rw [List.length_append, List.length_singleton] at j_lt
        obtain rfl : j = hs.length := by omega
        rw [List.getElem?_concat_length, Option.some.injEq] at found'
        rw [found, replaced, Option.any_some, Bool.eq_false_iff, found'] at kept
        exact fun same => kept (sameKey_iff.mpr same)
    · refine ⟨h, List.getElem?_concat_length, fun j h' later found' => ?_⟩
      obtain ⟨lt, -⟩ := List.getElem?_eq_some_iff.mp found'
      rw [List.length_append, List.length_singleton] at lt
      omega

/-- One more handler takes its place at the end, and the places of those that it replaces go. -/
theorem HoldsLast.register {chain : HandlerChain} (holds : HoldsLast hs chain) (h : Handler) :
    HoldsLast (hs ++ [h]) (chain.register h) := by
  obtain ⟨places, rising, final, reads⟩ := holds
  refine ⟨(places.filter fun i => !replaced h hs[i]?) ++ [hs.length], ?_, fun i => ?_, ?_⟩
  · refine List.pairwise_append.mpr ⟨rising.sublist List.filter_sublist, List.pairwise_singleton _ _, ?_⟩
    intro i mem j mem'
    rw [List.mem_singleton.mp mem']
    exact ((final i).mp (List.mem_filter.mp mem).1).lt
  · rw [List.mem_append, List.mem_singleton, List.mem_filter, final, isFinal_append,
      Bool.not_eq_true']
  · -- what is read off at the places that stay is what stays of the chain
    have stays := congrArg (List.filter fun x => !replaced h x) reads
    rw [List.filter_map, List.filter_map] at stays
    have same : (places.filter fun i => !replaced h hs[i]?).map ((hs ++ [h])[·]?) =
        (places.filter fun i => !replaced h hs[i]?).map (hs[·]?) :=
      List.map_congr_left fun i mem =>
        List.getElem?_append_left ((final i).mp (List.mem_filter.mp mem).1).lt
    rw [HandlerChain.register, List.map_append, List.map_append, same, List.map_singleton,
      List.getElem?_concat_length]
    exact congrArg (· ++ [some h]) stays

/-- Registering handlers one after another keeps the last one of each type and tag. -/
theorem holdsLast_ofList (hs : List Handler) : HoldsLast hs (ofList hs) := by
  induction hs using List.reverseRecOn with
  | nil =>
    refine ⟨[], .nil, fun i => ⟨nofun, ?_⟩, rfl⟩
    rintro ⟨h, found, -⟩
    cases found
  | append_singleton hs h ih =>
    rw [ofList_append]
    exact ih.register h

/-! ## Replacing is invisible -/

/-- A handler can serve a request if it is for a marker, for the requested type or for one that
    unifies with it, and if it is for the requested tag or for all tags. -/
def CanServe (ts : TypeOracle) (q : Request) (h : Handler) : Prop :=
  (ts.isMarker h.type = true ∨ h.type = q.type ∨ ∃ s, ts.unify h.type q.type = some s) ∧
    (h.tag = .any ∨ h.tag = q.tag)

theorem serves_iff : serves ts q h = true ↔ CanServe ts q h := by
  simp only [serves, CanServe, Bool.and_eq_true, Bool.or_eq_true, beq_iff_eq,
    Option.isSome_iff_exists, or_assoc]

theorem serves_eq_false_iff : serves ts q h = false ↔ ¬ CanServe ts q h := by
  rw [← serves_iff, Bool.not_eq_true]

/-- Whatever handlers a chain is made of and whatever are registered later, a request is served by
    the last of them all that can serve it, and the chain holds the last one of each type and tag, in
    the order of the registrations. -/
theorem find?_last_registered (hs later : List Handler) :
    (∀ ts q h, (later.foldl register (ofList hs)).find? ts q = some h ↔
      ∃ before after, hs ++ later = before ++ h :: after ∧ CanServe ts q h ∧
        ∀ h' ∈ after, ¬ CanServe ts q h') ∧
    (∀ ts q, (later.foldl register (ofList hs)).find? ts q = none ↔
      ∀ h ∈ hs ++ later, ¬ CanServe ts q h) ∧
    HoldsLast (hs ++ later) (later.foldl register (ofList hs)) := by
  have all : later.foldl register (ofList hs) = ofList (hs ++ later) := by
    rw [ofList, ofList, List.foldl_append]
  rw [all]
  refine ⟨fun ts q h => ?_, fun ts q => ?_, holdsLast_ofList _⟩
  · simp only [find?_ofList_eq_some_iff, IsLast, serves_iff, serves_eq_false_iff]
  · simp only [find?_ofList_eq_none_iff, serves_eq_false_iff]

end HandlerChain

end ObjectGraph
