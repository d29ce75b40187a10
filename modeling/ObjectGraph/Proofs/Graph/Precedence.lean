import ObjectGraph.Proofs.Graph.Omission
import ObjectGraph.Proofs.Graph.Relevance

/-
  Which declaration answers a request, told by the places of the declarations.

  The declarations of a merged setup come in layers, one for each setup that was merged.  An `Offer`
  is a type that one of them binds, and its `Place` says in which layer, by which declaration and as
  which of its types.  Registration numbers the bindings in the order of their places
  (`id_lt_iff_before`), so the comparison of matches, which looks at these numbers, becomes one of
  offers: `Beats` compares tags, then exact and generic types, then places.  The binding that the
  resolver takes is the one of the best offer (`Offer.matched?_eq_some_iff`).
-/

namespace ObjectGraph

/-! ## The places of bindings -/

open BindingTable

/-- The binding comes from the declaration at an index, as the one of its types at a place. -/
structure Binding.Occupies (ds : List Declaration) (b : Binding) (j k : Nat) : Prop where
  declared : ∃ d, ds[j]? = some d ∧ b.Renders d ∧ (contractsOf d)[k]? = some b.contract
  source : b.source = .declared j
  id : b.id = offset (ds.map contractsOf) j + k

variable {s : Setup} {ds front : List Declaration} {d : Declaration} {b b' : Binding}
  {contract : TypeTerm} {j j' k k' : Nat}

theorem BindingTable.nodup_distinct {α : Type} [DecidableEq α] (l : List α) :
    (distinct l).Nodup := by
  induction l with
  | nil => exact List.nodup_nil
  | cons x l ih => exact List.nodup_cons.mpr ⟨by simp, ih.filter _⟩

/-- No declaration binds a type twice. -/
theorem BindingTable.nodup_contractsOf (d : Declaration) : (contractsOf d).Nodup := by
  unfold contractsOf
  split
  · split
    · exact nodup_distinct _
    · exact List.nodup_singleton _
    · exact List.nodup_singleton _
    · exact List.nodup_nil
  · exact nodup_distinct _

/-- Declarations that are added later leave the earlier bindings where they are. -/
theorem Binding.Occupies.append (occupies : b.Occupies front j k) (ds : List Declaration) :
    b.Occupies (front ++ ds) j k := by
  obtain ⟨⟨d, at_j, renders, at_k⟩, source, id⟩ := occupies
  have lt : j < front.length := (List.getElem?_eq_some_iff.mp at_j).1
  refine ⟨⟨d, ?_, renders, at_k⟩, source, ?_⟩
  · rw [List.getElem?_append_left lt, at_j]
  · rw [id, offset, offset, List.map_append, List.take_append_of_le_length]
    rw [List.length_map]
    exact Nat.le_of_lt lt

theorem BindingTable.declared_concat (front : List Declaration) (d : Declaration) :
    ∃ key, (addDeclarations {} 0 (front ++ [d])).declared =
      (addDeclarations {} 0 front).declared ++
        bindingsOf (addDeclarations {} 0 front).declared.length key front.length d := by
  rw [addDeclarations_append, Nat.zero_add]
  exact declared_addDeclaration _ _ _

theorem BindingTable.length_declared (ds : List Declaration) :
    (addDeclarations {} 0 ds).declared.length = (ds.map contractsOf).flatten.length := by
  induction ds using List.reverseRecOn with
  | nil => rfl
  | append_singleton front d ih =>
    obtain ⟨key, declared⟩ := declared_concat front d
    rw [declared, List.length_append, ih, bindingsOf, List.length_mapIdx]
    simp

/-- The bindings of the last declaration are where they should be. -/
theorem Binding.occupies_concat {key : BindingKey}
    (at_k : (bindingsOf (addDeclarations {} 0 front).declared.length key front.length d)[k]? =
      some b) : b.Occupies (front ++ [d]) front.length k := by
  rw [bindingsOf, List.getElem?_mapIdx] at at_k
  obtain ⟨contract, bound, rfl⟩ := Option.map_eq_some_iff.mp at_k
  refine ⟨⟨d, by simp, ⟨List.mem_of_getElem? bound, rfl, rfl, rfl, rfl⟩, bound⟩, rfl, ?_⟩
  show (addDeclarations {} 0 front).declared.length + k = _
  rw [length_declared, offset, List.map_append, List.take_append_of_le_length (by simp),
    List.take_of_length_le (by simp)]

theorem Binding.exists_occupies (mem : b ∈ (addDeclarations {} 0 ds).declared) :
    ∃ j k, b.Occupies ds j k := by
  induction ds using List.reverseRecOn with
  | nil => cases mem
  | append_singleton front d ih =>
    obtain ⟨key, declared⟩ := declared_concat front d
    rw [declared] at mem
    rcases List.mem_append.mp mem with mem | mem
    · obtain ⟨j, k, occupies⟩ := ih mem
      exact ⟨j, k, occupies.append [d]⟩
    · obtain ⟨k, at_k⟩ := List.mem_iff_getElem?.mp mem
      exact ⟨front.length, k, occupies_concat at_k⟩

theorem Binding.exists_mem_occupies (at_j : ds[j]? = some d)
    (at_k : (contractsOf d)[k]? = some contract) :
    ∃ b ∈ (addDeclarations {} 0 ds).declared, b.contract = contract ∧ b.Occupies ds j k := by
  induction ds using List.reverseRecOn with
  | nil => cases at_j
  | append_singleton front last ih =>
    obtain ⟨key, declared⟩ := declared_concat front last
    rw [declared]
    -- the bindings of the front stay as they are, so only the last declaration is of interest
    rcases Nat.lt_or_ge j front.length with lt | ge
    · rw [List.getElem?_append_left lt] at at_j
      obtain ⟨b, mem, eq, occupies⟩ := ih at_j
      exact ⟨b, List.mem_append_left _ mem, eq, occupies.append [last]⟩
    · obtain ⟨rfl, rfl⟩ : j = front.length ∧ d = last := by
        obtain ⟨lt, eq⟩ := List.getElem?_eq_some_iff.mp at_j
        have last_index : j = front.length := by
          rw [List.length_append, List.length_singleton] at lt
          omega
        subst last_index
        exact ⟨rfl, by simpa using eq.symm⟩
      obtain ⟨b, found⟩ : ∃ b, (bindingsOf (addDeclarations {} 0 front).declared.length key
          front.length d)[k]? = some b := by
        rw [bindingsOf, List.getElem?_mapIdx, at_k]
        exact ⟨_, rfl⟩
      have occupies := occupies_concat found
      obtain ⟨d', at_j', -, at_k'⟩ := occupies.declared
      cases at_j.symm.trans at_j'
      exact ⟨b, List.mem_append_right _ (List.mem_of_getElem? found),
        Option.some.inj (at_k'.symm.trans at_k), occupies⟩

/-- Bindings are numbered in the order of their places. -/
theorem Binding.Occupies.id_lt_iff (occupies : b.Occupies ds j k)
    (occupies' : b'.Occupies ds j' k') : b.id < b'.id ↔ j < j' ∨ j = j' ∧ k < k' := by
  obtain ⟨⟨d, at_j, -, at_k⟩, -, id⟩ := occupies
  obtain ⟨⟨d', at_j', -, at_k'⟩, -, id'⟩ := occupies'
  rw [id, id']
  refine offset_add_lt_iff ?_ (List.getElem?_eq_some_iff.mp at_k).1 ?_
    (List.getElem?_eq_some_iff.mp at_k').1
  · rw [List.getElem?_map, at_j, Option.map_some]
  · rw [List.getElem?_map, at_j', Option.map_some]

/-- One match is no worse than another. -/
theorem Match.isLE_cmp_iff {m n : Match} : (m.cmp n).isLE = true ↔
    m.rank < n.rank ∨ m.rank = n.rank ∧ (m.isGeneric = false ∧ n.isGeneric = true ∨
      m.isGeneric = n.isGeneric ∧ n.id ≤ m.id) := by
  have exact_first : compare false true = .lt := rfl
  rw [cmp, Ordering.isLE_then_iff_or, Ordering.isLE_then_iff_or, Nat.compare_eq_lt,
    Nat.compare_eq_eq, Nat.isLE_compare]
  cases m.isGeneric <;> cases n.isGeneric <;> simp [exact_first]

/-! ## Offers -/

/-- Where a type is bound: in a layer of declarations, by one of them, as one of its types. -/
@[ext]
structure Place where
  /-- The layer. -/
  layer : Nat
  /-- The place of the declaration in the layer. -/
  index : Nat
  /-- The place of the type among those of the declaration. -/
  contract : Nat
  deriving DecidableEq

/-- One place comes before another: in an earlier layer, by an earlier declaration of one layer, or
    as an earlier type of one declaration. -/
def Place.Before (p p' : Place) : Prop :=
  p.layer < p'.layer ∨ p.layer = p'.layer ∧
    (p.index < p'.index ∨ p.index = p'.index ∧ p.contract < p'.contract)

/-- A type that is bound at some place. -/
structure Offer where
  /-- The place. -/
  place : Place
  /-- The declaration. -/
  declaration : Declaration
  /-- The type. -/
  contract : TypeTerm

namespace Offer

variable {layers : List (List Declaration)} {o o' : Offer}

/-- The offer is one of the layers. -/
structure Stands (layers : List (List Declaration)) (o : Offer) : Prop where
  declared : ∃ ds, layers[o.place.layer]? = some ds ∧ ds[o.place.index]? = some o.declaration
  bound : (contractsOf o.declaration)[o.place.contract]? = some o.contract

/-- The place of the declaration among all declarations, one layer after the other. -/
def index (layers : List (List Declaration)) (o : Offer) : Nat :=
  offset layers o.place.layer + o.place.index

/-- The binding that registration makes of the offer. -/
structure Gives (layers : List (List Declaration)) (o : Offer) (b : Binding) : Prop where
  contract : b.contract = o.contract
  renders : b.Renders o.declaration
  source : b.source = .declared (o.index layers)

theorem Stands.getElem?_index (stands : o.Stands layers) :
    layers.flatten[o.index layers]? = some o.declaration := by
  obtain ⟨ds, at_layer, at_index⟩ := stands.declared
  exact getElem?_flatten_offset at_layer at_index

theorem Stands.index_lt_iff (stands : o.Stands layers) (stands' : o'.Stands layers) :
    o.index layers < o'.index layers ↔ o.place.layer < o'.place.layer ∨
      o.place.layer = o'.place.layer ∧ o.place.index < o'.place.index := by
  obtain ⟨ds, at_layer, at_index⟩ := stands.declared
  obtain ⟨ds', at_layer', at_index'⟩ := stands'.declared
  exact offset_add_lt_iff at_layer (List.getElem?_eq_some_iff.mp at_index).1 at_layer'
    (List.getElem?_eq_some_iff.mp at_index').1

/-- Offers of one place are the same. -/
theorem Stands.ext (stands : o.Stands layers) (stands' : o'.Stands layers)
    (place : o.place = o'.place) : o = o' := by
  obtain ⟨p, d, contract⟩ := o
  obtain ⟨p', d', contract'⟩ := o'
  obtain rfl : p = p' := place
  obtain ⟨⟨ds, at_layer, at_index⟩, bound⟩ := stands
  obtain ⟨⟨ds', at_layer', at_index'⟩, bound'⟩ := stands'
  cases at_layer.symm.trans at_layer'
  obtain rfl : d = d' := Option.some.inj (at_index.symm.trans at_index')
  obtain rfl : contract = contract' := Option.some.inj (bound.symm.trans bound')
  rfl

section Registered

variable {s : Setup} {b b' : Binding} (layered : s.declarations = layers.flatten)
include layered

theorem Gives.occupies (stands : o.Stands layers) (gives : o.Gives layers b)
    (declared : b ∈ (register s).declared) :
    b.Occupies layers.flatten (o.index layers) o.place.contract := by
  rw [register, layered] at declared
  obtain ⟨j, k, occupies⟩ := Binding.exists_occupies declared
  obtain ⟨d, at_j, -, at_k⟩ := occupies.declared
  obtain rfl : j = o.index layers := by
    have same := occupies.source.symm.trans gives.source
    injection same
  obtain rfl : d = o.declaration := Option.some.inj (at_j.symm.trans stands.getElem?_index)
  have same : (contractsOf o.declaration)[k]? = (contractsOf o.declaration)[o.place.contract]? := by
    rw [at_k, gives.contract, stands.bound]
  rw [List.getElem?_inj (List.getElem?_eq_some_iff.mp at_k).1 (nodup_contractsOf _)] at same
  exact same ▸ occupies

/-- Every binding comes from an offer, ... -/
theorem exists_gives (declared : b ∈ (register s).declared) :
    ∃ o : Offer, o.Stands layers ∧ o.Gives layers b := by
  rw [register, layered] at declared
  obtain ⟨j, k, ⟨d, at_j, renders, at_k⟩, source, -⟩ := Binding.exists_occupies declared
  obtain ⟨layer, ds, i, at_layer, at_index, rfl⟩ := exists_offset at_j
  exact ⟨⟨⟨layer, i, k⟩, d, b.contract⟩, ⟨⟨ds, at_layer, at_index⟩, at_k⟩, rfl, renders, source⟩

/-- ... and every offer gives a binding. -/
theorem Stands.exists_binding (stands : o.Stands layers) :
    ∃ b ∈ (register s).declared, o.Gives layers b := by
  obtain ⟨b, declared, contract, occupies⟩ :=
    Binding.exists_mem_occupies stands.getElem?_index stands.bound
  obtain ⟨d, at_index, renders, -⟩ := occupies.declared
  cases stands.getElem?_index.symm.trans at_index
  rw [register, layered]
  exact ⟨b, declared, contract, renders, occupies.source⟩

variable (stands : o.Stands layers) (stands' : o'.Stands layers) (gives : o.Gives layers b)
  (gives' : o'.Gives layers b') (declared : b ∈ (register s).declared)
  (declared' : b' ∈ (register s).declared)
include stands stands' gives gives' declared declared'

/-- Bindings are numbered in the order of the places of their offers. -/
theorem id_lt_iff_before : b.id < b'.id ↔ o.place.Before o'.place := by
  have stand : ¬ o'.index layers < o.index layers → ¬ o.index layers < o'.index layers →
      o.place.layer = o'.place.layer ∧ o.place.index = o'.place.index := by
    rw [stands.index_lt_iff stands', stands'.index_lt_iff stands]
    omega
  rw [(gives.occupies layered stands declared).id_lt_iff
    (gives'.occupies layered stands' declared'), stands.index_lt_iff stands', Place.Before]
  constructor
  · rintro ((layer | index) | ⟨same, contract⟩)
    · exact .inl layer
    · exact .inr ⟨index.1, .inl index.2⟩
    · have := stand (by omega) (by omega)
      exact .inr ⟨this.1, .inr ⟨this.2, contract⟩⟩
  · rintro (layer | ⟨layer, index | ⟨index, contract⟩⟩)
    · exact .inl (.inl layer)
    · exact .inl (.inr ⟨layer, index⟩)
    · refine .inr ⟨?_, contract⟩
      unfold Offer.index
      rw [layer, index]

/-- One binding comes from one offer. -/
theorem eq_iff_id_eq : o = o' ↔ b.id = b'.id := by
  constructor
  · rintro rfl
    rw [(gives.occupies layered stands declared).id, (gives'.occupies layered stands declared').id]
  · intro same
    have before := id_lt_iff_before layered stands stands' gives gives' declared declared'
    have behind := id_lt_iff_before layered stands' stands gives' gives declared' declared
    rw [same] at before behind
    have not_before := mt before.mpr (Nat.lt_irrefl _)
    have not_behind := mt behind.mpr (Nat.lt_irrefl _)
    unfold Place.Before at not_before not_behind
    exact stands.ext stands' (Place.ext (by omega) (by omega) (by omega))

end Registered

/-! ## The best offer -/

variable {ts : TypeOracle} {q : Request} {lastResort : Bool} {b b' : Binding} {m n : Match}

/-- How well the tags of the declaration fit the requested one. -/
def rank? (o : Offer) (q : Request) : Option Nat := Binding.tagRank? o.declaration.tags q.tag

/-- The offer matches a request, as one of the last resort or as any other. -/
structure Suits (ts : TypeOracle) (lastResort : Bool) (q : Request) (o : Offer) : Prop where
  type : o.contract = q.type ∨
    ts.isOpen o.contract = true ∧ (ts.unify o.contract q.type).isSome = true
  tag : (o.rank? q).isSome = true
  kind : o.declaration.recipe.isLastResort = lastResort

/-- One offer is preferred to another: its tags fit better; or they fit as well, and its type is
    exact while the other one is generic; or neither makes a difference, and its place comes
    later. -/
def Beats (ts : TypeOracle) (q : Request) (o o' : Offer) : Prop :=
  ∃ n n', o.rank? q = some n ∧ o'.rank? q = some n' ∧ (n < n' ∨ n = n' ∧
    (ts.isOpen o.contract = false ∧ ts.isOpen o'.contract = true ∨
      ts.isOpen o.contract = ts.isOpen o'.contract ∧ o'.place.Before o.place))

/-- The offer is the best one that matches a request. -/
structure Best (layers : List (List Declaration)) (ts : TypeOracle) (lastResort : Bool)
    (q : Request) (o : Offer) : Prop where
  stands : o.Stands layers
  suits : o.Suits ts lastResort q
  leads : ∀ o' : Offer, o'.Stands layers → o'.Suits ts lastResort q → o' ≠ o → o.Beats ts q o'

/-- The match of the binding of an offer. -/
theorem Gives.of?_eq_some_iff (gives : o.Gives layers b) : Match.of? ts q b = some m ↔
    o.rank? q = some m.rank ∧ ts.matchContract o.contract q.type = some m.substitution ∧
      m.isGeneric = ts.isOpen o.contract ∧ m.id = b.id := by
  rw [Match.of?, Binding.rank?, gives.renders.tags, gives.contract, rank?]
  constructor
  · intro found
    obtain ⟨rank, fits, found⟩ := Option.bind_eq_some_iff.mp found
    obtain ⟨s, matched, made⟩ := Option.bind_eq_some_iff.mp found
    cases made
    exact ⟨fits, matched, rfl, rfl⟩
  · rintro ⟨fits, matched, generic, id⟩
    rw [fits, matched]
    obtain ⟨rank, isGeneric, id', s⟩ := m
    cases generic
    cases id
    rfl

theorem Gives.exists_of?_iff (gives : o.Gives layers b) :
    (∃ m, b.recipe.isLastResort = lastResort ∧ Match.of? ts q b = some m) ↔
      o.Suits ts lastResort q := by
  constructor
  · rintro ⟨m, kind, found⟩
    obtain ⟨fits, matched, -⟩ := gives.of?_eq_some_iff.mp found
    exact ⟨TypeOracle.isSome_matchContract_iff.mp (by rw [matched]; rfl), by rw [fits]; rfl,
      gives.renders.recipe ▸ kind⟩
  · intro suits
    obtain ⟨rank, fits⟩ := Option.isSome_iff_exists.mp suits.tag
    obtain ⟨s, matched⟩ :=
      Option.isSome_iff_exists.mp (TypeOracle.isSome_matchContract_iff.mpr suits.type)
    exact ⟨⟨rank, ts.isOpen o.contract, b.id, s⟩, gives.renders.recipe ▸ suits.kind,
      gives.of?_eq_some_iff.mpr ⟨fits, matched, rfl, rfl⟩⟩

section Registered

variable {s : Setup} {r : Resolver} {p : Provider} (layered : s.declarations = layers.flatten)
include layered

theorem mem_candidates_iff : m ∈ (register s).candidates ts lastResort q ↔
    ∃ (o : Offer) (b : Binding), o.Stands layers ∧ o.Suits ts lastResort q ∧
      b ∈ (register s).declared ∧ o.Gives layers b ∧ Match.of? ts q b = some m := by
  rw [BindingTable.mem_candidates]
  constructor
  · rintro ⟨b, declared, kind, found⟩
    obtain ⟨o, stands, gives⟩ := exists_gives layered declared
    exact ⟨o, b, stands, gives.exists_of?_iff.mp ⟨m, kind, found⟩, declared, gives, found⟩
  · rintro ⟨o, b, -, suits, declared, gives, found⟩
    exact ⟨b, declared, gives.renders.recipe ▸ suits.kind, found⟩

/-- Matches are compared like their offers. -/
theorem beats_iff_isLE (stands : o.Stands layers) (stands' : o'.Stands layers)
    (gives : o.Gives layers b) (gives' : o'.Gives layers b') (declared : b ∈ (register s).declared)
    (declared' : b' ∈ (register s).declared) (found : Match.of? ts q b = some m)
    (found' : Match.of? ts q b' = some n) (ne : o' ≠ o) :
    o.Beats ts q o' ↔ (m.cmp n).isLE = true := by
  obtain ⟨fits, -, generic, id⟩ := gives.of?_eq_some_iff.mp found
  obtain ⟨fits', -, generic', id'⟩ := gives'.of?_eq_some_iff.mp found'
  -- different offers have different numbers, so there is no tie
  have later : n.id ≤ m.id ↔ o'.place.Before o.place := by
    rw [← id_lt_iff_before layered stands' stands gives' gives declared' declared, id, id',
      Nat.lt_iff_le_and_ne, and_iff_left]
    exact fun same =>
      ne ((eq_iff_id_eq layered stands' stands gives' gives declared' declared).mpr same)
  rw [Match.isLE_cmp_iff, generic, generic', later, Beats, fits, fits']
  constructor
  · rintro ⟨k, k', same, same', beats⟩
    cases same
    cases same'
    exact beats
  · exact fun beats => ⟨_, _, rfl, rfl, beats⟩

theorem bestMatch?_eq_some_iff : (register s).bestMatch? ts lastResort q = some m ↔
    ∃ (o : Offer) (b : Binding), o.Best layers ts lastResort q ∧ b ∈ (register s).declared ∧
      o.Gives layers b ∧ Match.of? ts q b = some m := by
  constructor
  · intro best
    obtain ⟨o, b, stands, suits, declared, gives, found⟩ :=
      (mem_candidates_iff layered).mp (Match.mem_of_best? best)
    refine ⟨o, b, ⟨stands, suits, fun o' stands' suits' ne => ?_⟩, declared, gives, found⟩
    obtain ⟨b', declared', gives'⟩ := stands'.exists_binding layered
    obtain ⟨n, -, found'⟩ := gives'.exists_of?_iff.mpr suits'
    refine (beats_iff_isLE layered stands stands' gives gives' declared declared' found found'
      ne).mpr (Match.isLE_of_best? best n ?_)
    exact (mem_candidates_iff layered).mpr ⟨o', b', stands', suits', declared', gives', found'⟩
  · rintro ⟨o, b, ⟨stands, suits, leads⟩, declared, gives, found⟩
    refine Match.best?_eq_some (numbered_register s).candidates_distinct
      ((mem_candidates_iff layered).mpr ⟨o, b, stands, suits, declared, gives, found⟩)
      fun n mem => ?_
    obtain ⟨o', b', stands', suits', declared', gives', found'⟩ :=
      (mem_candidates_iff layered).mp mem
    -- `Best` compares an offer with the others only, the choice of the resolver with itself as well
    by_cases ne : o' = o
    · have same := (eq_iff_id_eq layered stands' stands gives' gives declared' declared).mp ne
      cases (numbered_register s).eq_of_id declared' declared same
      cases found.symm.trans found'
      rw [@Std.ReflCmp.compare_self _ Match.cmp _]
      rfl
    · exact (beats_iff_isLE layered stands stands' gives gives' declared declared' found found'
        ne).mp (leads o' stands' suits' ne)

theorem bestMatch?_eq_none_iff : (register s).bestMatch? ts lastResort q = none ↔
    ∀ o : Offer, o.Stands layers → ¬ o.Suits ts lastResort q := by
  rw [BindingTable.bestMatch?_eq_none_iff, List.eq_nil_iff_forall_not_mem]
  constructor
  · intro none o stands suits
    obtain ⟨b, declared, gives⟩ := stands.exists_binding layered
    obtain ⟨m, -, found⟩ := gives.exists_of?_iff.mpr suits
    exact none m ((mem_candidates_iff layered).mpr ⟨o, b, stands, suits, declared, gives, found⟩)
  · intro none m mem
    obtain ⟨o, b, stands, suits, -⟩ := (mem_candidates_iff layered).mp mem
    exact none o stands suits

/-- The resolver takes the binding of the best offer, and none if there is no offer. -/
theorem matched?_eq_some_iff : r.matched? (register s) lastResort q = some p ↔
    ∃ (o : Offer) (b : Binding) (σ : Substitution), o.Best layers r.types lastResort q ∧
      b ∈ (register s).declared ∧ o.Gives layers b ∧
      r.types.matchContract o.contract q.type = some σ ∧ p = .of r.types b σ := by
  rw [Resolver.matched?_eq_some_iff (numbered_register s)]
  constructor
  · rintro ⟨b', declared', m, best, id, rfl⟩
    obtain ⟨o, b, best, declared, gives, found⟩ := (bestMatch?_eq_some_iff layered).mp best
    obtain ⟨-, matched, -, id'⟩ := gives.of?_eq_some_iff.mp found
    cases (numbered_register s).eq_of_id declared declared' (id'.symm.trans id)
    exact ⟨o, _, _, best, declared, gives, matched, rfl⟩
  · rintro ⟨o, b, σ, best, declared, gives, matched, rfl⟩
    obtain ⟨m, -, found⟩ := gives.exists_of?_iff.mpr best.suits
    obtain ⟨-, matched', -, id⟩ := gives.of?_eq_some_iff.mp found
    cases matched.symm.trans matched'
    exact ⟨b, declared, m,
      (bestMatch?_eq_some_iff layered).mpr ⟨o, b, best, declared, gives, found⟩, id, rfl⟩

theorem matched?_eq_none_iff : r.matched? (register s) lastResort q = none ↔
    ∀ o : Offer, o.Stands layers → ¬ o.Suits r.types lastResort q := by
  rw [← bestMatch?_eq_none_iff layered, ← not_iff_not, ← ne_eq, ← ne_eq,
    Option.ne_none_iff_exists', Option.ne_none_iff_exists']
  simp only [Resolver.matched?_eq_some_iff (numbered_register s)]
  constructor
  · rintro ⟨p, b, declared, m, best, -⟩
    exact ⟨m, best⟩
  · rintro ⟨m, best⟩
    obtain ⟨b, declared, id, -⟩ := Resolver.bestMatch?_eq_some (r := r) best
    exact ⟨_, b, declared, m, best, id, rfl⟩

end Registered

end Offer

end ObjectGraph
