import ObjectGraph.Proofs.Graph.Omission

/-
  Declarations that no root needs.

  When a declaration is left out whose bindings are not reached, every request of the providers that
  are reached is answered as before: the best match is still there, and an optional request or an item
  of a collection that had no answer gets none now.  So the same providers are reached, and they demand
  the same (`Resolver.translates_of_omits`).

  There is one way in which such a declaration can matter.  Constructors are ranked by the number of
  parameters that can be answered, be it by the last resort; but an optional parameter is never
  answered by the last resort.  So a binding of the last resort can win a constructor its place
  without being used, and this is ruled out by a hypothesis (`Resolver.Steady`).
-/

namespace ObjectGraph

open BindingTable

variable {ts : TypeOracle} {r : Resolver} {t t' : BindingTable} {source : Binding.Source}
  {f : Binding → Binding} {b b' : Binding} {p p' : Provider} {q : Request} {lastResort : Bool}
  {m : Match}

namespace Provider

/-- The declared binding that a provider goes back to; none for a fallback request. -/
def base? : Provider → Option Binding
  | declared b => some b
  | specialized b _ => some b
  | fallback _ _ => none

/-- The provider of another declared binding. -/
def map (f : Binding → Binding) : Provider → Provider
  | declared b => declared (f b)
  | specialized b s => specialized (f b) s
  | fallback h q => fallback h q

@[simp] theorem base?_of (ts : TypeOracle) (b : Binding) (s : Substitution) :
    (Provider.of ts b s).base? = some b := by
  unfold of
  split <;> rfl

theorem map_of (alike : b.Alike (f b)) (s : Substitution) :
    (Provider.of ts b s).map f = .of ts (f b) s := by
  unfold of
  rw [← alike.contract]
  split <;> rfl

theorem alike_map (alike : ∀ b, p.base? = some b → b.Alike (f b)) :
    p.binding.Alike (p.map f).binding := by
  cases p with
  | declared b => exact alike b rfl
  | specialized b s =>
    have same := alike b rfl
    exact ⟨congrArg (TypeTerm.substitute s) same.contract, same.tags, same.lifetime,
      congrArg (Recipe.substitute s) same.recipe, same.location⟩
  | fallback h q => exact .refl _

end Provider

/-! ## Best matches -/

theorem BindingTable.mem_candidates : m ∈ t.candidates ts lastResort q ↔
    ∃ b ∈ t.declared, b.recipe.isLastResort = lastResort ∧ Match.of? ts q b = some m := by
  rw [candidates, List.mem_filterMap]
  simp only [List.mem_filter, beq_iff_eq, and_assoc]

theorem BindingTable.bestMatch?_eq_none_iff :
    t.bestMatch? ts lastResort q = none ↔ t.candidates ts lastResort q = [] := by
  constructor
  · intro none
    by_contra there
    obtain ⟨m, best⟩ := Match.exists_best? there
    rw [BindingTable.bestMatch?, best] at none
    cases none
  · intro none
    rw [BindingTable.bestMatch?, none]
    rfl

theorem Match.id_of? (found : Match.of? ts q b = some m) : m.id = b.id := by
  obtain ⟨rank, -, found⟩ := Option.bind_eq_some_iff.mp found
  obtain ⟨s, -, made⟩ := Option.bind_eq_some_iff.mp found
  cases made
  rfl

/-- Bindings that are alike match alike, under their ids. -/
theorem Match.of?_alike (alike : b.Alike b') :
    Match.of? ts q b' = (Match.of? ts q b).map ({ · with id := b'.id }) := by
  unfold Match.of? Binding.rank?
  rw [← alike.tags, ← alike.contract]
  cases Binding.tagRank? b.tags q.tag with
  | none => rfl
  | some rank =>
    show Option.bind _ _ = Option.map _ (Option.bind _ _)
    cases ts.matchContract b.contract q.type <;> rfl

namespace BindingTable

theorem Numbered.eq_of_id (numbered : t.Numbered) (mem : b ∈ t.declared) (mem' : b' ∈ t.declared)
    (id : b.id = b'.id) : b = b' := by
  have at_id := numbered.getElem?_id mem
  rw [id, numbered.getElem?_id mem'] at at_id
  exact (Option.some.inj at_id).symm

theorem Numbered.candidates_distinct (numbered : t.Numbered) :
    ∀ m ∈ t.candidates ts lastResort q, ∀ n ∈ t.candidates ts lastResort q, m.id = n.id → m = n := by
  intro m mem n mem' id
  obtain ⟨b, declared, -, found⟩ := mem_candidates.mp mem
  obtain ⟨b', declared', -, found'⟩ := mem_candidates.mp mem'
  rw [Match.id_of? found, Match.id_of? found'] at id
  cases numbered.eq_of_id declared declared' id
  exact Option.some.inj (found.symm.trans found')

namespace Omits

theorem mem_declared_iff (omits : t.Omits t' source f) :
    b' ∈ t'.declared ↔ ∃ b ∈ t.declared, b.source ≠ source ∧ f b = b' := by
  rw [omits.declared, List.mem_map]
  simp only [List.mem_filter, decide_eq_true_eq, and_assoc]

variable (omits : t.Omits t' source f)
include omits

/-- What matches without the bindings left out matched before. -/
theorem exists_candidate {m' : Match} (mem : m' ∈ t'.candidates ts lastResort q) :
    ∃ b ∈ t.declared, b.source ≠ source ∧ ∃ m ∈ t.candidates ts lastResort q, m.id = b.id ∧
      m' = { m with id := (f b).id } := by
  obtain ⟨b', declared', last, found⟩ := mem_candidates.mp mem
  obtain ⟨b, declared, kept, rfl⟩ := omits.mem_declared_iff.mp declared'
  have alike := omits.alike declared kept
  rw [Match.of?_alike alike] at found
  obtain ⟨m, found', rfl⟩ := Option.map_eq_some_iff.mp found
  exact ⟨b, declared, kept, m,
    mem_candidates.mpr ⟨b, declared, by rw [alike.recipe, last], found'⟩, Match.id_of? found', rfl⟩

theorem bestMatch?_eq_none (unmatched : t.bestMatch? ts lastResort q = none) :
    t'.bestMatch? ts lastResort q = none := by
  rw [bestMatch?_eq_none_iff] at unmatched ⊢
  refine List.eq_nil_iff_forall_not_mem.mpr fun m' mem => ?_
  obtain ⟨b, -, -, m, mem, -⟩ := omits.exists_candidate mem
  rw [unmatched] at mem
  cases mem

/-- The best match stays the best. -/
theorem bestMatch?_eq_some (numbered : t.Numbered) (numbered' : t'.Numbered)
    (best : t.bestMatch? ts lastResort q = some m) (declared : b ∈ t.declared) (id : m.id = b.id)
    (kept : b.source ≠ source) :
    t'.bestMatch? ts lastResort q = some { m with id := (f b).id } := by
  obtain ⟨b₀, declared₀, last, found⟩ := mem_candidates.mp (Match.mem_of_best? best)
  cases numbered.eq_of_id declared₀ declared ((Match.id_of? found).symm.trans id)
  have alike := omits.alike declared kept
  refine Match.best?_eq_some numbered'.candidates_distinct ?_ fun n' mem' => ?_
  · refine mem_candidates.mpr ⟨f b, omits.mem_declared_iff.mpr ⟨b, declared, kept, rfl⟩, ?_, ?_⟩
    · rw [← alike.recipe, last]
    · rw [Match.of?_alike alike, found]
      rfl
  · obtain ⟨c, declared', kept', n, mem, n_id, rfl⟩ := omits.exists_candidate mem'
    have same : compare n.id m.id = compare (f c).id (f b).id := by
      rw [id, n_id]
      exact (omits.compare_id declared' declared kept' kept).symm
    have cmp : m.cmp n = Match.cmp { m with id := (f b).id } { n with id := (f c).id } :=
      Match.cmp_eq ⟨rfl, rfl⟩ ⟨rfl, rfl⟩ same
    exact cmp ▸ Match.isLE_of_best? best n mem

end Omits

end BindingTable

/-! ## Answers -/

namespace Resolver

/-- What matches best is a declared binding, or its specialization. -/
theorem matched?_eq_some_iff (numbered : t.Numbered) : r.matched? t lastResort q = some p ↔
    ∃ b ∈ t.declared, ∃ m, t.bestMatch? r.types lastResort q = some m ∧ m.id = b.id ∧
      p = .of r.types b m.substitution := by
  rw [matched?, Option.bind_eq_some_iff]
  constructor
  · rintro ⟨m, best, made⟩
    obtain ⟨b, declared, id, -⟩ := bestMatch?_eq_some best
    rw [id, numbered.binding?_id declared] at made
    cases made
    exact ⟨b, declared, m, best, id, rfl⟩
  · rintro ⟨b, declared, m, best, id, rfl⟩
    refine ⟨m, best, ?_⟩
    rw [id, numbered.binding?_id declared]
    rfl

/-- Every best match is a provider. -/
theorem isSome_matched? (numbered : t.Numbered) (lastResort : Bool) (q : Request) :
    (r.matched? t lastResort q).isSome = (t.bestMatch? r.types lastResort q).isSome := by
  rw [Bool.eq_iff_iff, Option.isSome_iff_exists, Option.isSome_iff_exists]
  constructor
  · rintro ⟨p, found⟩
    obtain ⟨b, -, m, best, -⟩ := (matched?_eq_some_iff numbered).mp found
    exact ⟨m, best⟩
  · rintro ⟨m, best⟩
    obtain ⟨b, declared, id, -⟩ := bestMatch?_eq_some best
    exact ⟨_, (matched?_eq_some_iff numbered).mpr ⟨b, declared, m, best, id, rfl⟩⟩

/-- A request can be answered exactly if something answers it when it is required. -/
theorem canAnswer_iff (numbered : t.Numbered) :
    r.canAnswer t q = true ↔ ∃ p, r.provider? t q false = some p := by
  rw [← Option.isSome_iff_exists, canAnswer, provider?, Option.isSome_or, if_neg Bool.false_ne_true,
    Option.isSome_or, Option.isSome_map, isSome_matched? numbered, isSome_matched? numbered,
    Bool.or_assoc]

section Omits

variable (omits : t.Omits t' source f) (numbered : t.Numbered) (numbered' : t'.Numbered)
include omits numbered

theorem matched?_eq_none (unmatched : r.matched? t lastResort q = none) :
    r.matched? t' lastResort q = none := by
  have none : t.bestMatch? r.types lastResort q = none := by
    rw [Option.eq_none_iff_forall_ne_some]
    intro m best
    obtain ⟨b, declared, id, -⟩ := bestMatch?_eq_some best
    rw [(matched?_eq_some_iff numbered).mpr ⟨b, declared, m, best, id, rfl⟩] at unmatched
    cases unmatched
  rw [matched?, omits.bestMatch?_eq_none none]
  rfl

include numbered'

theorem matched?_map (found : r.matched? t lastResort q = some p)
    (kept : ∀ b, p.base? = some b → b.source ≠ source) :
    r.matched? t' lastResort q = some (p.map f) := by
  obtain ⟨b, declared, m, best, id, rfl⟩ := (matched?_eq_some_iff numbered).mp found
  have kept := kept b (Provider.base?_of ..)
  refine (matched?_eq_some_iff numbered').mpr ⟨f b, omits.mem_declared_iff.mpr
    ⟨b, declared, kept, rfl⟩, _, omits.bestMatch?_eq_some numbered numbered' best declared id kept,
    rfl, Provider.map_of (omits.alike declared kept) _⟩

/-- A request is answered as before, if its answer was not left out. -/
theorem provider?_map {isOptional : Bool}
    (kept : ∀ p, r.provider? t q isOptional = some p → ∀ b, p.base? = some b → b.source ≠ source) :
    (r.provider? t q isOptional).map (·.map f) = r.provider? t' q isOptional := by
  unfold provider? at kept ⊢
  cases found : r.matched? t false q with
  | some p =>
    rw [found, Option.some_or] at kept
    rw [matched?_map omits numbered numbered' found (kept p rfl)]
    rfl
  | none =>
    rw [found, Option.none_or] at kept
    rw [matched?_eq_none omits numbered found, Option.none_or, Option.none_or]
    cases isOptional with
    | true => rfl
    | false =>
      rw [if_neg Bool.false_ne_true] at kept ⊢
      cases handled : r.handlers.find? r.types q with
      | some h => rfl
      | none =>
        rw [handled, Option.map_none, Option.none_or] at kept
        rw [Option.map_none, Option.none_or, Option.none_or]
        cases last : r.matched? t true q with
        | some p => rw [matched?_map omits numbered numbered' last (kept p last)]; rfl
        | none => rw [matched?_eq_none omits numbered last]; rfl

omit numbered numbered' in
/-- Nothing can be answered that could not be answered before. -/
theorem canAnswer_of_canAnswer (answered : r.canAnswer t' q = true) : r.canAnswer t q = true := by
  have matched {lastResort : Bool} (found : (t'.bestMatch? r.types lastResort q).isSome = true) :
      (t.bestMatch? r.types lastResort q).isSome = true := by
    by_contra unmatched
    rw [Bool.not_eq_true, Option.isSome_eq_false_iff, Option.isNone_iff_eq_none] at unmatched
    rw [omits.bestMatch?_eq_none unmatched] at found
    cases found
  simp only [canAnswer, Bool.or_eq_true] at answered ⊢
  exact answered.imp (.imp_left matched) matched

/-- What is answered by what was not left out can still be answered. -/
theorem canAnswer_of_kept (answered : r.canAnswer t q = true)
    (kept : ∀ p, r.provider? t q false = some p → ∀ b, p.base? = some b → b.source ≠ source) :
    r.canAnswer t' q = true := by
  obtain ⟨p, provider⟩ := (canAnswer_iff numbered).mp answered
  refine (canAnswer_iff numbered').mpr ⟨p.map f, ?_⟩
  rw [← provider?_map omits numbered numbered' kept, provider]
  rfl

/-! ## Demands -/

omit numbered numbered' in
/-- A collection has the items that it had. -/
theorem itemMatches_map {element : TypeTerm}
    (kept : ∀ m ∈ t.itemMatches ts element, m.1.source ≠ source) :
    t'.itemMatches ts element = (t.itemMatches ts element).map fun m => (f m.1, m.2) := by
  let item (b : Binding) : Option (Binding × Substitution) :=
    if (!b.recipe.isBuiltin) = true then (ts.matchContract b.contract element).map (b, ·) else none
  have items (t : BindingTable) : t.itemMatches ts element = t.declared.filterMap item :=
    List.filterMap_filter ..
  have each : ∀ b ∈ t.declared, (if decide (b.source ≠ source) = true then item (f b) else none) =
      (item b).map fun m => (f m.1, m.2) := by
    intro b declared
    by_cases other : b.source ≠ source
    · have alike := omits.alike declared other
      rw [if_pos (decide_eq_true other)]
      simp only [item, ← alike.recipe, ← alike.contract]
      split
      · rw [Option.map_map]
        rfl
      · rfl
    · rw [if_neg (by simpa using other)]
      cases found : item b with
      | none => rfl
      | some m =>
        refine absurd (kept m (by rw [items]; exact List.mem_filterMap.mpr ⟨b, declared, found⟩)) ?_
        have same : m.1 = b := by
          simp only [item] at found
          split at found
          · obtain ⟨s, -, rfl⟩ := Option.map_eq_some_iff.mp found
            rfl
          · cases found
        rwa [same]
  rw [items, items, omits.declared, List.filterMap_map, List.filterMap_filter, List.map_filterMap]
  exact List.filterMap_congr each

/-- The demands of a node are the same, if what answers them was not left out. -/
theorem demandsOf_translates (kind : Node.Kind)
    (kept : ∀ d ∈ r.demandsOf t kind, ∀ p, r.supplier? t d = some p →
      ∀ b, p.base? = some b → b.source ≠ source) :
    List.Forall₂ (TranslatesDemand r t t' (·.map f)) (r.demandsOf t kind)
      (r.demandsOf t' kind) := by
  have plain {ds : List Demand} (unpinned : ∀ d ∈ ds, d.pinned = none)
      (kept : ∀ d ∈ ds, ∀ p, r.supplier? t d = some p → ∀ b, p.base? = some b → b.source ≠ source) :
      List.Forall₂ (TranslatesDemand r t t' (·.map f)) ds ds := by
    refine List.forall₂_same.mpr fun d mem => ⟨rfl, rfl, ?_⟩
    have kept := kept d mem
    simp only [supplier?, unpinned d mem, Option.none_or] at kept ⊢
    exact provider?_map omits numbered numbered' kept
  cases kind with
  | provide p =>
    unfold demandsOf at kept ⊢
    dsimp only at kept ⊢
    cases collection : p.kind.isCollection with
    | false => exact .nil
    | true =>
      cases found : p.type.element? with
      | none => exact .nil
      | some element =>
        rw [collection, found] at kept
        have others : ∀ m ∈ t.itemMatches r.types element, m.1.source ≠ source := fun m mem =>
          kept _ (List.mem_map_of_mem mem) (.of r.types m.1 m.2) Option.some_or m.1
            (Provider.base?_of ..)
        have items := itemMatches_map omits others
        dsimp only
        rw [items, List.map_map]
        refine List.forall₂_map_left_iff.mpr <| List.forall₂_map_right_iff.mpr <|
          List.forall₂_same.mpr fun m mem => ?_
        have alike := omits.alike (mem_declared_of_itemMatches mem) (others m mem)
        refine ⟨?_, rfl, ?_⟩
        · simp only [Function.comp_apply, alike.tags]
        · simp only [supplier?, Option.some_or, Function.comp_apply, Option.map_some,
            Provider.map_of alike]
  | construct | factory | outside =>
    refine plain (fun d mem => ?_) kept
    obtain ⟨_, -, rfl⟩ := List.mem_map.mp mem
    rfl

end Omits

/-! ## Nodes -/

/-- What can be answered decides about the order of the constructions only. -/
theorem constructions_cases (rules : List AttributeRule) (location : Location) (c : Class) :
    (∃ faults, ∀ canAnswer, Node.constructions rules location canAnswer c = .error faults) ∨
      ∃ make : InjectedCall → Construction, (∀ call, (make call).constructor = call) ∧
        ∀ canAnswer, Node.constructions rules location canAnswer c =
          .ok ((ConstructorCandidate.rank canAnswer (Node.successes
            (AttributeReader.constructors ⟨rules, c.type, location⟩ c))).map make) := by
  unfold Node.constructions
  split
  · exact .inl ⟨_, fun _ => rfl⟩
  · dsimp only
    split
    · exact .inl ⟨_, fun _ => rfl⟩
    · split
      · exact .inl ⟨_, fun _ => rfl⟩
      · exact .inr ⟨_, fun _ => rfl, fun _ => rfl⟩

/-- The parameters of its constructor are among the demands of a construction. -/
theorem parameter_mem_demandsOf (r : Resolver) (t : BindingTable) {c : Construction}
    {q : InjectedParameter} (mem : q ∈ c.constructor.parameters) :
    ⟨q.request, q.hasDefault, none⟩ ∈ r.demandsOf t (.construct c) := by
  refine List.mem_map.mpr ⟨(q.request, q.hasDefault, none), ?_, rfl⟩
  refine List.mem_append_left _ (List.mem_append_left _ (List.mem_append_left _ ?_))
  exact List.mem_map.mpr ⟨q, mem, rfl⟩

/-- A node can be selected at once if all that it requires is supplied. -/
theorem isServable_of_supplied (numbered : t.Numbered) {kind : Node.Kind}
    (supplied : ∀ d ∈ r.demandsOf t kind, d.isOptional = false → ∃ p, r.supplier? t d = some p) :
    r.isServable t kind = true := by
  refine List.all_eq_true.mpr fun d mem => ?_
  cases optional : d.isOptional with
  | true => rfl
  | false =>
    obtain ⟨p, supplier⟩ := supplied d mem optional
    rcases Option.or_eq_some_iff.mp supplier with pinned | ⟨-, provider⟩
    · rw [pinned]
      rfl
    · rw [optional] at provider
      rw [(canAnswer_iff numbered).mpr ⟨p, provider⟩, Bool.or_true]

/-- A constructor that was servable stays so only if what it requires can still be answered. -/
theorem isServable_construct (fewer : ∀ q, r.canAnswer t' q = true → r.canAnswer t q = true)
    {c : Construction} (servable : r.isServable t' (.construct c) = true) :
    r.isServable t (.construct c) = true := by
  unfold isServable at servable ⊢
  rw [List.all_eq_true] at servable ⊢
  intro d mem
  have still := servable d mem
  simp only [Bool.or_eq_true] at still ⊢
  exact still.imp_right (fewer d.request)

/-- The parameters of the constructors that are selected can be answered as before, if they can be
    left to their default values at all.  The others are supplied anyway. -/
def Steady (r : Resolver) (t t' : BindingTable) (roots : List RootDeclaration) : Prop :=
  ∀ p, r.Reached t roots p → ∀ c, r.kind? t p = some (.construct c) →
    ∀ q ∈ c.constructor.parameters, q.hasDefault = true →
      r.canAnswer t q.request = true → r.canAnswer t' q.request = true

/-- The providers that are reached go back to declared bindings. -/
theorem Reached.declared {roots : List RootDeclaration} (numbered : t.Numbered)
    (reached : r.Reached t roots p) : ∀ b, p.base? = some b → b ∈ t.declared := by
  have matched {lastResort : Bool} {q : Request} {p : Provider}
      (found : r.matched? t lastResort q = some p) : ∀ b, p.base? = some b → b ∈ t.declared := by
    obtain ⟨b, declared, m, -, -, rfl⟩ := (matched?_eq_some_iff numbered).mp found
    rw [Provider.base?_of]
    rintro _ ⟨⟩
    exact declared
  have provider {q : Request} {isOptional : Bool} {p : Provider}
      (found : r.provider? t q isOptional = some p) : ∀ b, p.base? = some b → b ∈ t.declared := by
    rcases Option.or_eq_some_iff.mp found with found | ⟨-, found⟩
    · exact matched found
    · split at found
      · cases found
      · rcases Option.or_eq_some_iff.mp found with handled | ⟨-, found⟩
        · obtain ⟨h, -, rfl⟩ := Option.map_eq_some_iff.mp handled
          nofun
        · exact matched found
  cases reached with
  | root _ answered => exact provider answered
  | @demand p₀ _ d _ demanded answered =>
    rcases Option.or_eq_some_iff.mp answered with pinned | ⟨-, found⟩
    · unfold demands at demanded
      cases kind : r.kind? t p₀ with
      | none => rw [kind] at demanded; cases demanded
      | some k =>
        rw [kind, Option.map_some, Option.getD_some] at demanded
        unfold demandsOf at demanded
        split at demanded
        · split at demanded
          · obtain ⟨⟨b, s⟩, item, rfl⟩ := List.mem_map.mp demanded
            cases pinned
            rw [Provider.base?_of]
            rintro _ ⟨⟩
            exact mem_declared_of_itemMatches item
          · cases demanded
        · obtain ⟨_, -, rfl⟩ := List.mem_map.mp demanded
          cases pinned
    · exact provider found

section Omits

variable (omits : t.Omits t' source f) (numbered : t.Numbered) (numbered' : t'.Numbered)
  {roots : List RootDeclaration} (valid : r.Valid t roots) (steady : r.Steady t t' roots)
  (unreached : ∀ p, r.Reached t roots p → ∀ b, p.base? = some b → b.source ≠ source)
include unreached

theorem demands_kept (reached : r.Reached t roots p) {kind : Node.Kind}
    (made : r.kind? t p = some kind) : ∀ d ∈ r.demandsOf t kind, ∀ p', r.supplier? t d = some p' →
      ∀ b, p'.base? = some b → b.source ≠ source := by
  intro d mem p' supplier
  refine unreached p' (.demand reached ?_ supplier)
  rw [demands, made]
  exact mem

include omits numbered numbered'

/-- A parameter that the last resort does not answer can be answered as before. -/
theorem steady_of_regular
    (regular : ∀ b ∈ t.declared, b.source = source → b.recipe.isLastResort = false) :
    r.Steady t t' roots := by
  intro p reached c made q mem default answered
  refine canAnswer_of_kept omits numbered numbered' answered fun p' provider b base => ?_
  have demanded := parameter_mem_demandsOf r t mem
  rw [default] at demanded
  rcases Option.or_eq_some_iff.mp provider with matched | ⟨-, provider⟩
  · -- what matches supplies the parameter, so it is reached
    refine demands_kept unreached reached made _ demanded p' ?_ b base
    rw [supplier?, Option.none_or, provider?, matched, Option.some_or]
  · rw [if_neg Bool.false_ne_true] at provider
    rcases Option.or_eq_some_iff.mp provider with handled | ⟨-, last⟩
    · obtain ⟨h, -, rfl⟩ := Option.map_eq_some_iff.mp handled
      cases base
    · obtain ⟨b', declared, m, best, id, rfl⟩ := (matched?_eq_some_iff numbered).mp last
      rw [Provider.base?_of] at base
      cases base
      rintro rfl
      obtain ⟨b', declared', isLast, found⟩ := mem_candidates.mp (Match.mem_of_best? best)
      cases numbered.eq_of_id declared' declared ((Match.id_of? found).symm.trans id)
      rw [regular b declared rfl] at isLast
      cases isLast

include valid steady

/-- The node of a provider that is reached is what it was. -/
theorem kind?_map (reached : r.Reached t roots p) : r.kind? t p = r.kind? t' (p.map f) := by
  obtain ⟨n, built⟩ := valid.built p reached
  obtain ⟨kind, made, -⟩ := Option.map_eq_some_iff.mp built
  have kept := demands_kept unreached reached made
  have demands := demandsOf_translates omits numbered numbered' kind kept
  have alike : p.binding.Alike (p.map f).binding := Provider.alike_map fun b base =>
    omits.alike (reached.declared numbered b base) (unreached p reached b base)
  have supplied : ∀ d ∈ r.demandsOf t kind, d.isOptional = false →
      ∃ p, r.supplier? t d = some p := fun d mem required => by
    refine valid.demanded p reached d ?_ required
    rw [Resolver.demands, made]
    exact mem
  have servable := isServable_of_supplied numbered supplied
  have servable' : r.isServable t' kind = true := by
    refine isServable_of_supplied numbered' fun d' mem required => ?_
    obtain ⟨d, d_mem, demand⟩ := forall₂_right demands mem
    obtain ⟨q, supplier⟩ := supplied d d_mem (demand.isOptional.trans required)
    exact ⟨q.map f, by rw [← demand.supplier, supplier]; rfl⟩
  have chosen := made
  rw [made]
  unfold kind? kinds at chosen ⊢
  rw [← kinds_congr alike]
  unfold Node.kinds at chosen ⊢
  cases recipe : p.binding.recipe with
  | construct c =>
    simp only [recipe] at chosen ⊢
    obtain ⟨faults, failed⟩ | ⟨make, constructor, ranked⟩ :=
      constructions_cases r.rules p.binding.location c
    · rw [failed] at chosen
      cases chosen
    · rw [ranked, Except.map, List.map_map] at chosen ⊢
      have found := find?_of_or_head chosen servable
      rw [List.find?_map] at found
      obtain ⟨call, first, rfl⟩ := Option.map_eq_some_iff.mp found
      have fewer (q : Request) := canAnswer_of_canAnswer (r := r) (q := q) omits
      have still := ConstructorCandidate.find?_rank_of_fewer fewer
        (Q := r.isServable t' ∘ Node.Kind.construct ∘ make)
        (fun call => isServable_construct fewer) first servable' fun q mem answered => ?_
      · dsimp only
        rw [List.find?_map, still]
        rfl
      · cases default : q.hasDefault with
        | true => exact steady p reached _ made q (by rwa [constructor]) default answered
        | false =>
          refine canAnswer_of_kept omits numbered numbered' answered fun p' provider => ?_
          have demanded := parameter_mem_demandsOf r t (c := make call) (by rwa [constructor])
          rw [default] at demanded
          exact kept _ demanded p' (by rw [supplier?, Option.none_or, provider])
  | factory | outside | builtin =>
    simp only [recipe] at chosen ⊢
    -- there is one kind of node to choose from
    cases List.mem_singleton.mp (List.mem_of_find?_eq_some (find?_of_or_head chosen servable))
    rw [List.find?_singleton, if_pos servable', Option.some_or]

/-- What the roots need of a table they need of it without the bindings left out. -/
theorem translates_of_omits : r.Translates t t' roots roots (·.map f) := by
  have base (p : Provider) (reached : r.Reached t roots p) :
      ∀ b, p.base? = some b → b ∈ t.declared ∧ b.source ≠ source :=
    fun b base => ⟨reached.declared numbered b base, unreached p reached b base⟩
  have same {b b' : Binding} (kept : b ∈ t.declared ∧ b.source ≠ source)
      (kept' : b' ∈ t.declared ∧ b'.source ≠ source) (eq : f b = f b') : b = b' := by
    have compare := omits.compare_id kept.1 kept'.1 kept.2 kept'.2
    rw [eq, Nat.compare_eq_eq.mpr rfl] at compare
    exact numbered.eq_of_id kept.1 kept'.1 (Nat.compare_eq_eq.mp compare.symm)
  refine .of_steps (fun d declared => ?_) (fun {p q} reached reached' eq => ?_)
    (fun {p} reached => ?_) (fun {p q} reached reached' => ?_) (fun reached => ?_)
    (fun {p} reached => ?_)
  · exact provider?_map omits numbered numbered' fun p answered =>
      unreached p (.root declared answered)
  · cases p with
    | declared b =>
      cases q with
      | declared b' =>
        exact congrArg _ (same (base _ reached b rfl) (base _ reached' b' rfl)
          (Provider.declared.inj eq))
      | specialized | fallback => cases eq
    | specialized b sub =>
      cases q with
      | specialized b' sub' =>
        obtain ⟨carried, rfl⟩ := Provider.specialized.inj eq
        rw [same (base _ reached b rfl) (base _ reached' b' rfl) carried]
      | declared | fallback => cases eq
    | fallback h request =>
      cases q with
      | fallback => exact eq
      | declared | specialized => cases eq
  · exact Provider.alike_map fun b known =>
      omits.alike (base p reached b known).1 (base p reached b known).2
  · have sources {b b' : Binding} (kept : b ∈ t.declared ∧ b.source ≠ source)
        (kept' : b' ∈ t.declared ∧ b'.source ≠ source) :
        b.source = b'.source ↔ (f b).source = (f b').source :=
      omits.source kept.1 kept'.1 kept.2 kept'.2
    cases p with
    | declared b | specialized b sub =>
      cases q with
      | declared b' | specialized b' sub' =>
        simp [Provider.identity, Provider.map,
          sources (base _ reached b rfl) (base _ reached' b' rfl)]
      | fallback => exact iff_of_false (by intro eq; cases eq) (by intro eq; cases eq)
    | fallback h request =>
      cases q with
      | fallback => exact Iff.rfl
      | declared | specialized => exact iff_of_false (by intro eq; cases eq) (by intro eq; cases eq)
  · exact kind?_map omits numbered numbered' valid steady unreached reached
  · obtain ⟨n, built⟩ := valid.built p reached
    obtain ⟨kind, made, -⟩ := Option.map_eq_some_iff.mp built
    have made' := (kind?_map omits numbered numbered' valid steady unreached reached).symm.trans made
    rw [demands, demands, made, made']
    exact demandsOf_translates omits numbered numbered' kind (demands_kept unreached reached made)

end Omits

end Resolver

end ObjectGraph
