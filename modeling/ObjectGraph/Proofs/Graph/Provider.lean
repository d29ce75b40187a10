import Mathlib.Logic.Relation
import ObjectGraph.Graph.Resolution
import ObjectGraph.Proofs.Type.Unification

/-
  What a setup says about its resolution, before any resolution takes place.

  A request is answered by a `Provider`: a declared binding, the specialization of a generic one, or
  a fallback handler together with the request that it serves.  Which one it is depends on the
  declared bindings alone, and these do not change while the table of bindings grows.  So the node
  that is selected for a provider, the demands of that node and the faults of building it can be
  told without ids, without a queue and without a memory of what was selected before.

  On these notions rests what a resolution is to do:

    * `Reached`: the providers that the roots need, the least set that is closed under the demands
      of the nodes selected;
    * `Valid`: all of them can be built, nothing required stays unanswered, and each cycle passes
      through a deferred node;
    * `missing`, `buildFaults`: the faults to report otherwise.

  `provider?_sound` is the typing of an answer: the bound type is the requested one, and the tags
  fit.
-/

namespace ObjectGraph

/-- What answers a request. -/
inductive Provider where
  /-- A declared binding. -/
  | declared (b : Binding)
  /-- A generic binding with types put for its markers. -/
  | specialized (b : Binding) (s : Substitution)
  /-- A fallback handler for a request. -/
  | fallback (h : Handler) (q : Request)
  deriving DecidableEq

namespace Provider

/-- A declared binding as the answer to a request: itself or, when it is generic, its
    specialization. -/
def of (ts : TypeOracle) (b : Binding) (s : Substitution) : Provider :=
  if ts.isOpen b.contract then .specialized b s else .declared b

/-- The binding that a provider gives rise to; the numbers of a derived one are left blank. -/
def binding : Provider → Binding
  | declared b => b
  | specialized b s =>
    { b with contract := b.contract.substitute s, recipe := b.recipe.substitute s }
  | fallback h q =>
    { (default : Binding) with
      contract := q.type
      tags := [q.tag]
      lifetime := .transient
      recipe := .factory { name := h.name, type := q.type, isFallback := true }
      location := h.location }

/-- A node of the provider; its numbers are left blank. -/
def node (p : Provider) (kind : Node.Kind) : Node :=
  { (default : Node) with
    lifetime := p.binding.lifetime
    contract := p.binding.contract
    kind
    location := p.binding.location }

end Provider

/-- What a slot of a node asks for. -/
structure Demand where
  /-- The request. -/
  request : Request
  /-- An optional demand can stay unanswered. -/
  isOptional : Bool
  /-- What has to answer, for the items of collections. -/
  pinned : Option Provider
  deriving DecidableEq

namespace Resolver

variable (r : Resolver) (t : BindingTable)

/-! ## Answers -/

/-- The best match of a request, of the last resort or of all other bindings. -/
def matched? (lastResort : Bool) (q : Request) : Option Provider :=
  (t.bestMatch? r.types lastResort q).bind fun m =>
    (t.binding? m.id).map fun b => .of r.types b m.substitution

/-- What answers a request: a binding, else a fallback handler, else the last resort.  An optional
    request is answered by a binding only. -/
def provider? (q : Request) (isOptional : Bool) : Option Provider :=
  (r.matched? t false q).or <|
    if isOptional then none
    else ((r.handlers.find? r.types q).map (.fallback · q)).or (r.matched? t true q)

/-- What answers a demand. -/
def supplier? (d : Demand) : Option Provider :=
  d.pinned.or (r.provider? t d.request d.isOptional)

/-! ## Nodes -/

/-- The demands of a kind of node.  A collection demands all bindings of its element type, each
    under the first of its tags. -/
def demandsOf (kind : Node.Kind) : List Demand :=
  match kind with
  | .provide p =>
    match p.kind.isCollection, p.type.element? with
    | true, some element =>
      (t.itemMatches r.types element).map fun (b, s) =>
        ⟨⟨element, b.tags.head?.getD .untagged⟩, false, some (.of r.types b s)⟩
    | _, _ => []
  | kind => kind.requests.map fun (request, isOptional, _) => ⟨request, isOptional, none⟩

/-- Tells if a kind of node can be selected at once: each of its demands can be answered or may
    stay unanswered. -/
def isServable (kind : Node.Kind) : Bool :=
  (r.demandsOf t kind).all fun d =>
    d.isOptional || d.pinned.isSome || r.canAnswer t d.request

/-- The kinds of node that a provider gives, from the first choice on, or what is wrong with it. -/
def kinds (p : Provider) : Except (List Fault) (List Node.Kind) :=
  Node.kinds r.rules (r.canAnswer t) p.binding

/-- The faults of building the nodes of a provider. -/
def buildFaults (p : Provider) : List Fault :=
  match r.kinds t p with
  | .ok _ => []
  | .error faults => faults

/-- The kind of the node selected for a provider: the first servable one, or the first one if none
    is. -/
def kind? (p : Provider) : Option Node.Kind :=
  match r.kinds t p with
  | .ok kinds => (kinds.find? (r.isServable t)).or kinds.head?
  | .error _ => none

/-- The node selected for a provider, if it can be built. -/
def node? (p : Provider) : Option Node := (r.kind? t p).map p.node

/-- The demands of the node selected for a provider. -/
def demands (p : Provider) : List Demand := ((r.kind? t p).map (r.demandsOf t)).getD []

/-! ## What a resolution is to do -/

/-- The faults of the demands that a node of the given text and location makes in vain. -/
def missingOf (text : String) (location : Location) (ds : List Demand) : List Fault :=
  (ds.filter fun d => !d.isOptional && (r.supplier? t d).isNone).map fun d =>
    .missingBinding d.request text location

/-- The faults of the demands that the node selected for a provider makes in vain. -/
def missing (p : Provider) : List Fault :=
  match r.node? t p with
  | some n => r.missingOf t n.text n.location (r.demands t p)
  | none => []

/-- The faults of the declared roots that nothing answers. -/
def missingRoots (roots : List RootDeclaration) : List Fault :=
  (roots.filter fun d => (r.provider? t d.request false).isNone).map fun d =>
    .missingBinding d.request s!"the composition root {d.name}" d.location

/-- The providers that some roots need: those that answer them, and with a provider those that
    answer the demands of its node. -/
inductive Reached (roots : List RootDeclaration) : Provider → Prop where
  | root {d : RootDeclaration} {p : Provider} (declared : d ∈ roots)
      (answered : r.provider? t d.request false = some p) : Reached roots p
  | demand {p p' : Provider} {d : Demand} (reached : Reached roots p)
      (demanded : d ∈ r.demands t p) (answered : r.supplier? t d = some p') : Reached roots p'

/-- The node of a provider asks for another provider as soon as it is made. -/
def Needs (p p' : Provider) : Prop :=
  (∃ n, r.node? t p = some n ∧ n.isDeferred = false) ∧
    ∃ d ∈ r.demands t p, r.supplier? t d = some p'

/-- The roots can be resolved: whatever they need can be built, whatever is required is there, and
    nothing needs itself before it is made. -/
structure Valid (roots : List RootDeclaration) : Prop where
  built : ∀ p, r.Reached t roots p → ∃ n, r.node? t p = some n
  rooted : ∀ d ∈ roots, ∃ p, r.provider? t d.request false = some p
  demanded : ∀ p, r.Reached t roots p → ∀ d ∈ r.demands t p, d.isOptional = false →
    ∃ p', r.supplier? t d = some p'
  straight : ∀ p, r.Reached t roots p → ¬ Relation.TransGen (r.Needs t) p p

end Resolver

/-! ## Matches -/

/-- The best match is one of those to choose from ... -/
theorem Match.mem_of_best? {ms : List Match} {m : Match} (best : Match.best? ms = some m) :
    m ∈ ms := by
  induction ms generalizing m with
  | nil => cases best
  | cons first rest ih =>
    unfold Match.best? at best
    split at best
    · cases best
      exact List.mem_cons_self
    · rename_i other among
      split at best <;> cases best
      · exact List.mem_cons_of_mem _ (ih among)
      · exact List.mem_cons_self

/-- ... and there is one if there is any to choose from. -/
theorem Match.exists_best? {ms : List Match} (there : ms ≠ []) : ∃ m, Match.best? ms = some m := by
  cases ms with
  | nil => exact absurd rfl there
  | cons first rest =>
    unfold Match.best?
    split
    · exact ⟨_, rfl⟩
    · split <;> exact ⟨_, rfl⟩

/-- A binding that comes from a declaration. -/
structure Binding.Renders (b : Binding) (d : Declaration) : Prop where
  contract : b.contract ∈ BindingTable.contractsOf d
  tags : b.tags = d.tags
  lifetime : b.lifetime = d.lifetime.getD .transient
  recipe : b.recipe = d.recipe
  location : b.location = d.location

namespace BindingTable

/-- A declaration adds a binding for each type that it binds, and nothing else. -/
theorem mem_declared_addDeclaration {t : BindingTable} {index : Nat} {d : Declaration}
    {b : Binding} (mem : b ∈ (t.addDeclaration index d).declared) :
    b ∈ t.declared ∨ b.Renders d := by
  simp only [addDeclaration] at mem
  split at mem
  · exact .inl mem
  · rcases List.mem_append.mp mem with old | added
    · exact .inl old
    · obtain ⟨place, lt, rfl⟩ := List.mem_mapIdx.mp added
      exact .inr ⟨List.getElem_mem lt, rfl, rfl, rfl, rfl⟩

/-- Each type of a declaration gets a binding that renders it. -/
theorem exists_declared_addDeclaration (t : BindingTable) (index : Nat) {d : Declaration}
    {contract : TypeTerm} (bound : contract ∈ contractsOf d) :
    ∃ b ∈ (t.addDeclaration index d).declared, b.contract = contract ∧ b.Renders d := by
  have some : (contractsOf d).isEmpty = false := by
    cases contracts : contractsOf d with
    | nil => rw [contracts] at bound; cases bound
    | cons => rfl
  obtain ⟨place, lt, rfl⟩ := List.mem_iff_getElem.mp bound
  simp only [addDeclaration, some]
  refine ⟨_, List.mem_append_right _ (List.mem_mapIdx.mpr ⟨place, lt, rfl⟩), rfl, ?_⟩
  exact ⟨List.getElem_mem lt, rfl, rfl, rfl, rfl⟩

theorem subset_declared_addDeclaration (t : BindingTable) (index : Nat) (d : Declaration) :
    t.declared ⊆ (t.addDeclaration index d).declared := by
  intro b mem
  simp only [addDeclaration]
  split
  · exact mem
  · exact List.mem_append_left _ mem

/-- What is declared renders a declaration, or was there before. -/
theorem mem_declared_addDeclarations {b : Binding} (ds : List Declaration) :
    ∀ {t : BindingTable} {first : Nat}, b ∈ (t.addDeclarations first ds).declared →
      b ∈ t.declared ∨ ∃ d ∈ ds, b.Renders d := by
  induction ds with
  | nil => intro t first mem; exact .inl mem
  | cons d ds ih =>
    intro t first mem
    rcases ih mem with mem | ⟨d', mem, renders⟩
    · exact (mem_declared_addDeclaration mem).imp id fun renders => ⟨d, List.mem_cons_self, renders⟩
    · exact .inr ⟨d', List.mem_cons_of_mem d mem, renders⟩

theorem subset_declared_addDeclarations (ds : List Declaration) :
    ∀ (t : BindingTable) (first : Nat), t.declared ⊆ (t.addDeclarations first ds).declared := by
  induction ds with
  | nil => intro t first b mem; exact mem
  | cons d ds ih =>
    intro t first b mem
    exact ih _ _ (subset_declared_addDeclaration t first d mem)

/-- And each type of each declaration gets its binding. -/
theorem exists_declared_addDeclarations (ds : List Declaration) :
    ∀ (t : BindingTable) (first : Nat), ∀ d ∈ ds, ∀ contract ∈ contractsOf d,
      ∃ b ∈ (t.addDeclarations first ds).declared, b.contract = contract ∧ b.Renders d := by
  induction ds with
  | nil => intro t first d mem; cases mem
  | cons d ds ih =>
    intro t first d' mem contract bound
    rcases List.mem_cons.mp mem with rfl | mem
    · obtain ⟨b, added, renders⟩ := exists_declared_addDeclaration t first bound
      exact ⟨b, subset_declared_addDeclarations ds _ _ added, renders⟩
    · exact ih _ _ d' mem contract bound

/-- The declared bindings are known by their places. -/
def Numbered (t : BindingTable) : Prop :=
  ∀ (i : Nat) (b : Binding), t.declared[i]? = some b → b.id = i

/-- A declared binding is found under its id. -/
theorem Numbered.binding?_id {t : BindingTable} (numbered : t.Numbered) {b : Binding}
    (declared : b ∈ t.declared) : t.binding? b.id = some b := by
  obtain ⟨i, lt, rfl⟩ := List.mem_iff_getElem.mp declared
  rw [numbered i _ (List.getElem?_eq_getElem lt), binding?, bindings,
    List.getElem?_append_left lt, List.getElem?_eq_getElem lt]

theorem Numbered.getElem?_id {t : BindingTable} (numbered : t.Numbered) {b : Binding}
    (declared : b ∈ t.declared) : t.declared[b.id]? = some b := by
  obtain ⟨i, lt, rfl⟩ := List.mem_iff_getElem.mp declared
  rw [numbered i _ (List.getElem?_eq_getElem lt), List.getElem?_eq_getElem lt]

theorem Numbered.addDeclaration {t : BindingTable} (numbered : t.Numbered) (index : Nat)
    (d : Declaration) : (t.addDeclaration index d).Numbered := by
  simp only [BindingTable.addDeclaration]
  split
  · exact numbered
  · intro i b found
    rcases Nat.lt_or_ge i t.declared.length with lt | ge
    · rw [List.getElem?_append_left lt] at found
      exact numbered i b found
    · rw [List.getElem?_append_right ge, List.getElem?_mapIdx] at found
      obtain ⟨contract, -, rfl⟩ := Option.map_eq_some_iff.mp found
      show t.declared.length + (i - t.declared.length) = i
      omega

theorem Numbered.addDeclarations (ds : List Declaration) :
    ∀ {t : BindingTable} {first : Nat}, t.Numbered → (t.addDeclarations first ds).Numbered := by
  induction ds with
  | nil => intro t first numbered; exact numbered
  | cons d ds ih => intro t first numbered; exact ih (numbered.addDeclaration first d)

/-- Registration numbers the bindings as it goes. -/
theorem numbered_register (s : Setup) : (register s).Numbered :=
  Numbered.addDeclarations s.declarations nofun

end BindingTable

/-! ## What an answer is like -/

/-- The instances of a provider serve a request: its type is the requested one and its tags fit. -/
def Provider.Serves (p : Provider) (q : Request) : Prop :=
  p.binding.contract = q.type ∧ (p.binding.rank? q.tag).isSome = true

@[simp] theorem Provider.tags_of (ts : TypeOracle) (b : Binding) (s : Substitution) :
    (Provider.of ts b s).binding.tags = b.tags := by
  unfold Provider.of
  split <;> rfl

/-- A declared binding that matches a type has it, once its markers are replaced. -/
theorem Provider.contract_of {ts : TypeOracle} (sound : ts.IsSound) {b : Binding}
    {s : Substitution} {type : TypeTerm} (found : ts.matchContract b.contract type = some s) :
    (Provider.of ts b s).binding.contract = type := by
  have turned := TypeOracle.matchContract_sound sound found
  unfold Provider.of
  split
  · rename_i generic
    rwa [if_pos generic] at turned
  · rename_i closed
    rwa [if_neg closed] at turned

namespace Resolver

variable {r : Resolver} {t : BindingTable}

/-- The best match is one of a declared binding. -/
theorem bestMatch?_eq_some {lastResort : Bool} {q : Request} {m : Match}
    (best : t.bestMatch? r.types lastResort q = some m) :
    ∃ b ∈ t.declared, m.id = b.id ∧ m.isGeneric = r.types.isOpen b.contract ∧
      r.types.matchContract b.contract q.type = some m.substitution ∧
      (b.rank? q.tag).isSome = true := by
  have candidate := Match.mem_of_best? best
  obtain ⟨b, declared, found⟩ := List.mem_filterMap.mp candidate
  obtain ⟨rank, ranked, found⟩ := Option.bind_eq_some_iff.mp found
  obtain ⟨s, matched, made⟩ := Option.bind_eq_some_iff.mp found
  cases made
  exact ⟨b, (List.mem_filter.mp declared).1, rfl, rfl, matched, by rw [ranked]; rfl⟩

/-- The items of a collection come from declared bindings. -/
theorem mem_declared_of_itemMatches {ts : TypeOracle} {element : TypeTerm}
    {m : Binding × Substitution} (mem : m ∈ t.itemMatches ts element) : m.1 ∈ t.declared := by
  obtain ⟨b, listed, made⟩ := List.mem_filterMap.mp mem
  obtain ⟨s, -, rfl⟩ := Option.map_eq_some_iff.mp made
  exact (List.mem_filter.mp listed).1

/-- The best match serves the request, if what the oracle unifies becomes equal. -/
theorem matched?_serves (sound : r.types.IsSound) (numbered : t.Numbered) {lastResort : Bool}
    {q : Request} {p : Provider} (matched : r.matched? t lastResort q = some p) : p.Serves q := by
  obtain ⟨m, best, made⟩ := Option.bind_eq_some_iff.mp matched
  obtain ⟨b, declared, id, -, contract, rank⟩ := bestMatch?_eq_some best
  rw [id, numbered.binding?_id declared] at made
  cases made
  exact ⟨Provider.contract_of sound contract, by rwa [Binding.rank?, Provider.tags_of]⟩

/-- So does what answers a request, be it a match, a fallback or the last resort. -/
theorem provider?_serves (sound : r.types.IsSound) (numbered : t.Numbered) {q : Request}
    {isOptional : Bool} {p : Provider} (answered : r.provider? t q isOptional = some p) : p.Serves q := by
  rcases Option.or_eq_some_iff.mp answered with matched | ⟨-, answered⟩
  · exact matched?_serves sound numbered matched
  · split at answered
    · cases answered
    · rcases Option.or_eq_some_iff.mp answered with handled | ⟨-, matched⟩
      · obtain ⟨h, -, rfl⟩ := Option.map_eq_some_iff.mp handled
        refine ⟨rfl, ?_⟩
        simp [Provider.binding, Binding.rank?, Binding.tagRank?]
      · exact matched?_serves sound numbered matched

/-- The item of a collection is requested under a tag of its binding. -/
theorem rank?_head (b : Binding) :
    (b.rank? (b.tags.head?.getD .untagged)).isSome = true := by
  cases tags : b.tags with
  | nil => simp [Binding.rank?, Binding.tagRank?, Binding.isUntagged, tags]
  | cons tag rest => simp [Binding.rank?, Binding.tagRank?, tags]

/-- Whatever answers a demand of a node serves the request. -/
theorem supplier?_serves (sound : r.types.IsSound) (numbered : t.Numbered) {p p' : Provider}
    {d : Demand} (demanded : d ∈ r.demands t p) (answered : r.supplier? t d = some p') :
    p'.Serves d.request := by
  rcases Option.or_eq_some_iff.mp answered with pinned | ⟨-, answered⟩
  · unfold demands at demanded
    cases kind : r.kind? t p with
    | none => rw [kind] at demanded; cases demanded
    | some k =>
      rw [kind, Option.map_some, Option.getD_some] at demanded
      unfold demandsOf at demanded
      split at demanded
      · split at demanded
        · obtain ⟨⟨b, s⟩, item, rfl⟩ := List.mem_map.mp demanded
          obtain ⟨b', -, found⟩ := List.mem_filterMap.mp item
          obtain ⟨s', contract, made⟩ := Option.map_eq_some_iff.mp found
          cases made
          cases pinned
          refine ⟨Provider.contract_of sound contract, ?_⟩
          rw [Binding.rank?, Provider.tags_of]
          exact rank?_head b
        · cases demanded
      · obtain ⟨_, -, made⟩ := List.mem_map.mp demanded
        rw [← made] at pinned
        cases pinned
  · exact provider?_serves sound numbered answered

/-! ## The table may grow -/

theorem bestMatch?_congr {t' : BindingTable} (same : t'.declared = t.declared) (ts : TypeOracle)
    (lastResort : Bool) (q : Request) :
    t'.bestMatch? ts lastResort q = t.bestMatch? ts lastResort q := by
  rw [BindingTable.bestMatch?, BindingTable.candidates, same]
  rfl

theorem itemMatches_congr {t' : BindingTable} (same : t'.declared = t.declared) (ts : TypeOracle)
    (element : TypeTerm) : t'.itemMatches ts element = t.itemMatches ts element := by
  rw [BindingTable.itemMatches, same]
  rfl

theorem canAnswer_congr (r : Resolver) {t' : BindingTable} (same : t'.declared = t.declared) :
    r.canAnswer t' = r.canAnswer t := by
  funext q
  rw [canAnswer, bestMatch?_congr same, bestMatch?_congr same]
  rfl

end Resolver

/-! ## The kinds of node of a recipe -/

/-- Ranking loses no constructor. -/
theorem ConstructorCandidate.rank_ne_nil (canAnswer : Request → Bool) {calls : List InjectedCall}
    (some : calls ≠ []) : rank canAnswer calls ≠ [] := by
  have sorted {cs : List ConstructorCandidate} (le : ConstructorCandidate → _ → Bool)
      (ne : cs ≠ []) : cs.mergeSort le ≠ [] := fun none =>
    ne (List.nil_perm.mp (none ▸ List.mergeSort_perm cs le))
  unfold rank
  intro none
  have none := List.map_eq_nil_iff.mp none
  split at none
  · exact sorted _ (by simpa using some) none
  · rename_i marked
    exact sorted _ (by simpa using marked) none

namespace Node

theorem successes_ne_nil {α : Type} {results : List (Except Fault α)} (some : results ≠ [])
    (noFaults : faultsOf results = []) : successes results ≠ [] := by
  cases results with
  | nil => exact absurd rfl some
  | cons first rest =>
    cases first with
    | ok a => simp [successes]
    | error f => simp [faultsOf] at noFaults

/-- A class gives at least one construction, or at least one fault. -/
theorem constructions_ne_nil (rules : List AttributeRule) (location : Location)
    (canAnswer : Request → Bool) (c : Class) :
    constructions rules location canAnswer c ≠ .ok [] ∧
      constructions rules location canAnswer c ≠ .error [] := by
  unfold constructions
  split
  · simp
  · dsimp only
    split
    · rename_i faulty
      refine ⟨nofun, fun none => ?_⟩
      injection none with none
      rw [none] at faulty
      cases faulty
    · rename_i faultless
      split
      · simp
      · rename_i some
        simp only [List.isEmpty_iff, List.append_eq_nil_iff, Bool.not_eq_eq_eq_not, Bool.not_true,
          Bool.not_eq_false] at faultless some
        have ranked := ConstructorCandidate.rank_ne_nil canAnswer
          (successes_ne_nil some faultless.1.1.1)
        exact ⟨fun none => ranked (by injection none with none; simpa using none), nofun⟩

/-- The items of a collection are not filled in. -/
def Kind.IsBare (kind : Kind) : Prop := ∀ p, kind = .provide p → p.items = []

/-- A binding gives at least one kind of node, or at least one fault. -/
theorem kinds_ne_nil (rules : List AttributeRule) (canAnswer : Request → Bool) (b : Binding) :
    kinds rules canAnswer b ≠ .ok [] ∧ kinds rules canAnswer b ≠ .error [] := by
  unfold kinds
  cases b.recipe with
  | construct c =>
    obtain ⟨some, faulty⟩ := constructions_ne_nil rules b.location canAnswer c
    show Except.map (·.map Kind.construct) (constructions rules b.location canAnswer c) ≠ _ ∧
      Except.map (·.map Kind.construct) (constructions rules b.location canAnswer c) ≠ _
    cases made : constructions rules b.location canAnswer c with
    | error faults =>
      rw [made] at faulty
      refine ⟨nofun, fun none => faulty ?_⟩
      injection none with none
      rw [none]
    | ok cs =>
      rw [made] at some
      refine ⟨fun none => some ?_, nofun⟩
      injection none with none
      rw [List.map_eq_nil_iff.mp none]
  | factory f | outside o | builtin b => exact ⟨by simp, nofun⟩

/-- A node that is not yet filled in has no items. -/
theorem isBare_of_mem_kinds {rules : List AttributeRule} {canAnswer : Request → Bool} {b : Binding}
    {ks : List Kind} (made : kinds rules canAnswer b = .ok ks) {kind : Kind} (mem : kind ∈ ks) :
    kind.IsBare := by
  intro p provides
  unfold kinds at made
  cases recipe : b.recipe with
  | construct c =>
    rw [recipe] at made
    cases built : constructions rules b.location canAnswer c with
    | error faults => simp [built, Except.map] at made
    | ok cs =>
      simp only [built, Except.map] at made
      cases made
      obtain ⟨c', -, rfl⟩ := List.mem_map.mp mem
      cases provides
  | factory f | outside o =>
    rw [recipe] at made
    cases made
    rw [List.mem_singleton.mp mem] at provides
    cases provides
  | builtin kind =>
    rw [recipe] at made
    cases made
    rw [List.mem_singleton.mp mem] at provides
    cases provides
    rfl

end Node

namespace Resolver

variable (r : Resolver) (t : BindingTable)

/-- A provider that can be built has no faults, and one that cannot be built has some. -/
theorem node?_eq_none_iff (p : Provider) : r.node? t p = none ↔ r.buildFaults t p ≠ [] := by
  obtain ⟨some, faulty⟩ := Node.kinds_ne_nil r.rules (r.canAnswer t) p.binding
  unfold node? kind? buildFaults kinds
  cases made : Node.kinds r.rules (r.canAnswer t) p.binding with
  | error faults =>
    rw [made] at faulty
    exact iff_of_true rfl fun none => faulty (congrArg _ none)
  | ok ks =>
    cases ks with
    | nil => exact absurd made some
    | cons k ks => simp

end Resolver

end ObjectGraph
