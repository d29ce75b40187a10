import ObjectGraph.Proofs.Graph.Table
import ObjectGraph.Proofs.Lists
import ObjectGraph.Proofs.Sample

/-
  What the nodes of a specialization request.

  A `Site` is a place of a recipe that can become a request: the type of a parameter, of a field or
  of a property with its attributes, or a request of a factory.  Whatever the nodes of a binding
  request stands at one of its sites (`Node.exists_site`): the type that the attributes name by the
  rules of the setup, or else the type of the site.

  Specializing substitutes in the types of sites (`Recipe.sites_substitute`) and leaves attributes
  alone.  So the slots of a specialization are closed as far as they follow the types of sites, and
  a marker that an attribute names stays behind (`Grown.specialize_requests`).
-/

namespace ObjectGraph

/-! ## Sites -/

/-- A place of a recipe that can become a request. -/
structure Site where
  /-- The type that is declared there. -/
  type : TypeTerm
  /-- The attributes that may put another type in its place. -/
  attributes : List Attribute := []
  deriving DecidableEq

namespace Site

/-- The type that attributes name by the rules. -/
def named? (rules : List AttributeRule) (site : Site) : Option TypeTerm :=
  match AttributeReader.uses ⟨rules, default, default⟩ .type site.attributes with
  | [(rule, use)] => (use.args[rule.position]?).bind Constant.type?
  | _ => none

/-- The type to request: the one that attributes name, or else the declared one. -/
def requested (rules : List AttributeRule) (site : Site) : TypeTerm :=
  (site.named? rules).getD site.type

/-- Substitutes in the declared type. -/
def substitute (s : Substitution) (site : Site) : Site :=
  { site with type := site.type.substitute s }

/-- Without attributes, nothing is named. -/
theorem named?_of_nil (rules : List AttributeRule) (type : TypeTerm) :
    (Site.mk type []).named? rules = none := by
  have none : AttributeReader.uses ⟨rules, default, default⟩ .type [] = [] :=
    List.flatMap_eq_nil_iff.mpr fun _ _ => rfl
  rw [named?, none]

@[simp] theorem named?_substitute (rules : List AttributeRule) (s : Substitution) (site : Site) :
    (site.substitute s).named? rules = site.named? rules := rfl

end Site

/-- The site of a parameter. -/
def Parameter.site (p : Parameter) : Site := ⟨p.type, p.attributes⟩

/-- The site of a field. -/
def Field.site (f : Field) : Site := ⟨f.type, f.attributes⟩

/-- The site of a property. -/
def Property.site (p : Property) : Site := ⟨p.type, p.attributes⟩

/-- The sites of the parameters. -/
def Method.sites (m : Method) : List Site := m.parameters.map (·.site)

/-- The sites of all members. -/
def Class.sites (c : Class) : List Site :=
  c.constructors.flatMap (·.sites) ++ c.methods.flatMap (·.sites) ++ c.fields.map (·.site) ++
    c.properties.map (·.site)

/-- The sites of a recipe.  A factory has no attributes. -/
def Recipe.sites : Recipe → List Site
  | .construct c => c.sites
  | .factory f => f.requests.map fun q => ⟨q.type, []⟩
  | .outside _ | .builtin _ => []

theorem Method.sites_substitute (s : Substitution) (m : Method) :
    (m.substitute s).sites = m.sites.map (·.substitute s) := by
  simp only [Method.sites, Method.substitute, List.map_map]
  rfl

/-- Specializing a recipe substitutes in the types of its sites, and in nothing else there. -/
theorem Recipe.sites_substitute (s : Substitution) (r : Recipe) :
    (r.substitute s).sites = r.sites.map (·.substitute s) := by
  cases r with
  | construct c =>
    simp only [Recipe.substitute, Recipe.sites, Class.sites, Class.substitute, List.flatMap_map,
      Method.sites_substitute, List.map_append, List.map_flatMap, List.map_map]
    rfl
  | factory f =>
    simp only [Recipe.substitute, Recipe.sites, Factory.substitute, List.map_map]
    rfl
  | outside | builtin => rfl

/-! ## Requests stand at sites -/

namespace AttributeReader

variable {reader : AttributeReader}

theorem mem_mapM {α β : Type} {f : α → Except Fault β} {y : β} (xs : List α) :
    ∀ {ys : List β}, xs.mapM f = .ok ys → y ∈ ys → ∃ x ∈ xs, f x = .ok y := by
  induction xs with
  | nil => intro ys ok mem; cases ok; cases mem
  | cons x xs ih =>
    intro ys ok mem
    rw [List.mapM_cons] at ok
    cases first : f x with
    | error => rw [first] at ok; cases ok
    | ok z =>
      cases rest : xs.mapM f with
      | error => rw [first, rest] at ok; cases ok
      | ok zs =>
        rw [first, rest] at ok
        cases ok
        rcases List.mem_cons.mp mem with rfl | mem
        · exact ⟨x, List.mem_cons_self, first⟩
        · obtain ⟨x', known, made⟩ := ih rest mem
          exact ⟨x', List.mem_cons_of_mem x known, made⟩

/-- The type that is read off attributes is the one that they name. -/
theorem bind_constant? {member : String} {attributes : List Attribute} {c : Option Constant}
    (type : TypeTerm) (ok : reader.constant? .type member attributes = .ok c) :
    c.bind Constant.type? = (Site.mk type attributes).named? reader.rules := by
  unfold constant? at ok
  unfold Site.named?
  show _ = match reader.uses .type attributes with
    | [(rule, use)] => (use.args[rule.position]?).bind Constant.type?
    | _ => none
  split at ok
  · rename_i none
    cases ok
    rw [none]
    rfl
  · rename_i rule use one
    rw [one]
    split at ok
    · rename_i constant found
      cases ok
      show (some constant).bind Constant.type? = (use.args[rule.position]?).bind Constant.type?
      rw [found]
    · cases ok
  · cases ok

theorem request_type {member : String} {type : TypeTerm} {attributes : List Attribute} {q : Request}
    (ok : reader.request member type attributes = .ok q) :
    q.type = (Site.mk type attributes).requested reader.rules := by
  unfold request at ok
  cases injected : reader.constant? .type member attributes with
  | error => rw [injected] at ok; cases ok
  | ok c =>
    cases tag : reader.constant? .tag member attributes with
    | error => rw [injected, tag] at ok; cases ok
    | ok tag' =>
      rw [injected, tag] at ok
      cases ok
      exact congrArg (Option.getD · type) (bind_constant? type injected)

theorem parameter_type {p : Parameter} {made : InjectedParameter}
    (ok : reader.parameter p = .ok made) :
    made.request.type = p.site.requested reader.rules := by
  unfold parameter at ok
  cases requested : reader.request p.name p.type p.attributes with
  | error => rw [requested] at ok; cases ok
  | ok q =>
    rw [requested] at ok
    cases ok
    exact request_type requested

theorem member_type {name : String} {type : TypeTerm} {isRequired : Bool}
    {attributes : List Attribute} {made : InjectedMember}
    (ok : reader.member name type isRequired attributes = .ok made) :
    made.request.type = (Site.mk type attributes).requested reader.rules := by
  unfold member at ok
  cases ordinal : reader.ordinal? name attributes with
  | error => rw [ordinal] at ok; cases ok
  | ok o =>
    cases requested : reader.request name type attributes with
    | error => rw [ordinal, requested] at ok; cases ok
    | ok q =>
      rw [ordinal, requested] at ok
      cases ok
      exact request_type requested

theorem call_type {m : Method} {made : InjectedCall} (ok : reader.call m = .ok made)
    {p : InjectedParameter} (mem : p ∈ made.parameters) :
    ∃ site ∈ m.sites, p.request.type = site.requested reader.rules := by
  unfold call at ok
  cases ordinal : reader.ordinal? m.name m.attributes with
  | error => rw [ordinal] at ok; cases ok
  | ok o =>
    cases parameters : m.parameters.mapM reader.parameter with
    | error => rw [ordinal, parameters] at ok; cases ok
    | ok ps =>
      rw [ordinal, parameters] at ok
      cases ok
      obtain ⟨declared, known, made⟩ := mem_mapM m.parameters parameters mem
      exact ⟨declared.site, List.mem_map_of_mem known, parameter_type made⟩

end AttributeReader

namespace Node

theorem mem_successes {α : Type} {results : List (Except Fault α)} {a : α} :
    a ∈ successes results ↔ .ok a ∈ results := by
  unfold successes
  rw [List.mem_filterMap]
  constructor
  · rintro ⟨result, mem, ok⟩
    cases result with
    | ok => cases ok; exact mem
    | error => cases ok
  · exact fun mem => ⟨_, mem, rfl⟩

theorem mem_of_mem_rank {canAnswer : Request → Bool} {calls : List InjectedCall}
    {call : InjectedCall} (mem : call ∈ ConstructorCandidate.rank canAnswer calls) :
    call ∈ calls := by
  have of : ∀ c ∈ calls.map (ConstructorCandidate.of canAnswer), c.call ∈ calls := by
    intro c mem
    obtain ⟨call, known, rfl⟩ := List.mem_map.mp mem
    exact known
  unfold ConstructorCandidate.rank at mem
  obtain ⟨c, ranked, rfl⟩ := List.mem_map.mp mem
  split at ranked
  · exact of c (List.mem_mergeSort.mp ranked)
  · exact of c (List.mem_filter.mp (List.mem_mergeSort.mp ranked)).1

/-- What is injected requests what it was read to request. -/
theorem request_of_mem_injected {first : Nat} {members : List InjectedMember} {m : InjectedMember}
    (mem : m ∈ injectedMembers first members) : ∃ m' ∈ members, m.request = m'.request := by
  obtain ⟨place, lt, rfl⟩ := List.mem_mapIdx.mp mem
  exact ⟨_, (List.mem_filter.mp (List.getElem_mem lt)).1, rfl⟩

/-- The calls of a construction are read off a class, and so are the requests of its members. -/
structure ReadsOff (rules : List AttributeRule) (location : Location) (c : Class)
    (c' : Construction) : Prop where
  constructor : ∃ m ∈ c.constructors,
    AttributeReader.call ⟨rules, c.type, location⟩ m = .ok c'.constructor
  fields : ∀ m ∈ c'.fields, ∃ site ∈ c.fields.map (·.site), m.request.type = site.requested rules
  properties : ∀ m ∈ c'.properties, ∃ site ∈ c.properties.map (·.site),
    m.request.type = site.requested rules
  methods : ∀ call ∈ c'.methods, ∃ m ∈ c.methods,
    AttributeReader.call ⟨rules, c.type, location⟩ m = .ok call

theorem readsOff_of_mem_constructions {rules : List AttributeRule} {location : Location}
    {canAnswer : Request → Bool} {c : Class} {cs : List Construction}
    (made : constructions rules location canAnswer c = .ok cs) {c' : Construction} (mem : c' ∈ cs) :
    ReadsOff rules location c c' := by
  unfold constructions at made
  split at made
  · cases made
  · dsimp only at made
    split at made
    · cases made
    · split at made
      · cases made
      · cases made
        obtain ⟨constructor, ranked, rfl⟩ := List.mem_map.mp mem
        refine ⟨?_, fun m mem => ?_, fun m mem => ?_, fun call mem => ?_⟩
        · obtain ⟨m, known, ok⟩ := List.mem_map.mp (mem_successes.mp (mem_of_mem_rank ranked))
          exact ⟨m, (List.mem_filter.mp known).1, ok⟩
        · obtain ⟨m', mem, same⟩ := request_of_mem_injected mem
          obtain ⟨f, known, ok⟩ := List.mem_map.mp (mem_successes.mp mem)
          rw [same]
          exact ⟨f.site, List.mem_map_of_mem (List.mem_filter.mp known).1,
            AttributeReader.member_type ok⟩
        · obtain ⟨m', mem, same⟩ := request_of_mem_injected mem
          obtain ⟨p, known, ok⟩ := List.mem_map.mp (mem_successes.mp mem)
          rw [same]
          exact ⟨p.site, List.mem_map_of_mem (List.mem_filter.mp known).1,
            AttributeReader.member_type ok⟩
        · obtain ⟨m, known, ok⟩ := List.mem_map.mp (mem_successes.mp (List.mem_filter.mp mem).1)
          exact ⟨m, (List.mem_filter.mp known).1, ok⟩

/-- The requests of a construction stand at sites of its class. -/
theorem exists_site_of_constructions {rules : List AttributeRule} {location : Location}
    {canAnswer : Request → Bool} {c : Class} {cs : List Construction}
    (made : constructions rules location canAnswer c = .ok cs) {c' : Construction} (mem : c' ∈ cs)
    {request : Request × Bool × Option BindingId} (mem' : request ∈ (Kind.construct c').requests) :
    ∃ site ∈ c.sites, request.1.type = site.requested rules := by
  obtain ⟨constructor, fields, properties, methods⟩ := readsOff_of_mem_constructions made mem
  have inside {sites : List Site} (sub : sites ⊆ c.sites)
      (found : ∃ site ∈ sites, request.1.type = site.requested rules) :
      ∃ site ∈ c.sites, request.1.type = site.requested rules := by
    obtain ⟨site, mem, requested⟩ := found
    exact ⟨site, sub mem, requested⟩
  simp only [Kind.requests, List.mem_append, List.mem_map] at mem'
  rcases mem' with ((⟨p, mem, rfl⟩ | ⟨m, mem, rfl⟩) | ⟨m, mem, rfl⟩) | ⟨p, mem, rfl⟩
  · obtain ⟨m, known, ok⟩ := constructor
    refine inside (fun site at_m => ?_) (AttributeReader.call_type ok mem)
    simp only [Class.sites, List.mem_append, List.mem_flatMap]
    exact .inl (.inl (.inl ⟨m, known, at_m⟩))
  · refine inside (fun site at_fields => ?_) (fields m mem)
    simp only [Class.sites, List.mem_append]
    exact .inl (.inr at_fields)
  · refine inside (fun site at_properties => ?_) (properties m mem)
    simp only [Class.sites, List.mem_append]
    exact .inr at_properties
  · obtain ⟨call, known, mem⟩ := List.mem_flatMap.mp mem
    obtain ⟨m, known, ok⟩ := methods call known
    refine inside (fun site at_m => ?_) (AttributeReader.call_type ok mem)
    simp only [Class.sites, List.mem_append, List.mem_flatMap]
    exact .inl (.inl (.inr ⟨m, known, at_m⟩))

/-- Whatever the nodes of a binding request stands at a site of its recipe. -/
theorem exists_site {rules : List AttributeRule} {canAnswer : Request → Bool} {first : NodeId}
    {b : Binding} {nodes : List Node} (built : build rules canAnswer first b = .ok nodes)
    {n : Node} (mem : n ∈ nodes) {slot : Slot} (mem' : slot ∈ n.slots) :
    ∃ site ∈ b.recipe.sites, slot.request.type = site.requested rules := by
  have request : (slot.request, slot.isOptional, slot.pinned) ∈ n.kind.requests := by
    obtain ⟨place, lt, rfl⟩ := List.mem_mapIdx.mp mem'
    exact List.getElem_mem lt
  unfold build at built
  cases made : kinds rules canAnswer b with
  | error => rw [made] at built; cases built
  | ok ks =>
    rw [made] at built
    cases built
    obtain ⟨place, lt, rfl⟩ := List.mem_mapIdx.mp mem
    have known : ks[place] ∈ ks := List.getElem_mem lt
    generalize ks[place] = kind at request known
    unfold kinds at made
    cases recipe : b.recipe with
    | construct c =>
      rw [recipe] at made
      cases constructed : constructions rules b.location canAnswer c with
      | error => simp [constructed, Except.map] at made
      | ok cs =>
        simp only [constructed, Except.map] at made
        cases made
        obtain ⟨c', among, rfl⟩ := List.mem_map.mp known
        exact exists_site_of_constructions constructed among request
    | factory f =>
      rw [recipe] at made
      cases made
      cases List.mem_singleton.mp known
      obtain ⟨q, requested, eq⟩ := List.mem_map.mp request
      refine ⟨⟨q.type, []⟩, List.mem_map_of_mem requested, ?_⟩
      rw [← (Prod.mk.inj eq).1, Site.requested, Site.named?_of_nil, Option.getD_none]
    | outside o =>
      rw [recipe] at made
      cases made
      cases List.mem_singleton.mp known
      cases request
    | builtin kind =>
      rw [recipe] at made
      cases made
      cases List.mem_singleton.mp known
      cases request

end Node

/-! ## Specializations -/

namespace BindingTable

variable {s : Setup} {t : BindingTable} {b : Binding}

/-- A specialization is the generic binding with types put for its markers, be it new or known. -/
theorem Stamped.specialized_alike (stamped : Stamped s t) (declared : b ∈ t.declared)
    (sub : Substitution) : ∃ b', (t.specialize b.id sub).2.binding? (t.specialize b.id sub).1 = some b' ∧
      b'.Alike (Provider.specialized b sub).binding := by
  have at_id := stamped.binding?_id (List.mem_append_left t.derived declared)
  rcases specialize_cases at_id sub with ⟨known, found, same⟩ | ⟨b', adds, id, alike, -, -⟩
  · obtain ⟨generic, declared', b', among, entry, alike, -⟩ :=
      stamped.specialized _ (mem_of_lookup found)
    simp only [Prod.mk.injEq] at entry
    cases stamped.eq_of_id_eq (List.mem_append_left _ declared) (List.mem_append_left _ declared')
      entry.1.1
    rw [same, entry.2]
    exact ⟨b', stamped.binding?_id (List.mem_append_right _ among), alike⟩
  · rw [id]
    refine ⟨b', ?_, alike⟩
    exact (stamped.specialize declared sub).binding?_id
      (List.mem_append_right _ (adds.mem_derived_iff.mpr (.inr rfl)))

/-- The specialization of a generic binding for a closed type is bound to that type.  What a slot of
    its nodes requests stands at a site of the generic binding: it is closed, unless attributes name
    an open type there. -/
theorem Grown.specialize_requests (grown : Grown s t) (declared : b ∈ t.declared)
    {ts : TypeSystem} {q : TypeTerm} {sub : Substitution} (closed : ts.isOpen q = false)
    (unifies : ts.unify b.contract q = some sub)
    (covers : ∀ site ∈ b.recipe.sites, ts.Covers b.contract site.type) :
    ∃ b', (t.specialize b.id sub).2.binding? (t.specialize b.id sub).1 = some b' ∧
      b'.contract = q ∧
      ∀ rules canAnswer first nodes, Node.build rules canAnswer first b' = .ok nodes →
        ∀ n ∈ nodes, ∀ slot ∈ n.slots, ∃ site ∈ b.recipe.sites,
          slot.request.type = (site.named? rules).getD (site.type.substitute sub) ∧
          (ts.isOpen slot.request.type = true ↔
            ∃ type, site.named? rules = some type ∧ ts.isOpen type = true) := by
  obtain ⟨b', found, alike⟩ := grown.stamped.specialized_alike declared sub
  have contract : b'.contract = b.contract.substitute sub := alike.contract
  have recipe : b'.recipe = b.recipe.substitute sub := alike.recipe
  refine ⟨b', found, contract.trans (TypeSystem.unify_sound unifies), ?_⟩
  intro rules canAnswer first nodes built n mem slot mem'
  obtain ⟨_, substituted, requested⟩ := Node.exists_site built mem mem'
  rw [recipe, Recipe.sites_substitute] at substituted
  obtain ⟨site, known, rfl⟩ := List.mem_map.mp substituted
  rw [Site.requested, Site.named?_substitute] at requested
  refine ⟨site, known, requested, ?_⟩
  rw [requested]
  cases named : site.named? rules with
  | none =>
    have isClosed : ts.isOpen (site.type.substitute sub) = false :=
      TypeSystem.unify_closes unifies closed (covers site known)
    simp [Site.substitute, isClosed]
  | some type => simp

end BindingTable

/-- All types at a site, those in attributes included, mention markers of the pattern only. -/
def Site.StaysWithin (ts : TypeSystem) (pattern : TypeTerm) (site : Site) : Prop :=
  ts.Covers pattern site.type ∧ ∀ use ∈ site.attributes, ∀ constant ∈ use.args,
    ∀ type ∈ constant.type?, ts.Covers pattern type

instance (ts : TypeSystem) (pattern : TypeTerm) (site : Site) :
    Decidable (site.StaysWithin ts pattern) :=
  inferInstanceAs <| Decidable <| ts.Covers pattern site.type ∧ ∀ use ∈ site.attributes,
    ∀ constant ∈ use.args, ∀ type ∈ constant.type?, ts.Covers pattern type

namespace Sample

/-- A generic box.  The first parameter has an attribute that names the marker, the second one is of
    the type of the marker. -/
def marked : Setup where
  declarations := [
    { contracts := [applied "Box" (.plain "TT")]
      recipe := .construct {
        type := applied "Box" (.plain "TT")
        constructors := [{ parameters := [
          { name := "x", type := .plain "I"
            attributes := [{ type := .plain "TypeAttribute", args := [.type (.plain "TT")] }] },
          { name := "y", type := .plain "TT" }] }] } }]
  rules := Setup.standard.rules

/-- The binding of the generic box. -/
def generic : Binding := (BindingTable.register marked).declared.getD 0 default

/-- What makes it a box of `A`. -/
def puttingA : Substitution := NameMap.insert ∅ "TT" (.plain "A")

/-- The generic box is made a box of `A`. -/
def specialized : BindingId × BindingTable :=
  (BindingTable.register marked).specialize generic.id puttingA

theorem unify_generic :
    TypeSystem.standard.unify generic.contract (applied "Box" (.plain "A")) = some puttingA := by
  decide +kernel

/-- What the nodes of the box of `A` request. -/
theorem build_specialized : ∃ b nodes, specialized.2.binding? specialized.1 = some b ∧
    Node.build marked.rules (fun _ => true) 0 b = .ok nodes ∧
    nodes.flatMap (fun n => n.slots.map (·.request.type)) = [.plain "TT", .plain "A"] := by
  have made : ((specialized.2.binding? specialized.1).bind fun b =>
      (Node.build marked.rules (fun _ => true) 0 b).toOption.map fun nodes =>
        nodes.flatMap fun n => n.slots.map (·.request.type)) = some [.plain "TT", .plain "A"] := by
    decide +kernel
  obtain ⟨b, found, made⟩ := Option.bind_eq_some_iff.mp made
  obtain ⟨nodes, built, requests⟩ := Option.map_eq_some_iff.mp made
  refine ⟨b, nodes, found, ?_, requests⟩
  cases ended : Node.build marked.rules (fun _ => true) 0 b with
  | error => rw [ended] at built; cases built
  | ok nodes' => rw [ended] at built; cases built; rfl

end Sample

namespace BindingTable

/-- So a marker that an attribute names stays behind, even if it is one of the bound type. -/
theorem specialize_not_always_closes :
    ¬ ∀ (s : Setup) (t : BindingTable) (b : Binding) (ts : TypeSystem) (q : TypeTerm)
      (sub : Substitution), Grown s t → b ∈ t.declared → ts.isOpen b.contract = true →
      (∀ site ∈ b.recipe.sites, site.StaysWithin ts b.contract) → ts.isOpen q = false →
      ts.unify b.contract q = some sub →
      ∀ b', (t.specialize b.id sub).2.binding? (t.specialize b.id sub).1 = some b' →
        b'.contract = q ∧ ∀ rules canAnswer first nodes,
          Node.build rules canAnswer first b' = .ok nodes →
          ∀ n ∈ nodes, ∀ slot ∈ n.slots, ts.isOpen slot.request.type = false := by
  intro always
  obtain ⟨b, nodes, found, built, requests⟩ := Sample.build_specialized
  have closed := (always Sample.marked _ Sample.generic .standard _ Sample.puttingA .register
    (by decide +kernel) (by decide +kernel) (by decide +kernel) (by decide)
    Sample.unify_generic b found).2 _ _ _ nodes built
  have marker : .plain "TT" ∈ nodes.flatMap fun n => n.slots.map (·.request.type) := by
    rw [requests]
    exact List.mem_cons_self
  obtain ⟨n, mem, listed⟩ := List.mem_flatMap.mp marker
  obtain ⟨slot, mem', type⟩ := List.mem_map.mp listed
  have isClosed := closed n mem slot mem'
  rw [type] at isClosed
  exact absurd isClosed (by decide)

/-- The box of `A`: its first slot is open as the attribute says, its second one is closed. -/
theorem specialize_requests_marked : ∃ b nodes,
    Sample.specialized.2.binding? Sample.specialized.1 = some b ∧
      b.contract = Sample.applied "Box" (.plain "A") ∧
      Node.build Sample.marked.rules (fun _ => true) 0 b = .ok nodes ∧
      nodes.flatMap (fun n => n.slots.map (·.request.type)) = [.plain "TT", .plain "A"] ∧
      ∀ n ∈ nodes, ∀ slot ∈ n.slots, ∃ site ∈ Sample.generic.recipe.sites,
        (TypeSystem.standard.isOpen slot.request.type = true ↔
          ∃ type, site.named? Sample.marked.rules = some type ∧
            TypeSystem.standard.isOpen type = true) := by
  obtain ⟨b, nodes, found, built, requests⟩ := Sample.build_specialized
  obtain ⟨b', found', contract, slots⟩ :=
    Grown.specialize_requests (.register (s := Sample.marked)) (b := Sample.generic)
      (by decide +kernel) (by decide) Sample.unify_generic (by decide +kernel)
  cases found.symm.trans found'
  refine ⟨b, nodes, found, contract, built, requests, fun n mem slot mem' => ?_⟩
  obtain ⟨site, known, -, isOpen⟩ := slots _ _ _ nodes built n mem slot mem'
  exact ⟨site, known, isOpen⟩

end BindingTable

end ObjectGraph
