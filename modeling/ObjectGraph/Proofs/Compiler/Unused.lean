import Mathlib.Computability.Primrec.List
import Mathlib.Data.List.Permutation
import ObjectGraph.Proofs.Compiler.RootOrder
import ObjectGraph.Proofs.Graph.Relevance
import ObjectGraph.Proofs.Plan.Blocks
import ObjectGraph.Proofs.Plan.Unison

/-
  Declarations that a composition does not use.

  A declaration without a node in the graph can be left out: compilation succeeds without it, an
  emitter gets the same calls, and the variables differ in the numbers of their nodes only
  (`compile_unused`).  For what the roots need is needed without the declaration as well
  (`Resolver.translates_of_omits`), and graphs that match are walked in unison.

  This is not so for every declaration of the last resort (`not_always_irrelevant`): one can win a
  constructor its place though it never answers the parameter that it was counted for.
-/

namespace ObjectGraph

open BindingTable

/-- No node of the composition goes back to the declaration at an index of the merged setup. -/
def Composition.Unused (x : Composition) (index : Nat) : Prop :=
  ∀ b ∈ x.graph.usedBindings, b.source ≠ .declared index

/-- What the parameters with default values request, of the constructor that a node calls. -/
def Node.Kind.defaultRequests : Node.Kind → List Request
  | .construct c => (c.constructor.parameters.filter (·.hasDefault)).map (·.request)
  | _ => []

/-- What parameters with default values request in the composition can be answered from the second
    table if it can be answered from the first one. -/
def Composition.KeepsDefaults (x : Composition) (r : Resolver) (t t' : BindingTable) : Prop :=
  ∀ i, x.graph.Reachable i → ∀ q ∈ (x.graph.node i).kind.defaultRequests,
    r.canAnswer t q = true → r.canAnswer t' q = true

namespace Resolver

variable {r : Resolver} {t t' : BindingTable} {roots roots' : List RootDeclaration} {s : Setup}
  {st : Resolution} {done : List Provider} {taken : Taken} {xs : List (Option NodeId)}
  {f : Provider → Provider} {p : Provider} {i : NodeId}

/-- The binding of a node that was selected is used, and has the source of its provider. -/
theorem Finished.exists_used (finished : Finished r (register s) s st done taken xs)
    (selected : Selected r st p (some i)) (roots : List Root) {b : Binding}
    (base : p.base? = some b) :
    ∃ u ∈ (graph s roots taken st).usedBindings, u.source = b.source := by
  obtain ⟨n, u, found, stands, known, represents, -⟩ := finished.represents selected
  obtain ⟨o, keyed, origin⟩ := finished.stamped.originates stands.binding known
  refine ⟨u, List.mem_filter.mpr ⟨List.mem_of_getElem? known, ?_⟩, keyed.source.trans ?_⟩
  · refine Array.any_eq_true'.mpr ⟨n, Array.mem_of_getElem? found, ?_⟩
    rw [beq_iff_eq, represents.binding]
  · cases origin with
    | declared | specialized =>
      cases base
      rfl
    | fallback => cases base

/-- The node of a construction is told by its graph. -/
theorem Finished.exists_construct (finished : Finished r (register s) s st done taken xs)
    (valid : r.Valid (register s) s.roots) (reached : r.Reached (register s) s.roots p)
    {c : Construction} (made : r.kind? (register s) p = some (.construct c)) :
    ∃ i, Selected r st p (some i) ∧
      (graph s (rootsTo 0 s.roots xs) taken st).Reachable i ∧
      ((graph s (rootsTo 0 s.roots xs) taken st).node i).kind = .construct c := by
  obtain ⟨n, built⟩ := valid.built p reached
  obtain ⟨i, selected⟩ := finished.node_of_reached reached built
  refine ⟨i, selected, finished.reachable_iff.mpr ⟨p, reached, selected⟩, ?_⟩
  obtain ⟨n, -, found, stands, -⟩ := finished.represents selected
  obtain ⟨kind, made', collected⟩ := stands.kind
  cases made.symm.trans made'
  rw [node_graph found]
  exact collected.eq_construct

theorem Translates.finitelyReached (translates : r.Translates t t' roots roots' f)
    (finite : r.FinitelyReached t roots) : r.FinitelyReached t' roots' := by
  obtain ⟨ps, all⟩ := finite
  refine ⟨ps.map f, fun p' reached' => ?_⟩
  obtain ⟨p, reached, rfl⟩ := translates.reached.mp reached'
  exact List.mem_map_of_mem (all p reached)

end Resolver

variable {c : Compiler} {s base m m' : Setup} {cancellation : Cancellation} {x x' : Composition}

/-- The events of a composition are those of its tours. -/
theorem Composition.events_eq {ts : TypeOracle} {threadSafe : Bool} {tours : List Tour}
    (plans : x.plans = tours.map fun t => t.plan.annotate ts threadSafe x.graph x.arena) :
    x.events = (Call.ofPlans x.graph x.arena (tours.map Tour.plan)).map Call.event := by
  have annotated := Call.events_annotate (g := x.graph) (a := x.arena) ts threadSafe
    (tours.map Tour.plan)
  rw [List.map_map] at annotated
  rw [Composition.events, Composition.calls, plans]
  exact annotated

/-- Calls that differ in the bindings of items only are the same in brief. -/
theorem Composition.events_eq_of_calls
    (calls : x'.calls.map Call.unpinned = x.calls.map Call.unpinned) : x'.events = x.events := by
  have brief (x : Composition) : x.events = (x.calls.map Call.unpinned).map Call.event := by
    rw [Composition.events, List.map_map]
    exact List.map_congr_left fun call _ => call.event_unpinned.symm
  rw [brief, brief, calls]

namespace Composes

variable {st st' : Resolution} {done done' : List Provider} {taken taken' : Resolver.Taken}
  {xs xs' : List (Option NodeId)} {tours tours' : List Tour}
  (composes : Composes c m x st done taken xs tours)
include composes

/-- The tours make variables of the composition. -/
theorem target_lt : ∀ p ∈ tours.map Tour.plan, ∀ v ∈ p.targets, v < x.arena.vars.size := by
  intro p p_mem v mem
  obtain ⟨t, t_mem, rfl⟩ := List.mem_map.mp p_mem
  rw [← x.graph.tour_legsFrom (a := {}) tours] at t_mem
  obtain ⟨l, l_mem, rfl⟩ := List.mem_map.mp t_mem
  have uniform := composes.resolved.uniform
  exact Nat.lt_of_lt_of_le ((composes.legs.sound uniform l_mem).consistent.due_lt v mem)
    (composes.legs.extends_of_mem uniform l_mem).size_le

/-- Each block makes a variable of the composition. -/
theorem root_lt : ∀ p ∈ tours.map Tour.plan, ∀ b ∈ p.blocks, b.root < x.arena.vars.size := by
  intro p p_mem b b_mem
  have inside := composes.target_lt p p_mem
  obtain ⟨t, t_mem, rfl⟩ := List.mem_map.mp p_mem
  rw [← x.graph.tour_legsFrom (a := {}) tours] at t_mem
  obtain ⟨l, l_mem, rfl⟩ := List.mem_map.mp t_mem
  obtain ⟨rooted, -⟩ := composes.legs.headed composes.resolved.uniform l_mem
  have made := List.mem_of_getLast? (rooted b (Block.inOrder_perm.mem_iff.mp b_mem))
  obtain ⟨i, i_mem, target⟩ := List.mem_map.mp made
  rw [← target]
  exact inside _ (List.mem_map_of_mem (List.mem_flatMap.mpr ⟨b, b_mem, i_mem⟩))

variable (composes' : Composes c m' x' st' done' taken' xs' tours')
  (resolver : c.resolver m' = c.resolver m) (roots : m'.roots = m.roots) {f : Provider → Provider}
  (rooted : ∀ d ∈ m.roots, ((c.resolver m).provider? (register m) d.request false).map f =
    (c.resolver m).provider? (register m') d.request false)
include composes' resolver roots rooted

/-- Each root is answered by the node of a provider, and by the node of its translation. -/
theorem roots_alike : List.Forall₂
    (Root.Alike (Resolver.Paired (c.resolver m) (register m) m.roots f st st'))
    (tours.map (·.root)) (tours'.map (·.root)) := by
  have length : tours.length = m.roots.length := by
    have length := composes.length_plans
    rwa [composes.plans, List.length_map] at length
  have length' : tours'.length = m'.roots.length := by
    have length := composes'.length_plans
    rwa [composes'.plans, List.length_map] at length
  refine List.forall₂_map_left_iff.mpr <| List.forall₂_map_right_iff.mpr <|
    List.forall₂_iff_get.mpr ⟨by rw [length, length', roots], fun i lt lt' => ?_⟩
  obtain ⟨d, declared⟩ : ∃ d, m.roots[i]? = some d :=
    ⟨_, List.getElem?_eq_getElem (length ▸ lt)⟩
  have declared' : m'.roots[i]? = some d := roots.symm ▸ declared
  obtain ⟨t, node, p, at_i, root, provider, selected⟩ := composes.exists_tour declared
  obtain ⟨t', node', p', at_i', root', provider', selected'⟩ := composes'.exists_tour declared'
  rw [List.getElem?_eq_getElem lt] at at_i
  rw [List.getElem?_eq_getElem lt'] at at_i'
  cases at_i
  cases at_i'
  have known := List.mem_of_getElem? declared
  rw [resolver, ← rooted d known, provider] at provider'
  cases provider'
  rw [resolver] at selected'
  rw [List.get_eq_getElem, List.get_eq_getElem, root, root']
  exact ⟨rfl, rfl, p, .root known provider, selected, selected'⟩

/-- Compositions of setups that translate are in unison. -/
theorem unison (hints : m'.hints = m.hints) (accumulators : m'.accumulators = m.accumulators)
    (translates : (c.resolver m).Translates (register m) (register m') m.roots m'.roots f) :
    x'.calls.map Call.unpinned = x.calls.map Call.unpinned ∧
      x'.arena.vars.map Variable.nodeless = x.arena.vars.map Variable.nodeless := by
  have alike := composes.roots_alike composes' resolver roots rooted
  have finished' := composes'.finished
  rw [resolver] at finished'
  have corresponds := translates.corresponds composes.finished finished'
    (Resolver.rootsTo 0 m.roots xs) (Resolver.rootsTo 0 m'.roots xs')
  rw [← composes.graph, ← composes'.graph] at corresponds
  have walked := composes.toured
  have walked' := composes'.toured
  rw [← Graph.tours_roots walked] at walked
  rw [← Graph.tours_roots walked'] at walked'
  obtain ⟨plans, unison⟩ := corresponds.tours_unison alike (.empty ..) walked walked'
  refine ⟨?_, unison.vars_eq.symm⟩
  have gathers : x.graph.accumulators = x'.graph.accumulators := by
    rw [composes.graph, composes'.graph]
    exact accumulators.symm
  have annotated : x.plans = x'.plans := by
    have both (g : Graph) (a : Arena) (threadSafe : Bool) (tours : List Tour) :
        tours.map (fun t => t.plan.annotate c.types threadSafe g a) =
          (tours.map Tour.plan).map (·.annotate c.types threadSafe g a) := by
      rw [List.map_map]
      rfl
    rw [composes.plans, composes'.plans, hints, both, both, ← plans]
    exact List.map_congr_left fun p mem => Plan.annotate_eq corresponds unison gathers c.types _
      (composes.root_lt p mem) (composes.target_lt p mem)
  have inside : ∀ p ∈ x.plans, ∀ v ∈ p.targets, v < x.arena.vars.size := by
    intro p mem
    rw [composes.plans] at mem
    obtain ⟨t, t_mem, rfl⟩ := List.mem_map.mp mem
    have made := composes.target_lt t.plan (List.mem_map_of_mem t_mem)
    rwa [Plan.targets, ← Plan.instantiations_annotate] at made
  rw [Composition.calls, Composition.calls, ← annotated]
  exact (Call.ofPlans_eq corresponds unison inside).symm

end Composes

/-! ## Without the declaration -/

/-- The bindings of a declaration have its recipe. -/
theorem BindingTable.recipe_of_source {b : Binding} (mem : b ∈ (register s).declared) {index : Nat}
    (source : b.source = .declared index) {d : Declaration}
    (declared : s.declarations[index]? = some d) : b.recipe = d.recipe := by
  obtain ⟨index', d', found, renders, keyed⟩ := registered_register s b mem
  rw [keyed.source] at source
  cases source
  cases declared.symm.trans found
  exact renders.recipe

namespace Composes

variable {st : Resolution} {done : List Provider} {taken : Resolver.Taken}
  {xs : List (Option NodeId)} {tours : List Tour} {index : Nat}
  (composes : Composes c m x st done taken xs tours)
  (valid : (c.resolver m).Valid (register m) m.roots)
include composes valid

/-- The bindings of a declaration that is not used are not reached. -/
theorem unreached (unused : x.Unused index) {p : Provider}
    (reached : (c.resolver m).Reached (register m) m.roots p) {b : Binding}
    (base : p.base? = some b) : b.source ≠ .declared index := by
  obtain ⟨n, built⟩ := valid.built p reached
  obtain ⟨i, selected⟩ := composes.finished.node_of_reached reached built
  obtain ⟨u, mem, source⟩ :=
    composes.finished.exists_used selected (Resolver.rootsTo 0 m.roots xs) base
  rw [← source]
  exact unused u (composes.graph ▸ mem)

theorem steady_of_keepsDefaults {t' : BindingTable}
    (kept : x.KeepsDefaults (c.resolver m) (register m) t') :
    (c.resolver m).Steady (register m) t' m.roots := by
  intro p reached k made q mem default answered
  obtain ⟨i, -, reachable, kind⟩ := composes.finished.exists_construct valid reached made
  rw [← composes.graph] at reachable kind
  refine kept i reachable q.request ?_ answered
  rw [kind]
  exact List.mem_map_of_mem (List.mem_filter.mpr ⟨mem, default⟩)

end Composes

namespace Compiler

/-- A declaration that the composition does not use can be left out.  An emitter gets the same calls,
    in full and in brief; only the bindings that items of collections come from are numbered anew.  If
    the declaration is the last resort, then the parameters with default values must be answerable
    without it. -/
theorem compile_unused (c : Compiler) (cancellation : Cancellation) {s base : Setup}
    {front back : List Declaration} {d : Declaration} {turns : Nat} {report : Report}
    {x : Composition} (declared : s.declarations = front ++ d :: back)
    (inherited : c.inherited s = .ok base) (ended : c.compile turns cancellation s = some report)
    (ok : report.result = .ok x) (unused : x.Unused (base.declarations.length + front.length))
    (kept : d.recipe.isLastResort = true → x.KeepsDefaults (c.resolver (base.append s))
      (register (base.append s))
      (register (base.append { s with declarations := front ++ back }))) :
    (∃ turns, (c.compile turns cancellation
      { s with declarations := front ++ back }).isSome = true) ∧
    ∀ {turns report'},
      c.compile turns cancellation { s with declarations := front ++ back } = some report' →
      ∃ x', report'.result = .ok x' ∧ x'.calls.map Call.unpinned = x.calls.map Call.unpinned ∧
        x'.events = x.events ∧
        x'.arena.vars.map Variable.nodeless = x.arena.vars.map Variable.nodeless := by
  set s' : Setup := { s with declarations := front ++ back }
  set m := base.append s
  set m' := base.append s'
  have merge : c.merge s = .ok m := by rw [merge_eq, inherited]; rfl
  have merge' : c.merge s' = .ok m' := by
    have same : c.inherited s' = c.inherited s := c.inherited_congr rfl rfl rfl rfl
    rw [merge_eq, same, inherited]
    rfl
  obtain ⟨_, eq, st, done, taken, xs, tours, composes⟩ := exists_composes ended ok
  cases merge.symm.trans eq
  obtain ⟨started, _, eq, valid, during⟩ := (compile_ok_iff ended).mp ⟨x, ok⟩
  cases merge.symm.trans eq
  have finite := (compile_ends_iff.mp ⟨turns, Option.isSome_of_eq_some ended⟩).resolve_left started
    m merge
  -- the declaration is one of the merged setup, after all that is inherited
  have split : m.declarations = (base.declarations ++ front) ++ d :: back := by
    show base.declarations ++ s.declarations = _
    rw [declared, List.append_assoc]
  have at_index : m.declarations[(base.declarations ++ front).length]? = some d := by
    rw [split, List.getElem?_append_right (Nat.le_refl _), Nat.sub_self]
    rfl
  obtain ⟨f, omits⟩ := exists_omits split
  have same : { m with declarations := (base.declarations ++ front) ++ back } = m' := by
    rw [List.append_assoc]
    rfl
  rw [same] at omits
  rw [← List.length_append] at unused
  have unreached := fun p reached b => composes.unreached valid unused (p := p) reached (b := b)
  have numbered := numbered_register m
  have numbered' := numbered_register m'
  have steady : (c.resolver m).Steady (register m) (register m') m.roots := by
    cases lastResort : d.recipe.isLastResort with
    | true => exact composes.steady_of_keepsDefaults valid (kept lastResort)
    | false =>
      refine Resolver.steady_of_regular omits numbered numbered' unreached fun b mem source => ?_
      rw [recipe_of_source mem source at_index, lastResort]
  have translates := Resolver.translates_of_omits omits numbered numbered' valid steady unreached
  have rooted : ∀ d ∈ m.roots, ((c.resolver m).provider? (register m) d.request false).map
      (·.map f) = (c.resolver m).provider? (register m') d.request false := fun d known =>
    Resolver.provider?_map omits numbered numbered' fun p answered =>
      unreached p (.root known answered)
  refine ⟨compile_ends_iff.mpr (.inr fun _ eq => ?_), fun {turns report'} ended' => ?_⟩
  · cases merge'.symm.trans eq
    exact translates.finitelyReached finite
  · obtain ⟨x', ok'⟩ := (compile_ok_iff ended').mpr
      ⟨started, m', merge', translates.valid valid rooted, during⟩
    obtain ⟨_, eq, _, _, _, _, _, composes'⟩ := exists_composes ended' ok'
    cases merge'.symm.trans eq
    obtain ⟨calls, vars⟩ := composes.unison composes' rfl rfl rooted rfl rfl translates
    exact ⟨x', ok', calls, Composition.events_eq_of_calls calls, vars⟩

end Compiler

/-! ## The last resort -/

/-- What an emitter is told of a graph. -/
def Graph.told (g : Graph) : Option (List Event) :=
  (g.tours g.walkLimit {} g.roots).map fun (tours, a) =>
    (Call.ofPlans g a (tours.map Tour.plan)).map Call.event

/-- A graph that is accepted tells the events of the composition. -/
theorem Compiler.exists_told {turns : Nat} {o : Resolver.Outcome} {g : Graph}
    (merge : c.merge s = .ok m)
    (resolved : (c.resolver m).resolve turns (register m) m = some o) (ok : o.result = .ok g) :
    ∃ report x, c.compile turns .never s = some report ∧ report.result = .ok x ∧ x.graph = g ∧
      g.told = some x.events := by
  obtain ⟨report, ended⟩ : ∃ report, c.compile turns .never s = some report := by
    obtain ⟨later, ended⟩ := Option.isSome_iff_exists.mp
      (compileMerged_ends_iff.mpr (Option.isSome_of_eq_some resolved) :
        (c.compileMerged turns .never m).isSome = true)
    have started : Cancellation.never ≠ .before := nofun
    rw [compile_eq c turns s started, merge]
    exact ⟨_, congrArg (Option.map _) ended⟩
  obtain ⟨faults, failed, -⟩ | ⟨_, later, eq, ended', same⟩ := compile_cases ended nofun
  · rw [merge] at failed
    cases failed
  · cases merge.symm.trans eq
    obtain ⟨_, resolved', planned⟩ := Option.bind_eq_some_iff.mp ended'
    cases resolved.symm.trans resolved'
    rw [ok] at planned
    obtain ⟨last, ends, made⟩ := Option.bind_eq_some_iff.mp planned
    cases made
    obtain ⟨_, ends', succeeds⟩ := c.plan_ends .never ((register m).diagnostics c.types)
      (g := g) ⟨_, turns, m, o, resolved, ok⟩
    cases ends.symm.trans ends'
    obtain ⟨x, ok'⟩ := succeeds.mpr nofun
    obtain ⟨rfl, tours, toured, plans⟩ := plan_toured ends ok'
    refine ⟨report, x, ended, same.trans ok', rfl, ?_⟩
    rw [Graph.told, toured, Composition.events_eq plans]
    rfl

namespace Sample

/-- A class with a constructor without parameters, and one that can do without its `X`. -/
def choosy : Declaration where
  recipe := .construct {
    type := .plain "R"
    constructors := [{}, { parameters := [{ name := "x", type := .plain "X", hasDefault := true }] }] }

/-- The last resort for an `X`. -/
def lastResort : Declaration := { contracts := [.plain "X"], recipe := .builtin .onCannotResolve }

/-- A setup as it is merged without the standard setup. -/
def merged (s : Setup) : Setup := (Compiler.emptyOf s).append s

/-- What an emitter is told of a setup, where the bindings that are used come from, and what the
    parameters with default values request of each node. -/
def told (s : Setup) : Option (List Event × List Binding.Source × List (List Request)) :=
  ((bare.resolver (merged s)).resolve 50 (register (merged s)) (merged s)).bind fun o =>
    o.result.toOption.bind fun g => g.told.map fun events =>
      (events, g.usedBindings.map (·.source), g.nodes.toList.map (·.kind.defaultRequests))

theorem exists_of_told {ds : List Declaration} {roots : List String} {events : List Event}
    {sources : List Binding.Source} {requests : List (List Request)}
    (found : told (setup ds roots) = some (events, sources, requests)) :
    ∃ report x, bare.compile 50 .never (setup ds roots) = some report ∧ report.result = .ok x ∧
      x.events = events ∧ x.graph.usedBindings.map (·.source) = sources ∧
      x.graph.nodes.toList.map (·.kind.defaultRequests) = requests := by
  obtain ⟨o, resolved, found⟩ := Option.bind_eq_some_iff.mp found
  obtain ⟨g, accepted, found⟩ := Option.bind_eq_some_iff.mp found
  obtain ⟨_, told, made⟩ := Option.map_eq_some_iff.mp found
  cases made
  have ok : o.result = .ok g := by
    cases result : o.result with
    | error => rw [result] at accepted; cases accepted
    | ok g => rw [result] at accepted; cases accepted; rfl
  have merge : bare.merge (setup ds roots) = .ok (merged (setup ds roots)) := rfl
  obtain ⟨report, x, ended, ok', rfl, events⟩ := Compiler.exists_told merge resolved ok
  cases told.symm.trans events
  exact ⟨report, x, ended, ok', rfl, rfl, rfl⟩

end Sample

/-- A declaration is not used if no binding that is used comes from it. -/
theorem Composition.unused_of_notMem {index : Nat}
    (notMem : .declared index ∉ x.graph.usedBindings.map (·.source)) : x.Unused index :=
  fun _ mem source => notMem (List.mem_map.mpr ⟨_, mem, source⟩)

theorem Composition.keepsDefaults_of_forall {r : Resolver} {t t' : BindingTable}
    (all : ∀ qs ∈ x.graph.nodes.toList.map (·.kind.defaultRequests), ∀ q ∈ qs,
      r.canAnswer t' q = true) : x.KeepsDefaults r t t' := by
  intro i _ q mem _
  unfold Graph.node at mem
  rw [Array.getD_eq_getD_getElem?] at mem
  cases found : x.graph.nodes[i]? with
  | none =>
    rw [found] at mem
    cases mem
  | some n =>
    rw [found] at mem
    exact all _ (List.mem_map_of_mem (Array.mem_def.mp (Array.mem_of_getElem? found))) q mem

namespace Compiler

/-- The last resort is counted for the second constructor of `choosy`, which is called with nothing in
    the end.  Without it the first constructor is called. -/
theorem not_always_irrelevant :
    ¬ ∀ (c : Compiler) (s base : Setup) (front back : List Declaration) (d : Declaration)
      (turns : Nat) (report report' : Report) (x x' : Composition),
      s.declarations = front ++ d :: back → c.inherited s = .ok base →
      c.compile turns .never s = some report → report.result = .ok x →
      x.Unused (base.declarations.length + front.length) →
      c.compile turns .never { s with declarations := front ++ back } = some report' →
      report'.result = .ok x' → x'.events = x.events := by
  intro all
  have run : Sample.told (Sample.setup [Sample.choosy, Sample.lastResort] ["R"]) =
      some ([.block "R" 0, .construct 0 (.plain "R") { constructor := [none] }], [.declared 1],
        [[⟨.plain "X", .untagged⟩], []]) := by
    -- constructors are sorted, which only `cbv` evaluates; it unfolds `List.lookup` by the equations
    -- of `Primrec.List`
    cbv
  have run' : Sample.told (Sample.setup [Sample.choosy] ["R"]) =
      some ([.block "R" 0, .construct 0 (.plain "R") {}], [.declared 1],
        [[], [⟨.plain "X", .untagged⟩]]) := by
    cbv
  obtain ⟨report, x, ended, ok, events, sources, -⟩ := Sample.exists_of_told run
  obtain ⟨report', x', ended', ok', events', -⟩ := Sample.exists_of_told run'
  have same := all Sample.bare (Sample.setup [Sample.choosy, Sample.lastResort] ["R"]) _
    [Sample.choosy] [] Sample.lastResort 50 report report' x x' rfl rfl ended ok
    (Composition.unused_of_notMem (by rw [sources]; decide)) ended' ok'
  rw [events, events'] at same
  revert same
  decide

set_option maxRecDepth 2000 in
/-- With an `X` declared, the last resort for it can be left out. -/
theorem compile_unused_choosy : ∃ report x,
    Sample.bare.compile 50 .never
      (Sample.setup [Sample.service "X" [] .transient, Sample.lastResort, Sample.choosy] ["R"]) =
        some report ∧
    report.result = .ok x ∧ x.Unused 2 ∧
    (∃ turns, (Sample.bare.compile turns .never
      (Sample.setup [Sample.service "X" [] .transient, Sample.choosy] ["R"])).isSome = true) ∧
    ∀ {turns report'}, Sample.bare.compile turns .never
      (Sample.setup [Sample.service "X" [] .transient, Sample.choosy] ["R"]) = some report' →
      ∃ x', report'.result = .ok x' ∧ x'.calls.map Call.unpinned = x.calls.map Call.unpinned ∧
        x'.events = x.events ∧
        x'.arena.vars.map Variable.nodeless = x.arena.vars.map Variable.nodeless := by
  have run : Sample.told
      (Sample.setup [Sample.service "X" [] .transient, Sample.lastResort, Sample.choosy] ["R"]) =
      some ([.block "R" 0, .construct 1 (.plain "X") {},
        .construct 0 (.plain "R") { constructor := [some 1] }], [.declared 1, .declared 3],
        [[⟨.plain "X", .untagged⟩], [], []]) := by
    cbv
  obtain ⟨report, x, ended, ok, -, sources, requests⟩ := Sample.exists_of_told run
  have unused : x.Unused 2 := Composition.unused_of_notMem (by rw [sources]; decide)
  refine ⟨report, x, ended, ok, unused, ?_⟩
  have inherited : Sample.bare.inherited (Sample.setup [Sample.service "X" [] .transient,
    Sample.lastResort, Sample.choosy] ["R"]) = .ok (emptyOf (Sample.setup [] ["R"])) := rfl
  have declared : (Sample.setup [Sample.service "X" [] .transient, Sample.lastResort,
      Sample.choosy] ["R"]).declarations =
    [Sample.service "X" [] .transient] ++ Sample.lastResort :: [Sample.choosy] := rfl
  refine compile_unused Sample.bare .never declared inherited ended ok unused fun _ => ?_
  refine Composition.keepsDefaults_of_forall ?_
  rw [requests]
  decide +kernel

end Compiler

end ObjectGraph
