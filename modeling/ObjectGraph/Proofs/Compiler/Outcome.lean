import ObjectGraph.Compiler.Basic
import ObjectGraph.Proofs.Graph.Termination
import ObjectGraph.Proofs.Graph.Validity
import ObjectGraph.Proofs.Plan.Shape
import ObjectGraph.Proofs.Plan.Termination

/-
  What comes of a compilation.

  Merging never looks at what a setup declares itself, so a setup is merged by putting it behind all
  that it inherits (`merge_eq`).  The compilation of a merged setup comes to an end exactly if
  resolution does (`compile_ends_iff`), and succeeds exactly if the setup is valid and nobody
  interrupts (`compile_ok_iff`): once a graph is accepted, walking it cannot fail.

  A composition is then known by what it was made of (`Composes`): a finished resolution, and a tour
  for each root.
-/

namespace ObjectGraph

variable {c : Compiler} {s s' merged base : Setup} {cancellation : Cancellation} {turns : Nat}
  {report : Compiler.Report} {x : Composition} {g : Graph}

namespace Compiler

/-! ## Merging -/

/-- All that a setup is merged with, from the weakest to the strongest contribution. -/
def inherited (c : Compiler) (s : Setup) : Except (List Fault) Setup :=
  let d := c.dependencies s
  if d.faults.isEmpty then
    .ok ((c.allGlobals.filter (·.name ≠ s.name) ++ d.found).foldl Setup.append (emptyOf s))
  else .error d.faults

/-- A setup comes after all that it inherits. -/
theorem merge_eq (c : Compiler) (s : Setup) :
    c.merge s = (c.inherited s).map (·.append s) := by
  unfold merge contributions inherited
  dsimp only
  split
  · simp only [Except.map, List.foldl_append, List.foldl_cons, List.foldl_nil]
  · rfl

/-- What a setup inherits depends on its name, its kind, its dependencies and its location. -/
theorem inherited_congr (c : Compiler) (name : s.name = s'.name) (kind : s.kind = s'.kind)
    (dependsOn : s.dependsOn = s'.dependsOn) (location : s.location = s'.location) :
    c.inherited s = c.inherited s' := by
  have follow (depth : Nat) (st : DependencySearch) :
      st.follow c.catalog depth s = st.follow c.catalog depth s' := by
    cases depth with
    | zero => rfl
    | succ depth => simp only [DependencySearch.follow, dependsOn, name, location]
  have search : c.dependencies s = c.dependencies s' := by
    rw [dependencies, dependencies, follow, name]
  have empty : emptyOf s = emptyOf s' := by
    simp only [emptyOf, ownDeclaration, name, kind, dependsOn, location]
  rw [inherited, inherited, search, empty, name]

/-! ## What a composition is made of -/

/-- The resolver of a merged setup. -/
def resolver (c : Compiler) (s : Setup) : Resolver :=
  { types := c.types, rules := s.rules, handlers := HandlerChain.ofList s.handlers }

end Compiler

/-- A composition of a merged setup, with the resolution and the tours that it comes from. -/
structure Composes (c : Compiler) (s : Setup) (x : Composition) (st : Resolution)
    (done : List Provider) (taken : Resolver.Taken) (xs : List (Option NodeId))
    (tours : List Tour) : Prop where
  finished : Resolver.Finished (c.resolver s) (BindingTable.register s) s st done taken xs
  graph : x.graph = Resolver.graph s (Resolver.rootsTo 0 s.roots xs) taken st
  faultless : st.faults = []
  resolved : x.graph.IsResolved
  toured : x.graph.tours x.graph.walkLimit {} x.graph.roots = some (tours, x.arena)
  plans : x.plans = tours.map fun t =>
    t.plan.annotate c.types (Hints.isThreadSafe s.hints) x.graph x.arena

namespace Composes

variable {st : Resolution} {done : List Provider} {taken : Resolver.Taken}
  {xs : List (Option NodeId)} {tours : List Tour}
  (composes : Composes c s x st done taken xs tours)
include composes

/-- The legs of the tours, one after another from an empty arena. -/
theorem legs : x.graph.Toured (x.graph.legsFrom {} tours) x.arena := by
  have toured := Graph.tours_toured x.graph.walkLimit x.graph.roots (fun _ => id) .start
    composes.toured
  rwa [List.nil_append] at toured

/-- There is a tour for each root of the graph. -/
theorem roots : tours.map (·.root) = Resolver.rootsTo 0 s.roots xs := by
  rw [Graph.tours_roots composes.toured, composes.graph]
  rfl

theorem length_plans : x.plans.length = s.roots.length := by
  have answered := composes.finished.none_notMem composes.faultless
  obtain ⟨length, -⟩ :=
    Resolver.getElem?_rootsTo s.roots 0 composes.finished.rooted.length_eq answered
  rw [composes.plans, List.length_map, ← length, ← composes.roots, List.length_map]

/-- Every declared root is answered by the node of a provider, and has its tour. -/
theorem exists_tour {i : Nat} {d : RootDeclaration} (declared : s.roots[i]? = some d) :
    ∃ t node p, tours[i]? = some t ∧ t.root = Resolver.rootTo d i node ∧
      (c.resolver s).provider? (BindingTable.register s) d.request false = some p ∧
      Resolver.Selected (c.resolver s) st p (some node) := by
  have answered := composes.finished.none_notMem composes.faultless
  obtain ⟨-, each⟩ :=
    Resolver.getElem?_rootsTo s.roots 0 composes.finished.rooted.length_eq answered
  obtain ⟨node, rooted⟩ := each i d declared
  rw [Nat.zero_add] at rooted
  -- the node is the one that was selected for this declaration
  obtain ⟨k, d', node', at_k, filled, same⟩ :=
    Resolver.mem_rootsTo.mp (List.mem_of_getElem? rooted)
  obtain rfl : i = k := (congrArg Root.index same).trans (Nat.zero_add k)
  obtain rfl : node = node' := congrArg Root.node same
  cases declared.symm.trans at_k
  obtain ⟨lt, rfl⟩ := List.getElem?_eq_some_iff.mp at_k
  obtain ⟨lt', eq⟩ := List.getElem?_eq_some_iff.mp filled
  have supplied := (List.forall₂_iff_get.mp composes.finished.rooted).2 i lt lt'
  simp only [List.get_eq_getElem, eq] at supplied
  obtain ⟨p, provider, selected⟩ := supplied.exists_supplier
  rw [← composes.roots, List.getElem?_map] at rooted
  obtain ⟨t, at_i, root⟩ := Option.map_eq_some_iff.mp rooted
  exact ⟨t, node, p, at_i, root, provider, selected⟩

/-- Every tour has its leg and its plan. -/
theorem exists_leg {i : Nat} {t : Tour} (at_i : tours[i]? = some t) :
    ∃ l ∈ x.graph.legsFrom {} tours, l.tour = t ∧ ∃ p, x.plans[i]? = some p ∧
      p.name = t.root.name ∧ p.shape x.graph x.arena = t.plan.shape x.graph x.arena := by
  have mem := List.mem_of_getElem? at_i
  rw [← x.graph.tour_legsFrom (a := {}) tours] at mem
  obtain ⟨l, l_mem, same⟩ := List.mem_map.mp mem
  have plan : x.plans[i]? =
      some (t.plan.annotate c.types (Hints.isThreadSafe s.hints) x.graph x.arena) := by
    rw [composes.plans, List.getElem?_map, at_i, Option.map_some]
  exact ⟨l, l_mem, same, _, plan, rfl, Plan.shape_annotate ..⟩

end Composes

namespace Compiler

theorem plan_toured {diagnostics : List Diagnostic}
    (ended : c.plan cancellation diagnostics g = some report) (ok : report.result = .ok x) :
    x.graph = g ∧ ∃ tours, g.tours g.walkLimit {} g.roots = some (tours, x.arena) ∧
      x.plans = tours.map fun t =>
        t.plan.annotate c.types (Hints.isThreadSafe g.hints) g x.arena := by
  obtain ⟨v, visited, eq⟩ := Option.bind_eq_some_iff.mp ended
  unfold Graph.visit at visited
  split at visited
  · cases visited
    cases eq
    cases ok
  · obtain ⟨⟨tours, a⟩, walked, made⟩ := Option.bind_eq_some_iff.mp visited
    cases made
    cases eq
    cases ok
    exact ⟨rfl, tours, walked, List.map_map⟩

/-- Planning a graph that resolution accepted always comes to an end, and fails only when it is
    cancelled. -/
theorem plan_ends (c : Compiler) (cancellation : Cancellation) (diagnostics : List Diagnostic)
    (resolved : g.IsResolved) : ∃ report, c.plan cancellation diagnostics g = some report ∧
      ((∃ x, report.result = .ok x) ↔ (cancellation = .during → g.roots = [])) := by
  unfold plan Graph.visit
  split
  · rename_i cancelled
    rw [Bool.and_eq_true, beq_iff_eq, Bool.not_eq_true', List.isEmpty_eq_false_iff] at cancelled
    exact ⟨_, rfl, iff_of_false (fun ⟨_, ok⟩ => nomatch ok)
      fun free => cancelled.2 (free cancelled.1)⟩
  · rename_i going
    obtain ⟨tours, a, walked, -⟩ :=
      Graph.tours_end resolved.founded g.roots (rested_empty g) fun _ => id
    rw [walked]
    refine ⟨_, rfl, iff_of_true ⟨_, rfl⟩ fun during => ?_⟩
    by_contra rooted
    exact going (by simp [during, rooted])

theorem compile_eq (c : Compiler) (turns : Nat) (s : Setup) (started : cancellation ≠ .before) :
    c.compile turns cancellation s = match c.merge s with
      | .error faults =>
        some ⟨.error ⟨s.name, faults⟩, Journal.debug s!"Compiling {s.name}."⟩
      | .ok merged => (c.compileMerged turns cancellation merged).map fun report =>
        { report with journal := Journal.debug s!"Compiling {s.name}." ++ report.journal } := by
  unfold compile
  dsimp only
  rw [if_neg (by simpa using started)]
  cases c.merge s with
  | error => rfl
  | ok merged => exact Option.map_eq_bind.symm

/-- A compilation that was not cancelled from the start ends with the faults of merging, or goes on
    with the merged setup. -/
theorem compile_cases (ended : c.compile turns cancellation s = some report)
    (started : cancellation ≠ .before) :
    (∃ faults, c.merge s = .error faults ∧ report.result = .error ⟨s.name, faults⟩) ∨
      ∃ merged later, c.merge s = .ok merged ∧
        c.compileMerged turns cancellation merged = some later ∧ report.result = later.result := by
  rw [compile_eq c turns s started] at ended
  cases eq : c.merge s with
  | error faults =>
    rw [eq] at ended
    cases ended
    exact .inl ⟨faults, rfl, rfl⟩
  | ok merged =>
    rw [eq] at ended
    obtain ⟨later, ended', made⟩ := Option.map_eq_some_iff.mp ended
    cases made
    exact .inr ⟨merged, later, rfl, ended', rfl⟩

theorem compile_before (c : Compiler) (turns : Nat) (s : Setup) :
    c.compile turns .before s =
      some ⟨.error ⟨s.name, [.cancelled s.name]⟩, Journal.debug s!"Compiling {s.name}."⟩ := rfl

/-- Where a composition comes from. -/
theorem compileMerged_composes (ended : c.compileMerged turns cancellation merged = some report)
    (ok : report.result = .ok x) :
    ∃ st done taken xs tours, Composes c merged x st done taken xs tours := by
  obtain ⟨o, resolved, planned⟩ := Option.bind_eq_some_iff.mp ended
  split at planned
  · cases planned
    cases ok
  · rename_i g accepted
    obtain ⟨later, planned', made⟩ := Option.bind_eq_some_iff.mp planned
    cases made
    obtain ⟨rfl, tours, toured, plans⟩ := plan_toured planned' ok
    obtain ⟨st, done, taken, xs, finished, graph, faultless, -⟩ :=
      Resolver.resolve_accepted resolved accepted
    have hints : x.graph.hints = merged.hints := by
      rw [graph]
      rfl
    exact ⟨st, done, taken, xs, tours, finished, graph, faultless,
      ⟨_, turns, merged, o, resolved, accepted⟩, toured, hints ▸ plans⟩

theorem exists_composes (ended : c.compile turns cancellation s = some report)
    (ok : report.result = .ok x) : ∃ merged, c.merge s = .ok merged ∧
      ∃ st done taken xs tours, Composes c merged x st done taken xs tours := by
  have started : cancellation ≠ .before := by
    rintro rfl
    rw [compile_before] at ended
    cases ended
    cases ok
  obtain ⟨faults, -, failed⟩ | ⟨merged, later, eq, ended', same⟩ := compile_cases ended started
  · rw [ok] at failed
    cases failed
  · exact ⟨merged, eq, compileMerged_composes ended' (same ▸ ok)⟩

/-! ## When a compilation succeeds -/

/-- A valid setup is compiled unless the walk is cancelled, and the walk is not looked at if there
    are no roots. -/
theorem compileMerged_ok_iff (ended : c.compileMerged turns cancellation merged = some report) :
    (∃ x, report.result = .ok x) ↔
      (c.resolver merged).Valid (BindingTable.register merged) merged.roots ∧
        (cancellation = .during → merged.roots = []) := by
  obtain ⟨o, resolved, planned⟩ := Option.bind_eq_some_iff.mp ended
  have ok_iff := Resolver.exists_ok_iff_valid resolved
  split at planned
  · rename_i faults rejected
    cases planned
    refine iff_of_false (fun ⟨_, ok⟩ => nomatch ok) fun ⟨valid, _⟩ => ?_
    obtain ⟨g, ok⟩ := ok_iff.mpr valid
    rw [rejected] at ok
    cases ok
  · rename_i g accepted
    have rooted : g.roots = [] ↔ merged.roots = [] := by
      rw [← List.length_eq_zero_iff, (Resolver.roots_of_ok resolved accepted).1,
        List.length_eq_zero_iff]
    obtain ⟨later, planned', planned_iff⟩ := c.plan_ends cancellation
      ((BindingTable.register merged).diagnostics c.types) ⟨_, turns, merged, o, resolved, accepted⟩
    obtain ⟨_, ended', made⟩ := Option.bind_eq_some_iff.mp planned
    cases planned'.symm.trans ended'
    cases made
    rw [planned_iff, rooted]
    exact (and_iff_right (ok_iff.mp ⟨g, accepted⟩)).symm

theorem compile_ok_iff (ended : c.compile turns cancellation s = some report) :
    (∃ x, report.result = .ok x) ↔ cancellation ≠ .before ∧ ∃ merged, c.merge s = .ok merged ∧
      (c.resolver merged).Valid (BindingTable.register merged) merged.roots ∧
        (cancellation = .during → merged.roots = []) := by
  by_cases started : cancellation = .before
  · subst started
    rw [compile_before] at ended
    cases ended
    exact iff_of_false (fun ⟨_, ok⟩ => nomatch ok) fun going => going.1 rfl
  · obtain ⟨faults, failed, result⟩ | ⟨merged, later, eq, ended', same⟩ :=
      compile_cases ended started
    · rw [failed, result]
      exact iff_of_false (fun ⟨_, ok⟩ => nomatch ok) fun ⟨_, _, eq, _⟩ => nomatch eq
    · rw [same, compileMerged_ok_iff ended', eq]
      refine ⟨fun valid => ⟨started, merged, rfl, valid⟩, fun ⟨_, merged', eq', valid⟩ => ?_⟩
      cases eq'
      exact valid

/-! ## When a compilation ends -/

theorem compileMerged_ends_iff : (c.compileMerged turns cancellation merged).isSome = true ↔
    ((c.resolver merged).resolve turns (BindingTable.register merged) merged).isSome = true := by
  unfold compileMerged
  dsimp only
  change (Option.bind ((c.resolver merged).resolve turns _ merged) _).isSome = true ↔ _
  cases resolved : (c.resolver merged).resolve turns (BindingTable.register merged) merged with
  | none => exact Iff.rfl
  | some o =>
    refine iff_of_true ?_ rfl
    rw [Option.bind_some]
    cases result : o.result with
    | error faults => rfl
    | ok g =>
      obtain ⟨later, planned, -⟩ := c.plan_ends cancellation
        ((BindingTable.register merged).diagnostics c.types) ⟨_, turns, merged, o, resolved, result⟩
      dsimp only
      rw [planned]
      rfl

/-- A compilation comes to an end exactly if it stops before resolution or the roots need finitely
    many providers. -/
theorem compile_ends_iff : (∃ turns, (c.compile turns cancellation s).isSome = true) ↔
    cancellation = .before ∨ ∀ merged, c.merge s = .ok merged →
      (c.resolver merged).FinitelyReached (BindingTable.register merged) merged.roots := by
  by_cases started : cancellation = .before
  · subst started
    exact iff_of_true ⟨0, rfl⟩ (.inl rfl)
  · rw [or_iff_right started]
    simp only [compile_eq c _ s started]
    cases c.merge s with
    | error faults => exact iff_of_true ⟨0, rfl⟩ nofun
    | ok merged =>
      simp only [Option.isSome_map, compileMerged_ends_iff, Resolver.resolve_ends_iff,
        Except.ok.injEq, forall_eq']

/-- Resolution comes to an end exactly if the roots need finitely many providers, and compilation
    exactly if it stops before resolution or the roots of the merged setup do. -/
theorem ends_iff_finitelyReached (c : Compiler) (s : Setup) :
    (∀ r : Resolver, (∃ turns, (r.resolve turns (BindingTable.register s) s).isSome = true) ↔
      r.FinitelyReached (BindingTable.register s) s.roots) ∧
    ∀ cancellation, (∃ turns, (c.compile turns cancellation s).isSome = true) ↔
      cancellation = .before ∨ ∀ merged, c.merge s = .ok merged →
        (c.resolver merged).FinitelyReached (BindingTable.register merged) merged.roots :=
  ⟨fun r => r.resolve_ends_iff s, fun _ => compile_ends_iff⟩

end Compiler

end ObjectGraph
