import ObjectGraph.Proofs.Compiler.Outcome
import ObjectGraph.Proofs.Graph.Renaming

/-
  The order of the roots does not matter.

  Roots are resolved and walked one after another, and earlier roots leave their traces: they decide
  about numbers, and about which variables the later roots are linked to.  What is needed does not
  depend on the order (`Resolver.translates_id`), so the graphs match, and what a root has made is
  told by its node alone (`Graph.Matches.shape_eq`).

  `compile_perm_roots` is the outcome.  The one trace that shows in a plan is the type that a value
  from outside is bound to (`not_always_same_contracts`): such a value is kept as an instance of the
  node that used it first.
-/

namespace ObjectGraph

namespace Resolver

variable {r : Resolver} {t : BindingTable} {roots roots' : List RootDeclaration} {p : Provider}

theorem Reached.mono (sub : roots ⊆ roots') (reached : r.Reached t roots p) :
    r.Reached t roots' p := by
  induction reached with
  | root declared answered => exact .root (sub declared) answered
  | demand _ demanded answered ih => exact .demand ih demanded answered

theorem Valid.mono (sub : roots ⊆ roots') (valid : r.Valid t roots') : r.Valid t roots where
  built p reached := valid.built p (reached.mono sub)
  rooted d declared := valid.rooted d (sub declared)
  demanded p reached := valid.demanded p (reached.mono sub)
  straight p reached := valid.straight p (reached.mono sub)

theorem FinitelyReached.mono (sub : roots ⊆ roots') (finite : r.FinitelyReached t roots') :
    r.FinitelyReached t roots := by
  obtain ⟨ps, all⟩ := finite
  exact ⟨ps, fun p reached => all p (reached.mono sub)⟩

/-- The same roots need the same providers. -/
theorem translates_id (r : Resolver) (t : BindingTable) (sub : roots ⊆ roots')
    (sup : roots' ⊆ roots) : r.Translates t t roots roots' id where
  reached := ⟨fun reached => ⟨_, reached.mono sup, rfl⟩, fun ⟨_, reached, same⟩ =>
    same ▸ reached.mono sub⟩
  injective _ _ same := same
  alike _ := .refl _
  identity _ _ := Iff.rfl
  kind _ := rfl
  demands _ := List.forall₂_same.mpr fun _ _ => ⟨rfl, rfl, Option.map_id_apply⟩

end Resolver

/-- Compositions of the same roots in two orders: there is a plan for each root in its place, and the
    plans of a root have its name and one shape. -/
structure Composition.PlansAlike (x x' : Composition) (roots roots' : List RootDeclaration) :
    Prop where
  length : x.plans.length = roots.length
  length' : x'.plans.length = roots'.length
  shape : ∀ {i j : Nat} {d : RootDeclaration}, roots[i]? = some d → roots'[j]? = some d →
    ∃ p p', x.plans[i]? = some p ∧ x'.plans[j]? = some p' ∧ p.name = d.name ∧ p'.name = d.name ∧
      p.shape x.graph x.arena = p'.shape x'.graph x'.arena

variable {c : Compiler} {s merged : Setup} {cancellation : Cancellation}
  {roots : List RootDeclaration} {x x' : Composition}

/-- Setups that differ in the order of their roots have compositions with plans that are alike. -/
theorem Composes.plansAlike {st st' : Resolution} {done done' : List Provider}
    {taken taken' : Resolver.Taken} {xs xs' : List (Option NodeId)} {tours tours' : List Tour}
    (composes : Composes c merged x st done taken xs tours)
    (composes' : Composes c { merged with roots } x' st' done' taken' xs' tours')
    (perm : merged.roots.Perm roots) : x.PlansAlike x' merged.roots roots where
  length := composes.length_plans
  length' := composes'.length_plans
  shape := by
    intro i j d declared declared'
    obtain ⟨t, node, p, at_i, root, provider, selected⟩ := composes.exists_tour declared
    obtain ⟨t', node', p', at_j, root', provider', selected'⟩ := composes'.exists_tour declared'
    obtain ⟨l, mem, rfl, plan, plan_i, name, shape⟩ := composes.exists_leg at_i
    obtain ⟨l', mem', rfl, plan', plan_j, name', shape'⟩ := composes'.exists_leg at_j
    have translates := (c.resolver merged).translates_id (BindingTable.register merged)
      perm.subset perm.symm.subset
    have corresponds := translates.corresponds composes.finished composes'.finished
      (Resolver.rootsTo 0 merged.roots xs) (Resolver.rootsTo 0 roots xs')
    rw [← composes.graph, ← composes'.graph] at corresponds
    -- the same provider answers the root in both
    cases provider.symm.trans provider'
    have pair : Resolver.Paired (c.resolver merged) (BindingTable.register merged) merged.roots id
        st st' l.tour.root.node l'.tour.root.node := by
      rw [root, root']
      exact ⟨p, .root (List.mem_of_getElem? declared) provider, selected, selected'⟩
    refine ⟨plan, plan', plan_i, plan_j, ?_, ?_, ?_⟩
    · rw [name, root]
      rfl
    · rw [name', root']
      rfl
    · rw [shape, shape', corresponds.shape_eq composes.resolved composes'.resolved composes.legs
        composes'.legs mem mem' pair]

namespace Compiler

/-- The setup with its roots in another order is merged alike. -/
theorem merge_roots (c : Compiler) (s : Setup) (roots : List RootDeclaration) :
    c.inherited { s with roots } = c.inherited s :=
  c.inherited_congr rfl rfl rfl rfl

/-- Whatever the order of the roots, compilation comes to an end or not, and succeeds or fails; and
    when it succeeds, each root has a plan of the same shape.  The types that values from outside are
    bound to are left out of the shape. -/
theorem compile_perm_roots (c : Compiler) (cancellation : Cancellation) (s : Setup)
    {roots : List RootDeclaration} (perm : s.roots.Perm roots) :
    ((∃ turns, (c.compile turns cancellation s).isSome = true) ↔
      ∃ turns, (c.compile turns cancellation { s with roots }).isSome = true) ∧
    ∀ {turns turns' : Nat} {report report' : Report},
      c.compile turns cancellation s = some report →
      c.compile turns' cancellation { s with roots } = some report' →
      ((∃ x, report.result = .ok x) ↔ ∃ x, report'.result = .ok x) ∧
      ∀ x x', report.result = .ok x → report'.result = .ok x' →
        ∃ base, c.inherited s = .ok base ∧
          x.PlansAlike x' (base.roots ++ s.roots) (base.roots ++ roots) := by
  have merge_eq' := c.merge_eq { s with roots }
  rw [merge_roots] at merge_eq'
  cases inherited : c.inherited s with
  | error faults =>
    have failed : c.merge s = .error faults := by rw [merge_eq, inherited]; rfl
    have failed' : c.merge { s with roots } = .error faults := by
      rw [merge_eq', inherited]
      rfl
    refine ⟨?_, fun ended ended' => ⟨?_, fun x x' ok => ?_⟩⟩
    · simp only [compile_ends_iff, failed, failed']
    · simp only [compile_ok_iff ended, compile_ok_iff ended', failed, failed']
    · obtain ⟨-, merged, eq, -⟩ := (compile_ok_iff ended).mp ⟨x, ok⟩
      rw [failed] at eq
      cases eq
  | ok base =>
    have eq : c.merge s = .ok (base.append s) := by rw [merge_eq, inherited]; rfl
    have eq' : c.merge { s with roots } = .ok (base.append { s with roots }) := by
      rw [merge_eq', inherited]
      rfl
    have perm' : (base.append s).roots.Perm (base.append { s with roots }).roots :=
      perm.append_left base.roots
    refine ⟨?_, fun ended ended' => ⟨?_, fun x x' ok ok' => ⟨base, rfl, ?_⟩⟩⟩
    · simp only [compile_ends_iff, eq, eq', Except.ok.injEq, forall_eq']
      exact or_congr_right ⟨.mono perm'.symm.subset, .mono perm'.subset⟩
    · simp only [compile_ok_iff ended, compile_ok_iff ended', eq, eq', Except.ok.injEq,
        exists_eq_left']
      refine and_congr_right fun _ => and_congr ⟨.mono perm'.symm.subset, .mono perm'.subset⟩ ?_
      exact imp_congr_right fun _ =>
        ⟨fun none => List.nil_perm.mp (none ▸ perm'), fun none => List.perm_nil.mp (none ▸ perm')⟩
    · obtain ⟨_, merged, _, _, _, _, _, composes⟩ := exists_composes ended ok
      obtain ⟨_, merged', _, _, _, _, _, composes'⟩ := exists_composes ended' ok'
      cases eq.symm.trans merged
      cases eq'.symm.trans merged'
      exact composes.plansAlike composes' perm'

end Compiler

/-! ## Values from outside -/

/-- The bound types of what a plan makes, in order. -/
def Plan.contracts (g : Graph) (a : Arena) (p : Plan) : List TypeTerm :=
  p.instantiations.map fun i => (a.node g i.target).contract

namespace Sample

/-- A compiler without the standard setup. -/
def bare : Compiler := { includesStandard := false }

/-- A value from outside bound to the types `I` and `J`, and a singleton that needs both. -/
def shared (roots : List String) : Setup :=
  setup
    [{ contracts := [.plain "I", .plain "J"], recipe := .outside ⟨"a", .plain "A"⟩ },
      service "S" ["I", "J"] .singleton, service "R" ["S", "J"] .transient] roots

/-- What comes of a compilation, with turns to spare. -/
def compiled (s : Setup) : Option Composition :=
  (bare.compile 50 .never s).bind fun report => report.result.toOption

theorem exists_report {s : Setup} {x : Composition} (found : compiled s = some x) :
    ∃ report, bare.compile 50 .never s = some report ∧ report.result = .ok x := by
  obtain ⟨report, ended, ok⟩ := Option.bind_eq_some_iff.mp found
  refine ⟨report, ended, ?_⟩
  cases result : report.result with
  | error => rw [result] at ok; cases ok
  | ok y => rw [result] at ok; cases ok; rfl

/-- The bound types of what the plans of a composition make. -/
def contractsOf (x : Composition) : List (String × List TypeTerm) :=
  x.plans.map fun p => (p.name, p.contracts x.graph x.arena)

end Sample

namespace Compiler

/-- The second of two roots that use a value from outside meets it as an instance of the type that
    the first one asked for, so the order of the roots shows in the bound types. -/
theorem not_always_same_contracts :
    ¬ ∀ (c : Compiler) (s : Setup) (roots : List RootDeclaration), s.roots.Perm roots →
      ∀ (turns : Nat) (report report' : Report) (x x' : Composition),
        c.compile turns .never s = some report →
        c.compile turns .never { s with roots } = some report' →
        report.result = .ok x → report'.result = .ok x' →
        ∀ p ∈ x.plans, ∀ p' ∈ x'.plans, p.name = p'.name →
          p.contracts x.graph x.arena = p'.contracts x'.graph x'.arena := by
  intro all
  have run : (Sample.compiled (Sample.shared ["I", "J"])).map Sample.contractsOf =
      some [("I", [.plain "I"]), ("J", [.plain "I"])] := by decide +kernel
  have run' : (Sample.compiled (Sample.shared ["J", "I"])).map Sample.contractsOf =
      some [("J", [.plain "J"]), ("I", [.plain "J"])] := by decide +kernel
  obtain ⟨x, found, plans⟩ := Option.map_eq_some_iff.mp run
  obtain ⟨x', found', plans'⟩ := Option.map_eq_some_iff.mp run'
  obtain ⟨report, ended, ok⟩ := Sample.exists_report found
  obtain ⟨report', ended', ok'⟩ := Sample.exists_report found'
  have mem : ("I", [.plain "I"]) ∈ Sample.contractsOf x := by rw [plans]; decide
  have mem' : ("I", [.plain "J"]) ∈ Sample.contractsOf x' := by rw [plans']; decide
  obtain ⟨p, p_mem, eq⟩ := List.mem_map.mp mem
  obtain ⟨p', p'_mem, eq'⟩ := List.mem_map.mp mem'
  obtain ⟨name, contracts⟩ := Prod.mk.inj eq
  obtain ⟨name', contracts'⟩ := Prod.mk.inj eq'
  have same := all Sample.bare (Sample.shared ["I", "J"]) (Sample.shared ["J", "I"]).roots
    (List.Perm.swap _ _ _) 50 report report' x x' ended ended' ok ok' p p_mem p' p'_mem
    (name.trans name'.symm)
  rw [contracts, contracts'] at same
  revert same
  decide

/-- Three roots, from first to last and from last to first. -/
theorem compile_perm_roots_shared : ∃ x x',
    Sample.compiled (Sample.shared ["R", "S", "J"]) = some x ∧
      Sample.compiled (Sample.shared ["J", "S", "R"]) = some x' ∧
      Sample.contractsOf x = [("R", [.plain "S", .plain "J", .plain "R"]),
        ("S", [.plain "J", .plain "S"]), ("J", [.plain "J"])] ∧
      x.PlansAlike x' (Sample.shared ["R", "S", "J"]).roots
        (Sample.shared ["J", "S", "R"]).roots := by
  have run : (Sample.compiled (Sample.shared ["R", "S", "J"])).map Sample.contractsOf =
      some [("R", [.plain "S", .plain "J", .plain "R"]), ("S", [.plain "J", .plain "S"]),
        ("J", [.plain "J"])] := by decide +kernel
  have run' : (Sample.compiled (Sample.shared ["J", "S", "R"])).isSome = true := by decide +kernel
  obtain ⟨x, found, contracts⟩ := Option.map_eq_some_iff.mp run
  obtain ⟨x', found'⟩ := Option.isSome_iff_exists.mp run'
  obtain ⟨report, ended, ok⟩ := Sample.exists_report found
  obtain ⟨report', ended', ok'⟩ := Sample.exists_report found'
  have perm : (Sample.shared ["R", "S", "J"]).roots.Perm (Sample.shared ["J", "S", "R"]).roots :=
    by decide
  obtain ⟨-, both⟩ := compile_perm_roots Sample.bare .never (Sample.shared ["R", "S", "J"]) perm
  obtain ⟨-, alike⟩ := both ended ended'
  obtain ⟨base, inherited, plansAlike⟩ := alike x x' ok ok'
  cases inherited
  exact ⟨x, x', found, found', contracts, plansAlike⟩

end Compiler

end ObjectGraph
