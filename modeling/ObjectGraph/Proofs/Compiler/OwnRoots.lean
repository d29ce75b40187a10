import ObjectGraph.Proofs.Compiler.RootOrder

/-
  Which plan is found under the name of a root.

  A setup comes after all that it inherits, so that its own declarations win: of two bindings of one
  contract the later one counts.  Roots are listed in the same order, but the first plan of a name is
  the one that is found.  So a root that a setup declares is found by its name unless a global setup
  or a dependency has declared one of that name before, and then the inherited root is found instead
  (`plan?_own_root_iff`).

  Only where both roots are one value from outside does this make no difference: its variable is the
  same in all roots, and there is nothing else to such a plan (`Graph.tour_outside`).
-/

namespace ObjectGraph

open Arena

variable {g : Graph} {a : Arena} {legs : List Leg} {l l' : Leg}

/-! ## Roots that are values from outside -/

/-- Placing a value from outside leaves it where it is found. -/
theorem Placed.Outcome.lookup_outside {n : NodeId} {q : Request} {p : Placed}
    (outcome : Placed.Outcome g a n q p) (outside : (g.node n).isOutside = true) :
    p.arena.lookup (.binding (g.node n).key) = some p.var := by
  cases outcome with
  | refer _ _ _ _ inside => cases outside.symm.trans inside
  | there found => exact found
  | again found => exact found
  | remake _ inside => cases outside.symm.trans inside
  | @stock k _ _ bound kind launches =>
    rw [Node.isShared, outside] at kind
    cases k with
    | hoisted => cases kind
    | binding key =>
      cases bound
      rw [launches.same.lookup, launches.var]
      exact lookup_store_self _ _ _
  | fresh unshared =>
    rw [Node.isShared, outside] at unshared
    cases unshared

/-- The plan of a value from outside consists of the one block that takes it over. -/
theorem Graph.tour_outside (uniform : g.Uniform) (rested : Rested g a) {limit : Nat} {root : Root}
    (known : root ∈ g.roots) (outside : (g.node root.node).isOutside = true) {t : Tour}
    (ends : g.tour limit a root = some t) :
    t.blocks = [{ root := t.var, instantiations := [{ target := t.var, supplies := [] }] }] ∧
      t.arena.lookup (.binding (g.node root.node).key) = some t.var := by
  obtain ⟨last, run, arena, drained⟩ := Graph.tour_run ends
  rw [Graph.tour_var ends]
  set p := Placed.of g a root.node root.request none
  have outcome : Placed.Outcome g a root.node root.request p := Placed.of_outcome g a _ _ none
  have serves := Placed.Serves.of_outcome rested.1 rested.2 uniform (uniform.root_lt root known)
    outcome
  have same : p.arena.SameValues (Walk.start p).arena :=
    (sameValues_setBlockRoot _ _).trans (sameValues_setCreated _ _ true)
  -- it needs nothing itself
  have nothing : g.dependencies ((Walk.start p).arena.var p.var).node = [] := by
    have profile := uniform.profile_eq _ _ (serves.consistent.node_lt p.var serves.provided.1)
      (uniform.root_lt root known) serves.key
    rw [same.node]
    exact uniform.outside _ ((Node.isOutside_eq profile).trans outside)
  have made : Stage.Run g (.between (.start p) []) (.between
      { Walk.start p with pending := [], targets := [] }
      [{ root := p.var, instantiations := [{ target := p.var, supplies := [] }] }]) := by
    refine .head (.openBlock _ _ p.var [] rfl rfl) (.head (.take _ _ _ _ p.var [] rfl) ?_)
    rw [nothing]
    exact .head (.finish _ _ _ _ _ _ _) (.single (.closeBlock _ _ _ _ rfl))
  obtain ⟨rfl, found⟩ := Stage.between.inj (Stage.Run.unique run made drained rfl)
  refine ⟨by rw [← List.reverse_reverse t.blocks, found]; rfl, ?_⟩
  rw [← arena]
  exact (same.lookup _).trans (outcome.lookup_outside outside)

namespace Graph.Toured

/-- The variable of the root of a leg is an instance of the key of its node.  It is new, unless it
    is a value from outside, and then there is nothing else to the leg. -/
theorem var_root (uniform : g.Uniform) (toured : g.Toured legs a) (mem : l ∈ legs) :
    l.tour.var < l.tour.arena.vars.size ∧
      (a.node g l.tour.var).key = (g.node l.tour.root.node).key ∧
      ((g.node l.tour.root.node).isOutside = false → l.before.vars.size ≤ l.tour.var) ∧
      ((g.node l.tour.root.node).isOutside = true → a.terminal l.tour.var = l.tour.var ∧
        l.tour.blocks =
          [{ root := l.tour.var, instantiations := [{ target := l.tour.var, supplies := [] }] }]) := by
  obtain ⟨rested, known, limit, ends⟩ := toured.exists_tour uniform mem
  obtain ⟨last, run, arena, -⟩ := Graph.tour_run ends
  have var := Graph.tour_var ends
  have grows := toured.extends_of_mem uniform mem
  set p := Placed.of g l.before l.tour.root.node l.tour.root.request none
  have outcome : Placed.Outcome g l.before l.tour.root.node l.tour.root.request p :=
    Placed.of_outcome g l.before _ _ none
  have serves := Placed.Serves.of_outcome rested.1 rested.2 uniform (uniform.root_lt _ known)
    outcome
  have same : p.arena.SameValues (Walk.start p).arena :=
    (sameValues_setBlockRoot _ _).trans (sameValues_setCreated _ _ true)
  have walked : p.arena.Extends l.tour.arena := arena ▸ same.toExtends.trans run.extends
  have lt : l.tour.var < l.tour.arena.vars.size :=
    var ▸ Nat.lt_of_lt_of_le serves.provided.1 walked.size_le
  refine ⟨lt, ?_, fun inside => ?_, fun outside => ?_⟩
  · rw [var, (walked.trans grows).node_eq serves.provided.1, serves.key]
  · rw [var, outcome.var_eq inside]
  · obtain ⟨blocks, found⟩ := Graph.tour_outside uniform rested known outside ends
    have storage := (toured.sound uniform mem).consistent.stored _ _ found
    refine ⟨(toured.rested uniform).1.linked.terminal_of_none
      (Nat.lt_of_lt_of_le lt grows.size_le) ?_, blocks⟩
    rw [grows.link storage.lt, storage.link]

/-- Two roots have one variable only if they are one value from outside. -/
theorem var_root_eq_iff (uniform : g.Uniform) (toured : g.Toured legs a)
    (first : Precedes legs l l') : l.tour.var = l'.tour.var ↔
      (g.node l.tour.root.node).isOutside = true ∧
        (g.node l.tour.root.node).key = (g.node l'.tour.root.node).key := by
  obtain ⟨lt, key, -, alone⟩ := toured.var_root uniform first.left_mem
  obtain ⟨lt', key', new, alone'⟩ := toured.var_root uniform first.right_mem
  obtain ⟨-, known, -⟩ := toured.exists_tour uniform first.left_mem
  obtain ⟨-, known', -⟩ := toured.exists_tour uniform first.right_mem
  have profile (same : (g.node l.tour.root.node).key = (g.node l'.tour.root.node).key) :=
    uniform.profile_eq _ _ (uniform.root_lt _ known) (uniform.root_lt _ known') same
  constructor
  · intro same
    have keys : (g.node l.tour.root.node).key = (g.node l'.tour.root.node).key := by
      rw [← key, ← key', same]
    refine ⟨?_, keys⟩
    rw [Node.isOutside_eq (profile keys), ← Bool.not_eq_false]
    intro inside
    -- what the earlier root was walked with was there before the later one
    exact absurd (Nat.lt_of_lt_of_le lt (toured.extends_of_precedes uniform first).size_le)
      (Nat.not_lt_of_le (same ▸ new inside))
  · rintro ⟨outside, keys⟩
    have lt_a := Nat.lt_of_lt_of_le lt (toured.extends_of_mem uniform first.left_mem).size_le
    have lt_a' := Nat.lt_of_lt_of_le lt' (toured.extends_of_mem uniform first.right_mem).size_le
    have outside' := (Node.isOutside_eq (profile keys)).symm.trans outside
    have outlives : (a.node g l.tour.var).outlivesRoot = true := by
      have node : (a.node g l.tour.var).profile = (g.node l.tour.root.node).profile :=
        uniform.profile_eq _ _ ((toured.rested uniform).1.node_lt _ lt_a) (uniform.root_lt _ known)
          key
      rw [Node.outlivesRoot_eq node, Node.outlivesRoot, outside]
      rfl
    rw [← (alone outside).1, ← (alone' outside').1]
    exact (toured.rested uniform).terminal_eq uniform lt_a lt_a' outlives (by rw [key, key', keys])

end Graph.Toured

/-! ## Plans by name -/

/-- The roots at two places are one value from outside. -/
def Composition.OneValue (x : Composition) (k j : Nat) : Prop :=
  ∃ r r', x.graph.roots[k]? = some r ∧ x.graph.roots[j]? = some r' ∧
    (x.graph.node r.node).isOutside = true ∧ (x.graph.node r.node).key = (x.graph.node r'.node).key

namespace Composes

variable {c : Compiler} {s : Setup} {x : Composition} {st : Resolution} {done : List Provider}
  {taken : Resolver.Taken} {xs : List (Option NodeId)} {tours : List Tour}
  (composes : Composes c s x st done taken xs tours)
include composes

/-- The plan at a place has the name of the root that is declared there. -/
theorem name_plan {i : Nat} {d : RootDeclaration} (declared : s.roots[i]? = some d) :
    ∃ p, x.plans[i]? = some p ∧ p.name = d.name := by
  obtain ⟨t, node, _, at_i, root, -⟩ := composes.exists_tour declared
  obtain ⟨_, -, -, p, plan, name, -⟩ := composes.exists_leg at_i
  exact ⟨p, plan, by rw [name, root]; rfl⟩

theorem names_plans : x.plans.map (·.name) = s.roots.map (·.name) := by
  refine List.ext_getElem? fun i => ?_
  rw [List.getElem?_map, List.getElem?_map]
  cases declared : s.roots[i]? with
  | none =>
    rw [List.getElem?_eq_none_iff, ← composes.length_plans, ← List.getElem?_eq_none_iff] at declared
    rw [declared, Option.map_none, Option.map_none]
  | some d =>
    obtain ⟨p, plan, name⟩ := composes.name_plan declared
    rw [plan, Option.map_some, Option.map_some, name]

/-- The first plan of a name is found. -/
theorem plan?_eq (name : String) :
    x.plan? name = (s.roots.findIdx? (·.name == name)).bind (x.plans[·]?) := by
  have names := congrArg (List.findIdx? (· == name)) composes.names_plans
  rw [List.findIdx?_map, List.findIdx?_map] at names
  rw [Composition.plan?, List.find?_eq_bind_findIdx?_getElem?]
  exact congrArg (Option.bind · (x.plans[·]?)) names

/-- Two roots of one name have one plan only if they are one value from outside. -/
theorem plans_eq_iff {k j : Nat} (lt : k < j) {p q : Plan} (at_k : x.plans[k]? = some q)
    (at_j : x.plans[j]? = some p) (name : q.name = p.name) : q = p ↔ x.OneValue k j := by
  have uniform := composes.resolved.uniform
  have plans := composes.plans
  rw [plans, List.getElem?_map] at at_k at_j
  obtain ⟨t, tour, rfl⟩ := Option.map_eq_some_iff.mp at_k
  obtain ⟨t', tour', rfl⟩ := Option.map_eq_some_iff.mp at_j
  have legs := x.graph.tour_legsFrom (a := {}) tours
  rw [← legs, List.getElem?_map] at tour tour'
  obtain ⟨l, leg, rfl⟩ := Option.map_eq_some_iff.mp tour
  obtain ⟨l', leg', rfl⟩ := Option.map_eq_some_iff.mp tour'
  have first := Precedes.of_getElem? leg leg' lt
  have roots : x.graph.roots = (x.graph.legsFrom {} tours).map (·.tour.root) := by
    rw [← Graph.tours_roots composes.toured]
    exact (congrArg (List.map (·.root)) legs).symm.trans List.map_map
  have same := composes.legs.var_root_eq_iff uniform first
  have value : x.OneValue k j ↔ l.tour.var = l'.tour.var := by
    rw [same, Composition.OneValue]
    simp only [roots, List.getElem?_map, leg, leg', Option.map_some, Option.some.injEq,
      exists_and_left, exists_eq_left']
  rw [value]
  constructor
  · exact fun eq => congrArg Plan.var eq
  · intro eq
    obtain ⟨outside, keys⟩ := same.mp eq
    obtain ⟨-, known, -⟩ := composes.legs.exists_tour uniform first.left_mem
    obtain ⟨-, known', -⟩ := composes.legs.exists_tour uniform first.right_mem
    have outside' := (Node.isOutside_eq (uniform.profile_eq _ _ (uniform.root_lt _ known)
      (uniform.root_lt _ known') keys)).symm.trans outside
    obtain ⟨-, -, -, alone⟩ := composes.legs.var_root uniform first.left_mem
    obtain ⟨-, -, -, alone'⟩ := composes.legs.var_root uniform first.right_mem
    have plan (l : Leg) (blocks : l.tour.blocks =
        [{ root := l.tour.var, instantiations := [{ target := l.tour.var, supplies := [] }] }]) :
        l.tour.plan = ⟨l.tour.root.name, l.tour.var, l.tour.blocks⟩ := by
      have perm : (Block.inOrder l.tour.arena l.tour.blocks).Perm l.tour.blocks :=
        Block.inOrder_perm
      rw [blocks, List.perm_singleton] at perm
      rw [Tour.plan, blocks, perm]
    have names : l.tour.root.name = l'.tour.root.name := name
    rw [plan l (alone outside).2, plan l' (alone' outside').2, (alone outside).2,
      (alone' outside').2, names, eq]

end Composes

namespace Compiler

variable {c : Compiler} {s : Setup} {turns : Nat} {cancellation : Cancellation} {report : Report}
  {x : Composition}

/-- A root that is the only one of its name is the first one. -/
theorem findIdx?_eq {roots : List RootDeclaration} {i : Nat} {d : RootDeclaration}
    (declared : roots[i]? = some d) (only : ∀ j e, roots[j]? = some e → e.name = d.name → j = i) :
    roots.findIdx? (·.name == d.name) = some i := by
  obtain ⟨lt, rfl⟩ := List.getElem?_eq_some_iff.mp declared
  refine List.findIdx?_eq_some_iff_getElem.mpr ⟨lt, by simp, fun j earlier same => ?_⟩
  exact absurd (only j _ (List.getElem?_eq_getElem _) (eq_of_beq same)) (Nat.ne_of_lt earlier)

/-- The plan of a root that a setup declares stands behind those of the inherited roots.  It is found
    by its name exactly if no inherited root has that name, or the first one that has it is the same
    value from outside. -/
theorem plan?_own_root_iff (ended : c.compile turns cancellation s = some report)
    (ok : report.result = .ok x) {i : Nat} {d : RootDeclaration} (declared : s.roots[i]? = some d)
    (only : ∀ j e, s.roots[j]? = some e → e.name = d.name → j = i) :
    ∃ base p, c.inherited s = .ok base ∧ x.plans[base.roots.length + i]? = some p ∧
      p.name = d.name ∧ (x.plan? d.name = some p ↔
        ∀ k, base.roots.findIdx? (·.name == d.name) = some k →
          x.OneValue k (base.roots.length + i)) := by
  obtain ⟨merged, eq, st, done, taken, xs, tours, composes⟩ := exists_composes ended ok
  rw [merge_eq] at eq
  cases inherited : c.inherited s with
  | error faults => rw [inherited] at eq; cases eq
  | ok base =>
    rw [inherited] at eq
    cases eq
    have own : (base.append s).roots[base.roots.length + i]? = some d := by
      rw [← declared]
      exact List.getElem?_append_right (Nat.le_add_right _ _) |>.trans
        (by rw [Nat.add_sub_cancel_left])
    obtain ⟨p, plan, name⟩ := composes.name_plan own
    refine ⟨base, p, rfl, plan, name, ?_⟩
    have roots : (base.append s).roots = base.roots ++ s.roots := rfl
    rw [composes.plan?_eq, roots, List.findIdx?_append, findIdx?_eq declared only]
    cases first : base.roots.findIdx? (·.name == d.name) with
    | none =>
      rw [Option.none_or, Option.map_some, Option.bind_some, Nat.add_comm, plan]
      exact iff_of_true rfl nofun
    | some k =>
      obtain ⟨lt, named, -⟩ := List.findIdx?_eq_some_iff_getElem.mp first
      have declared' : (base.append s).roots[k]? = some base.roots[k] := by
        rw [roots, List.getElem?_append_left lt, List.getElem?_eq_getElem lt]
      obtain ⟨q, plan', same⟩ := composes.name_plan declared'
      rw [Option.some_or, Option.bind_some, plan', Option.some.injEq,
        composes.plans_eq_iff (Nat.lt_of_lt_of_le lt (Nat.le_add_right _ _)) plan' plan
          (by rw [same, eq_of_beq named, name])]
      exact ⟨fun value k eq => by cases eq; exact value, fun all => all k rfl⟩

end Compiler

/-! ## A root that is not found -/

namespace Sample

/-- A global setup that declares the root `R` of the class `A`, and the value `V` from outside as the
    root `W`. -/
def overlaid : Compiler :=
  bare.addGlobal
    { setup [service "A" [] .transient, outside "V"] [] with
      name := "G"
      roots := [{ name := "R", type := .plain "A" }, { name := "W", type := .plain "V" }] }

/-- A setup that declares a root `R` of the class `B`, the root `W` once more, and a root of its
    own. -/
def overlaying : Setup :=
  { setup [service "B" [] .transient] [] with
    name := "S"
    roots := [{ name := "R", type := .plain "B" }, { name := "W", type := .plain "V" },
      { name := "T", type := .plain "B" }] }

/-- The roots of the setup have different names. -/
theorem overlaying_only {i j : Nat} {d e : RootDeclaration}
    (at_i : overlaying.roots[i]? = some d) (at_j : overlaying.roots[j]? = some e)
    (same : e.name = d.name) : j = i := by
  have nodup : (overlaying.roots.map (·.name)).Nodup := by decide
  have lt : j < (overlaying.roots.map (·.name)).length := by
    rw [List.length_map]
    exact (List.getElem?_eq_some_iff.mp at_j).1
  refine (List.getElem?_inj lt nodup).mp ?_
  rw [List.getElem?_map, List.getElem?_map, at_i, at_j, Option.map_some, Option.map_some, same]

/-- The variables of the plans in order, and the ones found by the names of the three roots. -/
def overlay : Option (List VariableId × List (Option VariableId)) :=
  (overlaid.compile 50 .never overlaying).bind fun report => report.result.toOption.map fun x =>
    (x.plans.map (·.var), ["R", "W", "T"].map fun name => (x.plan? name).map (·.var))

theorem overlay_eq : overlay = some ([0, 1, 2, 1, 3], [some 0, some 1, some 3]) := by
  decide +kernel

end Sample

namespace Compiler

theorem exists_overlay : ∃ report x, Sample.overlaid.compile 50 .never Sample.overlaying =
    some report ∧ report.result = .ok x ∧ x.plans.map (·.var) = [0, 1, 2, 1, 3] ∧
      (x.plan? "R").map (·.var) = some 0 := by
  obtain ⟨report, ended, found⟩ := Option.bind_eq_some_iff.mp Sample.overlay_eq
  obtain ⟨x, ok, eq⟩ := Option.map_eq_some_iff.mp found
  simp only [Prod.mk.injEq, List.map_cons, List.map_nil, List.cons.injEq] at eq
  refine ⟨report, x, ended, ?_, eq.1, eq.2.1⟩
  cases result : report.result with
  | error => rw [result] at ok; cases ok
  | ok y => rw [result] at ok; cases ok; rfl

/-- So the root `R` of the setup is not the one that is found by its name. -/
theorem own_root_not_always_found :
    ¬ ∀ (c : Compiler) (turns : Nat) (cancellation : Cancellation) (s : Setup) (report : Report)
      (x : Composition) (base : Setup), c.compile turns cancellation s = some report →
      report.result = .ok x → c.inherited s = .ok base →
      ∀ (i : Nat) (d : RootDeclaration), s.roots[i]? = some d →
        (∀ j e, s.roots[j]? = some e → e.name = d.name → j = i) →
        x.plan? d.name = x.plans[base.roots.length + i]? := by
  intro all
  obtain ⟨report, x, ended, ok, vars, found⟩ := exists_overlay
  have own := all _ _ _ _ _ x _ ended ok rfl 0 { name := "R", type := .plain "B" } rfl
    fun _ _ => Sample.overlaying_only rfl
  have var := congrArg (·[2]?) vars
  rw [List.getElem?_map] at var
  rw [show x.plan? "R" = x.plans[2]? from own] at found
  cases var.symm.trans found

/-- The root `R` of the setup is hidden, `W` is one value from outside, and `T` is inherited from
    nobody. -/
theorem plan?_own_root_overlay : ∃ x : Composition, ∃ p q r : Plan,
    x.plans[2]? = some p ∧ p.name = "R" ∧ x.plan? "R" ≠ some p ∧ ¬ x.OneValue 0 2 ∧
    x.plans[3]? = some q ∧ q.name = "W" ∧ (x.plan? "W" = some q ↔ x.OneValue 1 3) ∧
    x.plans[4]? = some r ∧ r.name = "T" ∧ x.plan? "T" = some r := by
  obtain ⟨report, x, ended, ok, vars, found⟩ := exists_overlay
  obtain ⟨base, p, eq, plan, name, iff⟩ :=
    plan?_own_root_iff ended ok (i := 0) rfl fun _ _ => Sample.overlaying_only rfl
  obtain ⟨base', q, eq', plan', name', iff'⟩ :=
    plan?_own_root_iff ended ok (i := 1) rfl fun _ _ => Sample.overlaying_only rfl
  obtain ⟨base'', r, eq'', plan'', name'', iff''⟩ :=
    plan?_own_root_iff ended ok (i := 2) rfl fun _ _ => Sample.overlaying_only rfl
  cases eq
  cases eq'
  cases eq''
  have hidden : x.plan? "R" ≠ some p := by
    intro same
    have var := congrArg (·[2]?) vars
    rw [List.getElem?_map, show x.plans[2]? = some p from plan] at var
    rw [same] at found
    cases var.symm.trans found
  refine ⟨x, p, q, r, plan, name, hidden, fun value => hidden (iff.mpr ?_), plan', name', ?_,
    plan'', name'', iff''.mpr nofun⟩
  · rintro k ⟨⟩
    exact value
  · exact iff'.trans ⟨fun all => all 1 rfl, fun value k eq => by cases eq; exact value⟩

end Compiler

end ObjectGraph
