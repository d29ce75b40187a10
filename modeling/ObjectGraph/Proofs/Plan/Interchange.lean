import ObjectGraph.Proofs.Graph.Identity
import ObjectGraph.Proofs.Plan.Visits
import ObjectGraph.Proofs.Sample

/-
  Which variables may stand for each other.

  A link keeps the storage key, so a variable and the storage that it ends in belong to nodes of one
  key, and such nodes share their recipe.  What a class, a factory or the outside supplies is then
  of one type.  A provision of the compiler is of the type that is bound, and a declaration that
  binds two of them has one storage for both: that is how a variable comes to hold a value of
  another type, and there is no other way.
-/

namespace ObjectGraph

open Arena

variable {g : Graph} {a : Arena} {legs : List Leg}

/-- Nodes of one storage key have instances of one type, and a variable is of the type of the storage
    that it ends in, exactly if the bound types agree or the compiler provides nothing. -/
theorem instanceType_terminal_iff (resolved : g.IsResolved) (visits : g.Visits legs a) :
    (∀ i j, i < g.nodes.size → j < g.nodes.size → (g.node i).key = (g.node j).key →
      ((g.node i).instanceType = (g.node j).instanceType ↔
        (g.node i).builtin? = none ∨ (g.node i).contract = (g.node j).contract)) ∧
    ∀ v : Nat, v < a.vars.size →
      ((a.node g v).instanceType = (a.node g (a.terminal v)).instanceType ↔
        (a.node g v).builtin? = none ∨
          (a.node g v).contract = (a.node g (a.terminal v)).contract) := by
  have nodes : ∀ i j, i < g.nodes.size → j < g.nodes.size → (g.node i).key = (g.node j).key → _ :=
    fun i j i_lt j_lt key => (resolved.instanceType_eq_iff i_lt j_lt key).2
  refine ⟨nodes, fun v lt => ?_⟩
  obtain ⟨c, -⟩ := visits.toured.rested resolved.uniform
  apply nodes
  · exact c.node_lt v lt
  · exact c.node_lt _ (c.terminal_lt lt)
  · exact (c.key_terminal v lt).symm

/-- One declaration for the arrays of two types. -/
def Sample.arrays : Graph := Sample.graph {
  declarations := [
    { contracts := [Sample.applied "Array" (.plain "A"), Sample.applied "Array" (.plain "B")],
      recipe := .builtin .array, lifetime := some .singleton },
    { recipe := .construct {
        type := .plain "R"
        constructors := [{ parameters := [
          { name := "as", type := Sample.applied "Array" (.plain "A") },
          { name := "bs", type := Sample.applied "Array" (.plain "B") }] }] } }]
  roots := [{ name := "R", type := .plain "R" }] }

/-- The array of the one type is handed out for the array of the other. -/
theorem Sample.visits_arrays : Sample.arrays.IsResolved ∧ ∃ legs a,
    Sample.arrays.Visits legs a ∧ 2 < a.vars.size ∧ (a.var 2).link = some 1 ∧
      (a.node Sample.arrays 2).instanceType = Sample.applied "Array" (.plain "B") ∧
      (a.node Sample.arrays (a.terminal 2)).instanceType =
        Sample.applied "Array" (.plain "A") := by
  have found : (Sample.arrays.visit false {}).map (fun v =>
      (decide (2 < v.arena.vars.size), (v.arena.var 2).link,
        (v.arena.node Sample.arrays 2).instanceType,
        (v.arena.node Sample.arrays (v.arena.terminal 2)).instanceType)) =
      some (true, some 1, Sample.applied "Array" (.plain "B"),
        Sample.applied "Array" (.plain "A")) := by
    decide +kernel
  obtain ⟨v, ends, eq⟩ := Option.map_eq_some_iff.mp found
  simp only [Prod.mk.injEq, decide_eq_true_eq] at eq
  exact ⟨Sample.isResolved _ (by decide +kernel), _, _, .visit .start ends, eq⟩

/-- So a variable may reuse the storage of a value of another type. -/
theorem not_always_interchangeable :
    ¬ ∀ g legs a, Graph.IsResolved g → g.Visits legs a →
      ∀ v u : Nat, v < a.vars.size → (a.var v).link = some u →
        (a.node g v).instanceType = (a.node g (a.terminal v)).instanceType := by
  intro same
  obtain ⟨resolved, legs, a, visits, lt, leads, type, type'⟩ := Sample.visits_arrays
  have eq := same _ legs a resolved visits 2 1 lt leads
  rw [type, type'] at eq
  exact absurd eq (by decide)

/-- The two arrays are provisions of the compiler, bound to two types. -/
theorem instanceType_terminal_arrays : Sample.arrays.IsResolved ∧ ∃ legs a,
    Sample.arrays.Visits legs a ∧ 2 < a.vars.size ∧ (a.var 2).link = some 1 ∧
      (a.node Sample.arrays 2).builtin? ≠ none ∧
      (a.node Sample.arrays 2).contract ≠ (a.node Sample.arrays (a.terminal 2)).contract := by
  obtain ⟨resolved, legs, a, visits, lt, leads, type, type'⟩ := Sample.visits_arrays
  refine ⟨resolved, legs, a, visits, lt, leads, not_or.mp ?_⟩
  intro alike
  have eq := ((instanceType_terminal_iff resolved visits).2 2 lt).mpr alike
  rw [type, type'] at eq
  exact absurd eq (by decide)

end ObjectGraph
