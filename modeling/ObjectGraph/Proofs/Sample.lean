import ObjectGraph.Proofs.Graph.Resolution
import ObjectGraph.Setup.Standard

/-
  A short way to write small setups.

  Plain classes whose one constructor asks for the types it is told, factories that hand out later
  what they request, and values from outside.  The instances below the theorems about plans are
  written in it.
-/

namespace ObjectGraph

/-- The graph of a setup under the standard types, if resolution accepts it. -/
def Setup.graph? (turns : Nat) (s : Setup) : Option Graph :=
  (Resolver.resolve { types := .standard } turns (BindingTable.register s) s).bind
    fun o => o.result.toOption

theorem Setup.exists_outcome_of_graph? {s : Setup} {turns : Nat} {g : Graph}
    (found : s.graph? turns = some g) :
    ∃ o, Resolver.resolve { types := .standard } turns (BindingTable.register s) s = some o ∧
      o.result = .ok g := by
  obtain ⟨o, ended, ok⟩ := Option.bind_eq_some_iff.mp found
  refine ⟨o, ended, ?_⟩
  cases result : o.result with
  | error faults => rw [result] at ok; cases ok
  | ok graph => rw [result] at ok; cases ok; rfl

namespace Sample

/-- The graph of a setup that resolution accepts, with turns to spare. -/
def graph (s : Setup) : Graph := (s.graph? 50).getD default

theorem exists_outcome (s : Setup) (accepted : (s.graph? 50).isSome = true) :
    ∃ o, Resolver.resolve { types := .standard } 50 (BindingTable.register s) s = some o ∧
      o.result = .ok (graph s) := by
  obtain ⟨g, found⟩ := Option.isSome_iff_exists.mp accepted
  rw [graph, found]
  exact Setup.exists_outcome_of_graph? found

theorem isResolvedBy (s : Setup) (accepted : (s.graph? 50).isSome = true) :
    (graph s).IsResolvedBy { types := .standard } := by
  obtain ⟨o, ended, ok⟩ := exists_outcome s accepted
  exact ⟨_, s, o, ended, ok⟩

theorem isResolved (s : Setup) (accepted : (s.graph? 50).isSome = true) :
    (graph s).IsResolved := ⟨_, isResolvedBy s accepted⟩

/-- A class whose constructor asks for the given types. -/
def constructed (name : String) (needs : List String) : Recipe :=
  .construct {
    type := .plain name
    constructors := [{
      name := ".ctor", parameters := needs.map fun n => { name := n, type := .plain n } }] }

/-- A class bound to some contracts. -/
def bound (contracts : List String) (name : String) (needs : List String)
    (lifetime : Lifetime) : Declaration :=
  { contracts := contracts.map .plain, recipe := constructed name needs, lifetime := some lifetime }

/-- A class bound to its own type. -/
def service (name : String) (needs : List String) (lifetime : Lifetime) : Declaration :=
  bound [name] name needs lifetime

/-- A factory that asks for the given types later. -/
def later (name : String) (needs : List String) : Declaration :=
  { recipe := .factory {
      name, type := .plain name, requests := needs.map fun n => ⟨.plain n, .untagged⟩
      isDeferred := true } }

/-- A value from outside. -/
def outside (name : String) : Declaration :=
  { contracts := [.plain name], recipe := .outside ⟨name, .plain name⟩ }

/-- A generic type applied to its argument. -/
def applied (name : String) (argument : TypeTerm) : TypeTerm := ⟨name, [argument]⟩

/-- Declarations with roots of the given types. -/
def setup (declarations : List Declaration) (roots : List String) : Setup :=
  { declarations, roots := roots.map fun n => { name := n, type := .plain n } }

end Sample

end ObjectGraph
