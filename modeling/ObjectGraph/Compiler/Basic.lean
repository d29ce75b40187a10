import ObjectGraph.Compiler.Merge
import ObjectGraph.Graph.Resolution
import ObjectGraph.Plan.Annotate
import ObjectGraph.Plan.Event
import ObjectGraph.Plan.Walk

/-
  Compilation: from a setup to its composition.

  A setup is merged with what contributes to it, its declarations become bindings, the roots are
  resolved into a graph, the graph is walked into plans, and the plans are annotated.  The first of
  these stages that finds faults ends the compilation with all the faults that it found.

  Resolution need not come to an end, so `compile` takes the number of turns that it may use up.
-/

namespace ObjectGraph

/-- A compiled setup. -/
structure Composition where
  /-- The name of the setup. -/
  name : String
  /-- The graph of dependencies. -/
  graph : Graph
  /-- All variables. -/
  arena : Arena
  /-- The plans of the roots, in the order of their declaration. -/
  plans : List Plan
  /-- Diagnostics that are not fatal. -/
  diagnostics : List Diagnostic
  deriving DecidableEq, Inhabited

namespace Composition

/-- The plan of a root by its name; the first one counts. -/
def plan? (c : Composition) (root : String) : Option Plan := c.plans.find? (·.name == root)

/-- The calls by which an emitter is told about the composition. -/
def calls (c : Composition) : List Call := Call.ofPlans c.graph c.arena c.plans

/-- The calls in brief. -/
def events (c : Composition) : List Event := c.calls.map Call.event

end Composition

/-- When a compilation is cancelled.  The compiler looks at two points: before it starts, and before
    it walks the graph. -/
inductive Cancellation where
  /-- Never. -/
  | never
  /-- Before it starts. -/
  | before
  /-- After merging, while the bindings are registered. -/
  | during
  deriving DecidableEq, Inhabited

namespace Compiler

/-- A compilation that came to its end. -/
structure Report where
  /-- The composition, or the failure. -/
  result : Except Failure Composition
  /-- What there was to tell. -/
  journal : Journal

/-- The composition of a resolved graph, unless the walk is cancelled. -/
def plan (c : Compiler) (cancellation : Cancellation) (diagnostics : List Diagnostic) (g : Graph) :
    Option Report := do
  let visit ← g.visit (cancellation == .during) {}
  match visit.result with
  | .error fault => return ⟨.error ⟨g.name, [fault]⟩, visit.journal⟩
  | .ok plans =>
    let plans := plans.map (·.annotate c.types (Hints.isThreadSafe g.hints) g visit.arena)
    let told := Journal.debug
      s!"Compiled {g.name} with {plans.length} root(s) and {visit.arena.vars.size} variable(s)."
    return {
      result := .ok { name := g.name, graph := g, arena := visit.arena, plans, diagnostics }
      journal := visit.journal ++ Plan.stepsJournal plans ++ told }

/-- Resolves and plans a merged setup. -/
def compileMerged (c : Compiler) (turns : Nat) (cancellation : Cancellation) (s : Setup) :
    Option Report := do
  let table := BindingTable.register s
  let told :=
    BindingTable.registrationJournal s c.types ++ HandlerChain.registerAllJournal [] s.handlers
  let resolver : Resolver :=
    { types := c.types, rules := s.rules, handlers := HandlerChain.ofList s.handlers }
  let outcome ← resolver.resolve turns table s
  match outcome.result with
  | .error faults => return ⟨.error ⟨s.name, faults⟩, told ++ outcome.journal⟩
  | .ok g =>
    let report ← c.plan cancellation (table.diagnostics c.types) g
    return { report with journal := told ++ outcome.journal ++ report.journal }

/-- Compiles a setup. -/
def compile (c : Compiler) (turns : Nat) (cancellation : Cancellation) (s : Setup) :
    Option Report := do
  let told := Journal.debug s!"Compiling {s.name}."
  if cancellation == .before then return ⟨.error ⟨s.name, [.cancelled s.name]⟩, told⟩
  match c.merge s with
  | .error faults => return ⟨.error ⟨s.name, faults⟩, told⟩
  | .ok merged =>
    let report ← c.compileMerged turns cancellation merged
    return { report with journal := told ++ report.journal }

end Compiler

end ObjectGraph
