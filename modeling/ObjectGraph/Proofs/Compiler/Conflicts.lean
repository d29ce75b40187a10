import ObjectGraph.Proofs.Compiler.Stages
import ObjectGraph.Proofs.Graph.Inspection
import ObjectGraph.Proofs.Graph.Relevance

/-
  What stands behind a conflict of attributes.

  A conflict is reported by the compiler for a member of a class that some contributor declares
  (`inspects_of_reached`).  What is counted there are the pairs of a rule and an attribute that it
  applies to.  So there are two ways to two of them: two attributes, or one attribute whose type is
  named by two rules of the role (`two_le_uses_iff`).  The rules are those of all contributors one
  after the other, and a rule that two of them declare stands there twice.
-/

namespace ObjectGraph

namespace Lookup

variable (l : Lookup) (rules : List AttributeRule)

/-- The rules of the role that apply to an attribute. -/
def rulesFor (a : Attribute) : List AttributeRule :=
  (rules.filter (·.role == l.role)).filter (a.type == ·.type)

/-- The attributes whose type some rule declares for the role. -/
def usages : List Attribute := l.attributes.filter fun a => !(l.rulesFor rules a).isEmpty

/-- There is only one such attribute, but more than one rule applies to it. -/
def Doubled : Prop := ∃ a, l.usages rules = [a] ∧ 2 ≤ (l.rulesFor rules a).length

variable {rules}

/-- More than one use is more than one attribute, or more than one rule for the only one. -/
theorem two_le_uses_iff {reader : AttributeReader} :
    2 ≤ (reader.uses l.role l.attributes).length ↔
      2 ≤ (l.usages reader.rules).length ∨ l.Doubled reader.rules := by
  rw [AttributeReader.uses, length_pairs fun (rule : AttributeRule) (a : Attribute) =>
    a.type == rule.type]
  exact two_le_length_flatMap (l.rulesFor reader.rules) l.attributes

theorem Doubled.not_two_le {l : Lookup} (doubled : l.Doubled rules) :
    ¬ 2 ≤ (l.usages rules).length := by
  obtain ⟨a, only, -⟩ := doubled
  rw [only, List.length_singleton]
  exact Nat.not_succ_le_self 1

/-- The lookup has a conflict, for one reason or the other. -/
theorem two_le_usages_iff {reader : AttributeReader} {member : String} {type : TypeTerm}
    {location : Location}
    (found : reader.fault? l = some (.conflictingAttributes member type location)) :
    l.name = member ∧ reader.owner = type ∧ reader.location = location ∧
      (2 ≤ (l.usages reader.rules).length ↔ ¬ l.Doubled reader.rules) := by
  rcases reader.fault?_eq_some_iff.mp found with ⟨many, eq⟩ | ⟨_, _, _, _, eq⟩
  · obtain ⟨rfl, rfl, rfl⟩ := Fault.conflictingAttributes.inj eq
    refine ⟨rfl, rfl, rfl, fun two doubled => doubled.not_two_le two, fun single => ?_⟩
    exact (l.two_le_uses_iff.mp many).resolve_right single
  · cases eq

end Lookup

/-! ## Where a fault of building comes from -/

/-- The lookups on the members of a class that is to be constructed. -/
def Recipe.lookups : Recipe → List Lookup
  | .construct c => c.inspections.flatten
  | _ => []

theorem Method.lookups_substitute (sub : Substitution) (m : Method) :
    (m.substitute sub).lookups = m.lookups := by
  rw [Method.lookups, Method.lookups, Method.substitute, List.flatMap_map]
  rfl

/-- Attributes are left as they are written. -/
theorem Class.inspections_substitute (sub : Substitution) (c : Class) :
    (c.substitute sub).inspections = c.inspections := by
  simp only [inspections, substitute, List.filter_map, List.map_map, Function.comp_def,
    Method.lookups_substitute]
  rfl

theorem Recipe.lookups_substitute (sub : Substitution) (r : Recipe) :
    (r.substitute sub).lookups = r.lookups := by
  cases r with
  | construct c => exact congrArg List.flatten (c.inspections_substitute sub)
  | factory | outside | builtin => rfl

/-- What a provider is built from comes from the binding that it goes back to. -/
theorem Provider.binding_of_base? {p : Provider} {b : Binding} (base : p.base? = some b) :
    ∃ sub, p.binding.recipe = b.recipe.substitute sub ∧ p.binding.location = b.location := by
  cases p with
  | declared => cases base; exact ⟨∅, (Recipe.substitute_empty _).symm, rfl⟩
  | specialized _ sub => cases base; exact ⟨sub, rfl, rfl⟩
  | fallback => cases base

namespace Resolver

variable {r : Resolver} {t : BindingTable} {roots : List RootDeclaration} {faults : List Fault}

theorem buildFaults_eq (r : Resolver) (t : BindingTable) (first : NodeId) (p : Provider) :
    r.buildFaults t p = Node.buildFaults r.rules (r.canAnswer t) first p.binding := by
  rw [buildFaults, kinds, Node.buildFaults, Node.build]
  cases Node.kinds r.rules (r.canAnswer t) p.binding <;> rfl

/-- A fault of building is one of a provider that the roots need. -/
theorem Reports.exists_reached (reports : r.Reports t roots faults) {fault : Fault}
    (mem : fault ∈ faults) (building : fault.stage = .building) :
    ∃ p, r.Reached t roots p ∧ fault ∈ r.buildFaults t p := by
  obtain ⟨needed, found, cycles, -, reached, rfl, circular, perm⟩ := reports
  rcases List.mem_append.mp mem with mem | mem
  · rcases List.mem_append.mp (perm.mem_iff.mp mem) with mem | mem
    · rw [stage_of_missingRoots fault mem] at building
      cases building
    · obtain ⟨p, needs, mem⟩ := List.mem_flatMap.mp mem
      rcases List.mem_append.mp mem with mem | mem
      · rw [stage_of_missing fault mem] at building
        cases building
      · exact ⟨p, (reached p).mp needs, mem⟩
  · have kind := circular fault mem
    cases fault <;> cases kind
    cases building

end Resolver

namespace Compiler

variable {c : Compiler} {s m : Setup} {cancellation : Cancellation} {turns : Nat}
  {report : Report} {failure : Failure} {fault : Fault}

/-- A fault of building that a compilation reports is one of building something for its roots. -/
theorem exists_reached_of_compile (ended : c.compile turns cancellation s = some report)
    (failed : report.result = .error failure) (mem : fault ∈ failure.faults)
    (building : fault.stage = .building) :
    ∃ m p, c.merge s = .ok m ∧
      (c.resolver m).Reached (BindingTable.register m) m.roots p ∧
      fault ∈ (c.resolver m).buildFaults (BindingTable.register m) p := by
  have started : cancellation ≠ .before := by
    rintro rfl
    rw [compile_before] at ended
    cases ended
    cases failed
    rw [List.mem_singleton.mp mem] at building
    cases building
  obtain ⟨faults, unmerged, same⟩ | ⟨m, later, merged, ended', same⟩ := compile_cases ended started
  · cases failed.symm.trans same
    rw [← (merge_error_iff.mp unmerged).1] at mem
    obtain ⟨d, -, name, -, -, -, rfl⟩ := mem_faults_dependencies mem
    cases building
  · rcases reports_of_compileMerged ended' (same ▸ failed) with reports | cancelled
    · obtain ⟨p, reached⟩ := reports.exists_reached mem building
      exact ⟨m, p, merged, reached⟩
    · rw [cancelled fault mem] at building
      cases building

/-- The rules of all that contribute to a composition. -/
def rules (c : Compiler) (s : Setup) : List AttributeRule := (c.contributors s).flatMap (·.rules)

/-- The lookup is one on a member of the given name, of a class of the given type that a contributor
    declares at the given place. -/
def Inspects (c : Compiler) (s : Setup) (member : String) (type : TypeTerm) (location : Location)
    (l : Lookup) : Prop :=
  l.name = member ∧ ∃ x ∈ c.contributors s, ∃ d ∈ x.declarations, l ∈ d.recipe.lookups ∧
    d.location = location ∧ ∃ sub, (d.recipe.substitute sub).type? = some type

/-- A class that is built for a provider that the roots need comes from a contributor. -/
theorem inspects_of_reached (merged : c.merge s = .ok m) {p : Provider} {made : Class} {l : Lookup}
    (reached : (c.resolver m).Reached (BindingTable.register m) m.roots p)
    (recipe : p.binding.recipe = .construct made) (mem : l ∈ made.inspections.flatten) :
    c.Inspects s l.name made.type p.binding.location l := by
  cases base : p.base? with
  | none =>
    cases p with
    | fallback => cases recipe
    | declared | specialized => cases base
  | some b =>
    have declared := reached.declared (BindingTable.numbered_register m) b base
    obtain ⟨sub, from_b, location⟩ := Provider.binding_of_base? base
    obtain new | ⟨d, mem_d, renders⟩ := BindingTable.mem_declared_addDeclarations _ declared
    · cases new
    · have substituted : d.recipe.substitute sub = .construct made := by
        rw [← renders.recipe, ← from_b, recipe]
      have looked : l ∈ d.recipe.lookups := by
        rw [← Recipe.lookups_substitute sub, substituted]
        exact mem
      rw [(merges_of_merge merged).declarations] at mem_d
      rcases List.mem_cons.mp mem_d with rfl | mem_d
      · cases substituted
      · obtain ⟨x, contributes, mem_d⟩ := List.mem_flatMap.mp mem_d
        refine ⟨rfl, x, contributes, d, mem_d, looked, ?_, sub, ?_⟩
        · rw [location, renders.location]
        · rw [substituted]
          rfl

/-- A conflict is reported for a member of a declared class.  Two of its attributes play the role in
    question, unless only one does and more than one rule of the contributors says so. -/
theorem compile_conflict (ended : c.compile turns cancellation s = some report)
    (failed : report.result = .error failure) {member : String} {type : TypeTerm}
    {location : Location} (mem : .conflictingAttributes member type location ∈ failure.faults) :
    ∃ l, c.Inspects s member type location l ∧
      (2 ≤ (l.usages (c.rules s)).length ↔ ¬ l.Doubled (c.rules s)) := by
  obtain ⟨m, p, merged, reached, mem⟩ := exists_reached_of_compile ended failed mem rfl
  rw [Resolver.buildFaults_eq _ _ 0] at mem
  obtain ⟨made, recipe, eq | eq | ⟨l, looked, found⟩⟩ := Node.exists_of_mem_buildFaults mem
  · cases eq
  · cases eq
  · obtain ⟨rfl, rfl, rfl, twice⟩ := l.two_le_usages_iff found
    rw [show (c.resolver m).rules = c.rules s from (merges_of_merge merged).rules] at twice
    exact ⟨l, inspects_of_reached merged reached recipe looked, twice⟩

end Compiler

namespace Sample

/-- An attribute that gives an ordinal. -/
def ordinal (n : Int) : Attribute := { argless "Ordinal" with args := [.int n] }

/-- A class with one field of the given attributes.  The rule of the standard setup for ordinals is
    declared the given number of times more. -/
def redeclared (more : Nat) (attributes : List Attribute) : Setup :=
  { setup [{ recipe := .construct (attributed [attributes] []) }] ["A"] with
    rules := List.replicate more { role := .ordinal, type := .plain "OrdinalAttribute" } }

/-- The faults that are reported together with the standard setup. -/
def faultsOf (s : Setup) : Option (List Fault) :=
  (Compiler.compile {} 50 .never s).map fun report =>
    match report.result with
    | .ok _ => []
    | .error failure => failure.faults

theorem exists_failure {s : Setup} {faults : List Fault} (found : faultsOf s = some faults)
    {fault : Fault} (mem : fault ∈ faults) : ∃ report failure,
      Compiler.compile {} 50 .never s = some report ∧ report.result = .error failure ∧
        fault ∈ failure.faults := by
  obtain ⟨report, ended, rfl⟩ := Option.map_eq_some_iff.mp found
  cases result : report.result with
  | ok => rw [result] at mem; cases mem
  | error failure => rw [result] at mem; exact ⟨report, failure, ended, result, mem⟩

end Sample

namespace Compiler

open Sample

/-- Two ordinals on one field. -/
theorem compile_conflict_twoOrdinals :
    faultsOf (redeclared 0 [ordinal 1, ordinal 2]) =
        some [.conflictingAttributes "f" (.plain "A") {}] ∧
      ∃ l, Inspects {} (redeclared 0 [ordinal 1, ordinal 2]) "f" (.plain "A") {} l ∧
        (2 ≤ (l.usages (rules {} (redeclared 0 [ordinal 1, ordinal 2]))).length ↔
          ¬ l.Doubled (rules {} (redeclared 0 [ordinal 1, ordinal 2]))) := by
  have run : faultsOf (redeclared 0 [ordinal 1, ordinal 2]) =
      some [.conflictingAttributes "f" (.plain "A") {}] := by decide +kernel
  obtain ⟨report, failure, ended, failed, mem⟩ := exists_failure run List.mem_cons_self
  exact ⟨run, compile_conflict ended failed mem⟩

/-- A setup declares a rule of the standard setup again, and one ordinal is a conflict. -/
theorem not_always_two_usages :
    ¬ ∀ (c : Compiler) (turns : Nat) (cancellation : Cancellation) (s : Setup) (report : Report)
      (failure : Failure) (member : String) (type : TypeTerm) (location : Location),
      c.compile turns cancellation s = some report → report.result = .error failure →
      .conflictingAttributes member type location ∈ failure.faults →
        ∃ l, c.Inspects s member type location l ∧ 2 ≤ (l.usages (c.rules s)).length := by
  intro all
  have run : faultsOf (redeclared 1 [ordinal 1]) =
      some [.conflictingAttributes "f" (.plain "A") {}] := by decide +kernel
  obtain ⟨report, failure, ended, failed, mem⟩ := exists_failure run List.mem_cons_self
  obtain ⟨l, ⟨-, x, contributes, d, declared, looked, -⟩, two⟩ :=
    all {} 50 .never _ report failure _ _ _ ended failed mem
  have single : ∀ x ∈ contributors {} (redeclared 1 [ordinal 1]), ∀ d ∈ x.declarations,
      ∀ l ∈ d.recipe.lookups,
        (l.usages (rules {} (redeclared 1 [ordinal 1]))).length ≤ 1 := by decide +kernel
  exact absurd (single x contributes d declared l looked) (Nat.not_le.mpr two)

end Compiler

end ObjectGraph
