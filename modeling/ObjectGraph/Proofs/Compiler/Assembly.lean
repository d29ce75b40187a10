import ObjectGraph.Proofs.Compiler.RootOrder
import ObjectGraph.Proofs.Graph.Relevance
import ObjectGraph.Proofs.Graph.Typing
import ObjectGraph.Proofs.Plan.Assembly
import ObjectGraph.Proofs.Plan.Supply

/-
  No hole reaches the emitter.

  A class is constructed with all that its requests are answered with, and a parameter keeps its
  default value only if no binding matches.  Four parts of the compiler have to agree on it.
  Resolution leaves a slot empty only if it is optional and no declared binding matches, the last
  resort left aside (`Finished.slot_empty_iff`); a composition comes from a resolution without faults,
  so nothing else is missing; the walk hands out one variable for each edge (`Instantiation.Follows`);
  and the assembly counts slots as the node does (`Assembly.complete_of`).
-/

namespace ObjectGraph

/-- Some declared binding that is not of the last resort matches a request. -/
def BindingTable.Matches (t : BindingTable) (ts : TypeOracle) (q : Request) : Prop :=
  ∃ b ∈ t.declared, b.recipe.isLastResort = false ∧ Match.of? ts q b ≠ none

theorem BindingTable.matches_iff {t : BindingTable} {ts : TypeOracle} {q : Request} :
    t.Matches ts q ↔ (t.bestMatch? ts false q).isSome = true := by
  rw [Option.isSome_iff_ne_none, ne_eq, bestMatch?_eq_none_iff, List.eq_nil_iff_forall_not_mem]
  simp only [mem_candidates, Matches, Option.ne_none_iff_exists', not_forall, not_not]
  constructor
  · rintro ⟨b, declared, regular, m, found⟩
    exact ⟨m, b, declared, regular, found⟩
  · rintro ⟨m, b, declared, regular, found⟩
    exact ⟨b, declared, regular, m, found⟩

/-! ## Slots that stay empty -/

namespace Resolver

variable {r : Resolver} {t : BindingTable} {s : Setup} {st : Resolution} {p : Provider}
  {done : List Provider} {taken : Taken} {xs : List (Option NodeId)} {roots : List Root}
  {i : NodeId}

/-- An optional demand is answered exactly if a binding matches. -/
theorem exists_supplier_iff_matches (numbered : t.Numbered) {d : Demand} (unpinned : d.pinned = none)
    (optional : d.isOptional = true) :
    (∃ p, r.supplier? t d = some p) ↔ t.Matches r.types d.request := by
  rw [supplier?, unpinned, Option.none_or, provider?, optional, if_pos rfl, Option.or_none,
    ← Option.isSome_iff_exists, isSome_matched? numbered, BindingTable.matches_iff]

/-- Without faults, a slot of a class stays empty exactly if it may and no binding matches. -/
theorem Finished.slot_empty_iff (finished : Finished r t s st done taken xs)
    (faultless : st.faults = []) (numbered : t.Numbered) (selected : Selected r st p (some i))
    {n : Node} (found : st.nodes[i]? = some n) {slot : Slot} (mem : slot ∈ n.slots)
    (unpinned : slot.pinned = none) :
    (∀ e ∈ (graph s roots taken st).dependencies i, e.slot ≠ slot.index) ↔
      slot.isOptional = true ∧ ¬ t.Matches r.types slot.request := by
  have empty : (∀ e ∈ (graph s roots taken st).dependencies i, e.slot ≠ slot.index) ↔
      ¬ ∃ e ∈ (graph s roots taken st).dependencies i, e.slot = slot.index := by
    simp only [not_exists, not_and, ne_eq]
  rw [empty]
  cases optional : slot.isOptional with
  | false =>
    exact iff_of_false
      (fun none => none (finished.exists_edge faultless selected found mem optional))
      (fun mayStay => absurd mayStay.1 Bool.false_ne_true)
  | true =>
    obtain ⟨d, -, ⟨request, isOptional, pins⟩, filled⟩ :=
      finished.slot_filled_iff faultless roots selected found mem
    have free : d.pinned = none := by
      simpa [unpinned] using pins.symm
    rw [filled, exists_supplier_iff_matches numbered free (isOptional.symm.trans optional),
      ← request, and_iff_right rfl]

end Resolver

namespace Composes

variable {c : Compiler} {s : Setup} {x : Composition} {st : Resolution} {done : List Provider}
  {taken : Resolver.Taken} {xs : List (Option NodeId)} {tours : List Tour}

/-- The slots of a class that can be reached have no edge exactly where they may stay empty and no
    binding matches. -/
theorem slot_empty_iff (composes : Composes c s x st done taken xs tours) {i : NodeId}
    (reachable : x.graph.Reachable i) {made : Construction}
    (kind : (x.graph.node i).kind = .construct made) {k : Nat} {q : Request} {isOptional : Bool}
    {pinned : Option BindingId}
    (at_k : (Node.Kind.construct made).requests[k]? = some (q, isOptional, pinned)) :
    (∀ e ∈ x.graph.dependencies i, e.slot ≠ k) ↔
      isOptional = true ∧ ¬ (BindingTable.register s).Matches c.types q := by
  have finished := composes.finished
  rw [composes.graph] at reachable kind ⊢
  obtain ⟨p, -, selected⟩ := finished.reachable_iff.mp reachable
  obtain ⟨-, n, found, -⟩ := finished.chosen selected
  rw [Resolver.node_graph found] at kind
  have slot := n.slot_mem (kind ▸ at_k)
  exact finished.slot_empty_iff composes.faultless (BindingTable.numbered_register s) selected found
    slot (n.pinned_of_construct kind _ slot)

end Composes

namespace Compiler

variable {c : Compiler} {s : Setup} {cancellation : Cancellation} {turns : Nat} {report : Report}
  {x : Composition}

/-- Whatever a compilation returns, each instantiation of a class in each plan is handed one variable
    for each edge of its node, in the order of the slots.  Its assembly sets all fields and properties
    that are injected, and calls the constructor and all methods; an argument is missing exactly if its
    parameter has a default value and no declared binding matches, one of the last resort not counted. -/
theorem compile_assembly_complete (ended : c.compile turns cancellation s = some report)
    (ok : report.result = .ok x) {p : Plan} (planned : p ∈ x.plans) {i : Instantiation}
    (instantiated : i ∈ p.instantiations) {made : Construction}
    (kind : (x.arena.node x.graph i.target).kind = .construct made) :
    i.Follows x.graph x.arena ∧
      (x.graph.dependencies (x.arena.var i.target).node).Pairwise (fun e e' => e.slot < e'.slot) ∧
      ∃ merged, c.merge s = .ok merged ∧ (Assembly.of made i.supplied?).Complete
        ((BindingTable.register merged).Matches c.types) i.supplied? made := by
  obtain ⟨merged, eq, st, done, taken, xs, tours, composes⟩ := exists_composes ended ok
  rw [composes.plans] at planned
  obtain ⟨t, t_mem, rfl⟩ := List.mem_map.mp planned
  rw [Plan.instantiations_annotate] at instantiated
  rw [← x.graph.tour_legsFrom (a := {}) tours] at t_mem
  obtain ⟨l, l_mem, rfl⟩ := List.mem_map.mp t_mem
  have uniform := composes.resolved.uniform
  have inside : x.arena.Inside x.graph i.target := by rw [Arena.Inside, Node.isOutside, kind]
  have follows := composes.legs.follows uniform l_mem instantiated
  have reachable := composes.legs.reachable uniform l_mem instantiated inside
  refine ⟨follows, composes.resolved.ascending _, merged, eq, Assembly.complete_of ?_⟩
  intro k q isOptional pinned at_k
  rw [Nat.zero_add, follows.supplied?_eq_none_iff]
  exact composes.slot_empty_iff reachable kind at_k

end Compiler

/-! ## A class with members of all kinds -/

namespace Sample

/-- A class that asks for an `X` if there is one, and for a `Y` in all places where a class can ask
    for it. -/
def membered : Class where
  type := .plain "A"
  constructors := [{
    parameters := [
      { name := "x", type := .plain "X", hasDefault := true },
      { name := "y", type := .plain "Y", hasDefault := true }] }]
  fields := [{ name := "f", type := .plain "Y", isRequired := true }]
  properties := [{ name := "p", type := .plain "Y", isRequired := true }]
  methods := [{
    name := "m"
    parameters := [
      { name := "z", type := .plain "Z", hasDefault := true }, { name := "y", type := .plain "Y" }]
    attributes := [{ type := .plain "Order", args := [.int 0] }] }]

/-- Nothing is bound to its `X`, and nothing but the last resort to its `Z`. -/
def halfBound : Setup :=
  { setup [
      { recipe := .construct membered }, service "Y" [] .transient,
      { contracts := [.plain "Z"], recipe := .builtin .onCannotResolve }] ["A"] with
    rules := [{ role := .ordinal, type := .plain "Order" }] }

/-- What is constructed by an instantiation, with the slots that it is handed something for. -/
def constructed? (x : Composition) (i : Instantiation) : Option (Construction × List Nat) :=
  match (x.arena.node x.graph i.target).kind with
  | .construct c => some (c, i.supplies.map (·.slot))
  | _ => none

/-- The parts of a construction, by the numbers of their slots. -/
def parts (c : Construction) : List Nat :=
  [c.constructor.parameters.length, c.fields.length, c.properties.length, c.methods.length]

theorem constructed_halfBound : (compiled halfBound).map (fun x =>
    x.plans.map fun p => p.instantiations.map fun i =>
      (constructed? x i).map fun c => (parts c.1, c.2)) =
    some [[some ([0, 0, 0, 0], []), some ([2, 1, 1, 1], [1, 2, 3, 5])]] := by
  decide +kernel

end Sample

namespace Compiler

/-- The `X` of the constructor and the `Z` of the method are left out, and all else is there. -/
theorem compile_assembly_complete_membered : ∃ report x,
    Sample.bare.compile 50 .never Sample.halfBound = some report ∧ report.result = .ok x ∧
    ∃ p ∈ x.plans, ∃ i ∈ p.instantiations, ∃ made,
      (x.arena.node x.graph i.target).kind = .construct made ∧
      Sample.parts made = [2, 1, 1, 1] ∧ i.supplies.map (·.slot) = [1, 2, 3, 5] ∧
      i.Follows x.graph x.arena ∧
      ∃ merged, Sample.bare.merge Sample.halfBound = .ok merged ∧
        (Assembly.of made i.supplied?).Complete
          ((BindingTable.register merged).Matches Sample.bare.types) i.supplied? made := by
  obtain ⟨x, compiled, found⟩ := Option.map_eq_some_iff.mp Sample.constructed_halfBound
  obtain ⟨report, ended, ok⟩ := Sample.exists_report compiled
  obtain ⟨p, planned, instantiations⟩ := List.mem_map.mp (found ▸ List.mem_cons_self)
  have last : some ([2, 1, 1, 1], [1, 2, 3, 5]) ∈ p.instantiations.map fun i =>
      (Sample.constructed? x i).map fun c => (Sample.parts c.1, c.2) := by
    rw [instantiations]
    decide
  obtain ⟨i, instantiated, parts⟩ := List.mem_map.mp last
  obtain ⟨⟨made, slots⟩, constructed, same⟩ := Option.map_eq_some_iff.mp parts
  have kind : (x.arena.node x.graph i.target).kind = .construct made ∧
      i.supplies.map (·.slot) = slots := by
    unfold Sample.constructed? at constructed
    split at constructed
    · rename_i c kind
      cases constructed
      exact ⟨kind, rfl⟩
    · cases constructed
  obtain ⟨sizes, filled⟩ := Prod.mk.injEq .. ▸ same
  obtain ⟨follows, -, merged, eq, complete⟩ :=
    compile_assembly_complete ended ok planned instantiated kind.1
  exact ⟨report, x, ended, ok, p, planned, i, instantiated, made, kind.1, sizes,
    kind.2.trans filled, follows, merged, eq, complete⟩

end Compiler

end ObjectGraph
