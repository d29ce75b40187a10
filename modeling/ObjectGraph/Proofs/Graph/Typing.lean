import ObjectGraph.Proofs.Graph.Validity

/-
  Graphs that resolution accepts are well typed.

  Whatever way a node was found (an exact type, a generic one, a pinned item, a fallback handler or
  the last resort), it offers what the edge or the root requests: `Graph.Offers`.  Apart from that,
  `Graph.WellFormed` states the bookkeeping of a graph: nodes stand at the places of their ids, the
  edges of a node follow its slots in order and leave out optional ones at most, and the table of the
  edges by source is the transpose of the one by target, in order.

  Everything is read off a finished resolution without faults: the edges of a node correspond to the
  demands of its provider (`Finished.edge`), and the typing of an answer is `supplier?_serves`.
-/

namespace ObjectGraph

namespace Graph

/-- The node stands for a binding of the requested type, and the tags of the binding fit. -/
def Offers (g : Graph) (id : NodeId) (q : Request) : Prop :=
  id < g.nodes.size ∧ (g.node id).contract = q.type ∧
    ∃ b, g.bindings[(g.node id).binding]? = some b ∧ b.rank? q.tag ≠ none

/-- A graph whose parts fit together. -/
structure WellFormed (g : Graph) : Prop where
  id_eq : ∀ i < g.nodes.size, (g.node i).id = i
  root_typed : ∀ root ∈ g.roots, g.Offers root.node root.request
  edge_typed : ∀ i, ∀ e ∈ g.dependencies i, g.Offers e.source e.request
  edge_slot : ∀ i, ∀ e ∈ g.dependencies i, e.target = i ∧
    ∃ slot ∈ (g.node i).slots, slot.index = e.slot ∧ slot.request = e.request
  ascending : ∀ i, (g.dependencies i).Pairwise fun e e' => e.slot < e'.slot
  filled : ∀ i, g.Reachable i → ∀ slot ∈ (g.node i).slots, slot.isOptional = false →
    ∃! e, e ∈ g.dependencies i ∧ e.slot = slot.index
  by_source : ∀ i, ∀ e ∈ g.dependents i, e.source = i
  by_target : ∀ i, (g.dependents i).Pairwise fun e e' =>
    e.target < e'.target ∨ e.target = e'.target ∧ e.slot < e'.slot
  transposed : ((List.range g.nodes.size).flatMap g.dependents).Perm
    ((List.range g.nodes.size).flatMap g.dependencies)

end Graph

/-- The slots of a node are numbered in order. -/
theorem Node.slots_ascending (n : Node) :
    n.slots.Pairwise fun slot slot' => slot.index < slot'.index := by
  rw [List.pairwise_iff_getElem]
  intro i j lt lt' before
  simpa [Node.slots] using before

namespace Resolver

variable {r : Resolver} {t : BindingTable} {s : Setup} {st : Resolution} {p : Provider}
  {done : List Provider} {taken : Taken} {xs : List (Option NodeId)} {roots : List Root}
  {i : NodeId}

theorem edgesTo_ascending (n : Node) : ∀ (slots : List Slot) (xs : List (Option NodeId)),
    slots.Pairwise (fun slot slot' => slot.index < slot'.index) →
    (edgesTo n slots xs).Pairwise fun e e' => e.slot < e'.slot
  | [], _, _ => by simp [edgesTo]
  | _ :: _, [], _ => by simp [edgesTo]
  | slot :: slots, x :: xs, ascending => by
    rw [List.pairwise_cons] at ascending
    have rest := edgesTo_ascending n slots xs ascending.2
    cases x with
    | none => exact rest
    | some source =>
      refine List.pairwise_cons.mpr ⟨fun e mem => ?_, rest⟩
      obtain ⟨k, slot', source', at_k, -, rfl⟩ := mem_edgesTo.mp mem
      exact ascending.1 slot' (List.mem_of_getElem? at_k)

namespace Finished

/-- The node of a provider offers what its provider serves. -/
theorem offers (finished : Finished r t s st done taken xs)
    (selected : Selected r st p (some i)) {q : Request} (serves : p.Serves q) :
    (graph s roots taken st).Offers i q := by
  obtain ⟨-, n, found, stands⟩ := finished.chosen selected
  obtain ⟨asked, books, -⟩ := finished.drains.books
  obtain ⟨b, at_id, -, alike⟩ := books.naming.named p _ stands.binding
  refine ⟨(Array.getElem?_eq_some_iff.mp found).1, ?_, b, ?_, ?_⟩
  · rw [node_graph found, stands.contract, serves.1]
  · rw [node_graph found]
    exact at_id
  · rw [Binding.rank?, alike.tags]
    exact Option.isSome_iff_ne_none.mp serves.2

/-- An edge fills a slot of its target, as the demand behind the slot says. -/
theorem edge (finished : Finished r t s st done taken xs) {e : Edge}
    (mem : e ∈ (graph s roots taken st).dependencies i) :
    ∃ p n slot d p', Selected r st p (some i) ∧ st.nodes[i]? = some n ∧ slot ∈ n.slots ∧
      d ∈ r.demands t p ∧ slot.request = d.request ∧ r.supplier? t d = some p' ∧
      Selected r st p' (some e.source) ∧ e = edgeTo n slot e.source := by
  obtain ⟨p, selected⟩ := finished.exists_selected_of_dependencies mem
  obtain ⟨n, ys, found, stands, all, edges⟩ := finished.dependencies_eq roots selected
  rw [edges] at mem
  obtain ⟨k, slot, source, at_k, filled, rfl⟩ := mem_edgesTo.mp mem
  obtain ⟨lt, rfl⟩ := List.getElem?_eq_some_iff.mp at_k
  obtain ⟨lt_ys, at_ys⟩ := List.getElem?_eq_some_iff.mp filled
  have met := stands.met
  rw [← n.map_slots, List.forall₂_map_right_iff] at met
  have lt_ds : k < (r.demands t p).length := met.length_eq ▸ lt
  have supplies := all.get lt_ds lt_ys
  simp only [List.get_eq_getElem, at_ys] at supplies
  obtain ⟨p', supplier, selected'⟩ := supplies.exists_supplier
  exact ⟨p, n, n.slots[k], (r.demands t p)[k], p', selected, found, List.getElem_mem lt,
    List.getElem_mem lt_ds, (met.get lt_ds lt).1, supplier, selected', rfl⟩

/-- Without faults, a slot of a node that was taken is filled if there is a supplier for the demand
    behind it. -/
theorem slot_filled_iff (finished : Finished r t s st done taken xs) (faultless : st.faults = [])
    (roots : List Root) (selected : Selected r st p (some i)) {n : Node}
    (found : st.nodes[i]? = some n) {slot : Slot} (mem : slot ∈ n.slots) :
    ∃ d ∈ r.demands t p, d.IsMet r st.table (slot.request, slot.isOptional, slot.pinned) ∧
      ((∃ e ∈ (graph s roots taken st).dependencies i, e.slot = slot.index) ↔
        ∃ p', r.supplier? t d = some p') := by
  obtain ⟨n', ys, found', stands, all, edges⟩ := finished.dependencies_eq roots selected
  cases found.symm.trans found'
  obtain ⟨k, lt, rfl⟩ := List.mem_iff_getElem.mp mem
  have met := stands.met
  rw [← n.map_slots, List.forall₂_map_right_iff] at met
  have lt_ds : k < (r.demands t p).length := met.length_eq ▸ lt
  have lt_ys : k < ys.length := all.length_eq ▸ lt_ds
  have supplies := all.get lt_ds lt_ys
  simp only [List.get_eq_getElem] at supplies
  have demanded : (r.demands t p)[k] ∈ r.demands t p := List.getElem_mem lt_ds
  refine ⟨(r.demands t p)[k], demanded, met.get lt_ds lt, ?_⟩
  rw [edges]
  constructor
  · rintro ⟨e, edge, same⟩
    obtain ⟨k', slot, source, at_k', filled, rfl⟩ := mem_edgesTo.mp edge
    obtain ⟨lt', rfl⟩ := List.getElem?_eq_some_iff.mp at_k'
    obtain ⟨lt_ys', at_ys⟩ := List.getElem?_eq_some_iff.mp filled
    obtain rfl : k' = k := by simpa [edgeTo, Node.slots] using same
    rw [at_ys] at supplies
    obtain ⟨p', supplier, -⟩ := supplies.exists_supplier
    exact ⟨p', supplier⟩
  · rintro ⟨p', supplier⟩
    obtain ⟨source, node⟩ :=
      finished.exists_node faultless (.demand (finished.chosen selected).1 demanded supplier)
    have filled := (supplies.selected supplier).unique node
    refine ⟨edgeTo n n.slots[k] source, ?_, rfl⟩
    exact mem_edgesTo.mpr ⟨k, n.slots[k], source, List.getElem?_eq_getElem lt,
      (List.getElem?_eq_getElem lt_ys).trans (congrArg some filled), rfl⟩

/-- Without faults, every required slot of a node that was taken is filled. -/
theorem exists_edge (finished : Finished r t s st done taken xs) (faultless : st.faults = [])
    (selected : Selected r st p (some i)) {n : Node} (found : st.nodes[i]? = some n) {slot : Slot}
    (mem : slot ∈ n.slots) (required : slot.isOptional = false) :
    ∃ e ∈ (graph s roots taken st).dependencies i, e.slot = slot.index := by
  obtain ⟨d, demanded, ⟨-, optional, -⟩, filled⟩ :=
    finished.slot_filled_iff faultless roots selected found mem
  obtain ⟨-, supplied⟩ := finished.faultless_of_reached faultless (finished.chosen selected).1
  exact filled.mpr (supplied d demanded (optional ▸ required))

end Finished

end Resolver

namespace Graph

/-- A graph that a resolver accepted comes from a finished resolution without faults. -/
theorem IsResolvedBy.finished {g : Graph} {r : Resolver} (resolved : g.IsResolvedBy r) :
    ∃ s st done taken xs,
      Resolver.Finished r (BindingTable.register s) s st done taken xs ∧
        g = Resolver.graph s (Resolver.rootsTo 0 s.roots xs) taken st ∧
        st.faults = [] ∧ g.cycleFaults = [] := by
  obtain ⟨turns, s, o, ended, ok⟩ := resolved
  obtain ⟨st, done, taken, xs, finished⟩ := Resolver.resolve_accepted ended ok
  exact ⟨s, st, done, taken, xs, finished⟩

theorem IsResolved.finished {g : Graph} (resolved : g.IsResolved) :
    ∃ r s st done taken xs,
      Resolver.Finished r (BindingTable.register s) s st done taken xs ∧
        g = Resolver.graph s (Resolver.rootsTo 0 s.roots xs) taken st ∧
        st.faults = [] ∧ g.cycleFaults = [] := by
  obtain ⟨r, resolved⟩ := resolved
  exact ⟨r, resolved.finished⟩

/-- The edges of a node follow its slots. -/
theorem IsResolved.ascending {g : Graph} (resolved : g.IsResolved) (i : NodeId) :
    (g.dependencies i).Pairwise fun e e' => e.slot < e'.slot := by
  obtain ⟨r, s, st, done, taken, xs, finished, rfl, -⟩ := resolved.finished
  cases edges : (Resolver.graph s (Resolver.rootsTo 0 s.roots xs) taken st).dependencies i with
  | nil => exact .nil
  | cons e rest =>
    have mem : e ∈ (Resolver.graph s (Resolver.rootsTo 0 s.roots xs) taken st).dependencies i := by
      rw [edges]
      exact List.mem_cons_self
    obtain ⟨p, selected⟩ := finished.exists_selected_of_dependencies mem
    obtain ⟨n, ys, -, -, -, edges_eq⟩ :=
      finished.dependencies_eq (Resolver.rootsTo 0 s.roots xs) selected
    rw [← edges, edges_eq]
    exact Resolver.edgesTo_ascending n n.slots ys n.slots_ascending

/-- The edges of a node stand at the node. -/
theorem IsResolved.target_eq {g : Graph} (resolved : g.IsResolved) {i : NodeId} {e : Edge}
    (mem : e ∈ g.dependencies i) : e.target = i := by
  obtain ⟨r, s, st, done, taken, xs, finished, rfl, -⟩ := resolved.finished
  obtain ⟨p, n, slot, d, p', -, found, -, -, -, -, -, made⟩ := finished.edge mem
  obtain ⟨asked, books, -⟩ := finished.drains.books
  rw [made]
  exact books.numbered i n found

/-- All edges come in order, by the nodes that they leave and by slot. -/
theorem IsResolved.allEdges_ordered {g : Graph} (resolved : g.IsResolved) :
    g.allEdges.Pairwise fun e e' => e.cmp e' = .lt := by
  rw [allEdges_eq, List.pairwise_flatMap]
  refine ⟨fun i _ => (resolved.ascending i).imp_of_mem fun mem mem' less => ?_,
    List.pairwise_lt_range.imp fun less e mem e' mem' => ?_⟩
  · exact Edge.cmp_eq_lt_iff.mpr
      (.inr ⟨(resolved.target_eq mem).trans (resolved.target_eq mem').symm, less⟩)
  · refine Edge.cmp_eq_lt_iff.mpr (.inl ?_)
    rwa [resolved.target_eq mem, resolved.target_eq mem']

/-- The table of the edges that lead to a node is the one of all edges, read by their sources. -/
theorem IsResolved.dependents_eq {g : Graph} (resolved : g.IsResolved) (i : NodeId) :
    g.dependents i = g.allEdges.filter (·.source == i) := by
  have ordered := resolved.allEdges_ordered
  have inside : ∀ e ∈ g.allEdges, e.source < g.nodes.size := by
    intro e mem
    obtain ⟨k, edge⟩ := mem_allEdges_iff.mp mem
    exact resolved.uniform.source_lt k e edge
  obtain ⟨r, s, st, done, taken, xs, -, rfl, -⟩ := resolved.finished
  rw [dependents, Resolver.incoming_graph]
  exact Edge.getD_incoming inside ordered i

/-- The edges of a graph, by target and by source. -/
theorem IsResolved.transposed {g : Graph} (resolved : g.IsResolved) :
    ((List.range g.nodes.size).flatMap g.dependents).Perm
      ((List.range g.nodes.size).flatMap g.dependencies) := by
  have size : g.edges.size = g.nodes.size := by
    obtain ⟨r, s, st, done, taken, xs, -, rfl, -⟩ := resolved.finished
    simp [Resolver.graph]
  have all := g.allEdges_eq
  rw [size] at all
  rw [← all, funext resolved.dependents_eq]
  refine perm_flatMap_filter g.allEdges fun e mem => ?_
  obtain ⟨k, edge⟩ := mem_allEdges_iff.mp mem
  exact resolved.uniform.source_lt k e edge

namespace IsResolvedBy

variable {g : Graph} {r : Resolver} (resolved : g.IsResolvedBy r)
include resolved

theorem isResolved : g.IsResolved := ⟨r, resolved⟩

/-- The nodes of the roots offer what the roots request. -/
theorem root_typed (sound : r.types.IsSound) {root : Root} (known : root ∈ g.roots) :
    g.Offers root.node root.request := by
  obtain ⟨s, st, done, taken, xs, finished, rfl, -⟩ := resolved.finished
  obtain ⟨k, d, node, at_k, filled, rfl⟩ := Resolver.mem_rootsTo.mp known
  obtain ⟨lt, rfl⟩ := List.getElem?_eq_some_iff.mp at_k
  obtain ⟨lt_xs, at_xs⟩ := List.getElem?_eq_some_iff.mp filled
  have supplies := finished.rooted.get lt lt_xs
  simp only [List.get_eq_getElem, at_xs] at supplies
  obtain ⟨p, provider, selected⟩ := supplies.exists_supplier
  exact finished.offers selected
    (Resolver.provider?_serves sound (BindingTable.numbered_register s) provider)

/-- The sources of the edges offer what the edges request. -/
theorem edge_typed (sound : r.types.IsSound) {i : NodeId} {e : Edge}
    (mem : e ∈ g.dependencies i) : g.Offers e.source e.request := by
  obtain ⟨s, st, done, taken, xs, finished, rfl, -⟩ := resolved.finished
  obtain ⟨p, n, slot, d, p', -, -, -, demanded, same, supplier, selected, made⟩ := finished.edge mem
  rw [made]
  show Graph.Offers _ e.source slot.request
  rw [same]
  exact finished.offers selected
    (Resolver.supplier?_serves sound (BindingTable.numbered_register s) demanded supplier)

/-- The graphs that a resolver accepts are well formed and, if its oracle is sound as every type
    system is, well typed. -/
theorem wellFormed (sound : r.types.IsSound) : g.WellFormed where
  id_eq i lt := by
    obtain ⟨s, st, done, taken, xs, finished, rfl, -⟩ := resolved.finished
    obtain ⟨asked, books, -⟩ := finished.drains.books
    have found : st.nodes[i]? = some st.nodes[i] := Array.getElem?_eq_getElem lt
    rw [Resolver.node_graph found]
    exact books.numbered i _ found
  root_typed _ known := resolved.root_typed sound known
  edge_typed _ _ mem := resolved.edge_typed sound mem
  edge_slot i e mem := by
    refine ⟨resolved.isResolved.target_eq mem, ?_⟩
    obtain ⟨s, st, done, taken, xs, finished, rfl, -⟩ := resolved.finished
    obtain ⟨p, n, slot, d, p', -, found, known, -, -, -, -, made⟩ := finished.edge mem
    rw [Resolver.node_graph found, made]
    exact ⟨slot, known, rfl, rfl⟩
  ascending := resolved.isResolved.ascending
  filled i reachable slot mem required := by
    have distinct : ((g.dependencies i).map (·.slot)).Nodup :=
      List.pairwise_map.mpr ((resolved.isResolved.ascending i).imp fun lt => Nat.ne_of_lt lt)
    obtain ⟨s, st, done, taken, xs, finished, rfl, faultless, -⟩ := resolved.finished
    obtain ⟨p, -, selected⟩ := finished.reachable_iff.mp reachable
    obtain ⟨-, n, found, -⟩ := finished.chosen selected
    rw [Resolver.node_graph found] at mem
    obtain ⟨e, edge, fills⟩ := finished.exists_edge faultless selected found mem required
    refine ⟨e, ⟨edge, fills⟩, fun e' ⟨edge', fills'⟩ => ?_⟩
    exact List.inj_on_of_nodup_map distinct edge' edge (fills'.trans fills.symm)
  by_source i e mem := by
    rw [resolved.isResolved.dependents_eq] at mem
    simpa using (List.mem_filter.mp mem).2
  by_target i := by
    rw [resolved.isResolved.dependents_eq]
    exact (resolved.isResolved.allEdges_ordered.filter _).imp Edge.cmp_eq_lt_iff.mp
  transposed := resolved.isResolved.transposed

end IsResolvedBy

end Graph

namespace Sample

/-- The boxes of numbers that a shelf collects: one declared for them, under a tag, and the
    specialization of a generic one.  A box for the shelf leads back to it. -/
def shelf : Setup :=
  { declarations := Setup.standard.declarations ++
      [{ recipe := .factory
          { name := "Shelf", type := .plain "Shelf", isDeferred := true
            requests :=
              [⟨applied "IEnumerable" (applied "Box" (.plain "Int")), .untagged⟩,
               ⟨applied "Box" (.plain "Shelf"), .untagged⟩] } },
       { contracts := [applied "Box" (.plain "Int")], tags := [.named "small"]
         recipe := .factory { name := "SmallBox", type := applied "Box" (.plain "Int") } },
       { contracts := [applied "Box" (.plain "TT")]
         recipe := .factory
          { name := "Box", type := applied "Box" (.plain "TT")
            requests := [⟨.plain "TT", .untagged⟩] } },
       outside "Int"]
    roots := [{ name := "Shelf", type := .plain "Shelf" }] }

theorem shelf_wellFormed : (graph shelf).IsResolvedBy { types := .standard } ∧
    TypeOracle.standard.IsSound ∧ (graph shelf).WellFormed ∧
    (graph shelf).edges.toList.map (·.map fun e => (e.slot, e.source)) =
      [[(0, 1), (1, 2)], [(0, 3), (1, 4)], [(0, 0)], [], [(0, 5)], []] ∧
    (graph shelf).incoming.toList.map (·.map fun e => (e.target, e.slot)) =
      [[(2, 0)], [(0, 0)], [(0, 1)], [(1, 0)], [(1, 1)], [(4, 0)]] :=
  have resolved := isResolvedBy shelf (by decide +kernel)
  have sound := TypeOracle.isSound_oracle TypeSystem.standard
  ⟨resolved, sound, resolved.wellFormed sound, by decide +kernel, by decide +kernel⟩

end Sample

end ObjectGraph
