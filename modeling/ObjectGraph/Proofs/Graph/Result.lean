import ObjectGraph.Proofs.Graph.Cycle
import ObjectGraph.Proofs.Graph.Queue
import ObjectGraph.Proofs.Graph.Resolution

/-
  A resolution that came to its end.

  `Finished` collects what is known when the queue is empty: the invariant of the queue, and the
  nodes that answer the roots.  From it the graph can be read off as foreseen: the providers asked
  for are the reached ones (`mem_asked_iff`), each node of a reached provider has the edges that its
  demands call for (`dependencies_eq`), and one node leads to another exactly if the provider of the
  one needs the provider of the other (`looped_iff`).
-/

namespace ObjectGraph

namespace Resolver

variable {r : Resolver} {t : BindingTable} {s : Setup} {st : Resolution} {p p' : Provider}

/-- A resolution at its end, with the providers `done` of the nodes taken and the nodes `xs` that
    answer the roots. -/
structure Finished (r : Resolver) (t : BindingTable) (s : Setup) (st : Resolution)
    (done : List Provider) (taken : Taken) (xs : List (Option NodeId)) : Prop where
  grown : Grows { table := t } st
  drains : Drains r t s.roots st done taken []
  rooted : List.Forall₂ (fun d x => Supplies r t st d.demand x) s.roots xs

theorem books_start (r : Resolver) (s : Setup) :
    Books r (BindingTable.register s) { table := BindingTable.register s } [] [] where
  naming := BindingTable.naming_register r s
  numbered i n found := by simp at found
  selected := .nil
  nodup := List.nodup_nil
  faults := .refl []

theorem mem_rootsTo {root : Root} : ∀ {ds : List RootDeclaration} {xs : List (Option NodeId)}
    {index : Nat}, root ∈ rootsTo index ds xs ↔
      ∃ (i : Nat) (d : RootDeclaration) (node : NodeId), ds[i]? = some d ∧
        xs[i]? = some (some node) ∧ root = rootTo d (index + i) node
  | [], xs, index => by simp [rootsTo]
  | d :: ds, [], index => by simp [rootsTo]
  | d :: ds, x :: xs, index => by
    rw [rootsTo, List.mem_append, mem_rootsTo]
    constructor
    · rintro (mem | ⟨i, d', node, at_i, filled, made⟩)
      · obtain ⟨node, filled, rfl⟩ := Option.map_eq_some_iff.mp (Option.mem_toList.mp mem)
        exact ⟨0, d, node, rfl, congrArg some filled, rfl⟩
      · exact ⟨i + 1, d', node, at_i, filled, by rw [made, Nat.add_right_comm, Nat.add_assoc]⟩
    · rintro ⟨i, d', node, at_i, filled, rfl⟩
      cases i with
      | zero =>
        cases at_i
        cases filled
        exact .inl (by simp)
      | succ i => exact .inr ⟨i, d', node, at_i, filled, by rw [Nat.add_right_comm, Nat.add_assoc]⟩

theorem mem_rootNodes {ds : List RootDeclaration} {xs : List (Option NodeId)} (index : Nat)
    {i : NodeId} (lengths : ds.length = xs.length) :
    i ∈ (rootsTo index ds xs).map (·.node) ↔ some i ∈ xs := by
  rw [List.mem_map]
  constructor
  · rintro ⟨root, mem, rfl⟩
    obtain ⟨k, d, node, -, filled, rfl⟩ := mem_rootsTo.mp mem
    exact List.mem_of_getElem? filled
  · intro mem
    obtain ⟨k, lt, at_k⟩ := List.mem_iff_getElem.mp mem
    exact ⟨_, mem_rootsTo.mpr ⟨k, ds[k], i, List.getElem?_eq_getElem (lengths ▸ lt),
      (List.getElem?_eq_getElem lt).trans (congrArg some at_k), rfl⟩, rfl⟩

/-- Before the first turn the queue holds the nodes that answer the roots. -/
theorem drains_start {asked : List Provider} {xs : List (Option NodeId)}
    (books : Books r t st asked
      (r.missingRoots t s.roots))
    (sub : ∀ p ∈ asked, ∃ d ∈ s.roots,
      r.provider? t d.request false = some p)
    (all : List.Forall₂ (fun d x => Supplies r t st d.demand x) s.roots xs) :
    Drains r t s.roots st [] []
      ((rootsTo 0 s.roots xs).map (·.node)) where
  books := by
    refine ⟨asked, ?_, fun p mem => ?_⟩
    · rwa [List.flatMap_nil, List.append_nil]
    · obtain ⟨d, declared, provider⟩ := sub p mem
      exact .root declared provider
  took := .nil
  nodup := List.nodup_nil
  waits p i selected := by
    obtain ⟨d, declared, provider⟩ := sub p (books.mem_asked selected).1
    obtain ⟨x, mem, supplies⟩ := forall₂_left all declared
    cases (supplies.selected provider).unique selected
    exact .inl ((mem_rootNodes 0 all.length_eq).mpr mem)
  queued i waits := by
    obtain ⟨d, -, supplies⟩ := forall₂_right all ((mem_rootNodes 0 all.length_eq).mp waits)
    obtain ⟨p, -, selected⟩ := supplies.exists_supplier
    exact ⟨p, selected⟩

/-- The roots are answered before the queue is looked at. -/
theorem roots_start (r : Resolver) (s : Setup) :
    let rooted := r.resolveRoots { table := BindingTable.register s } 0 s.roots
    ∃ xs, rooted.1 = rootsTo 0 s.roots xs ∧
      List.Forall₂ (fun d x => Supplies r (BindingTable.register s) rooted.2 d.demand x) s.roots xs ∧
      Drains r (BindingTable.register s) s.roots rooted.2 [] [] (rooted.1.map (·.node)) := by
  obtain ⟨xs, all, roots, -, asked, books, sub⟩ :=
    resolveRoots_asks (BindingTable.numbered_register s) s.roots 0 (books_start r s)
  refine ⟨xs, roots, all, ?_⟩
  rw [roots]
  exact drains_start books (fun p mem => (sub p mem).resolve_left List.not_mem_nil) all

/-- Resolution comes to an end with a graph and with faults, and rejects the graph if there are
    any. -/
theorem resolve_finished {turns : Nat} {o : Outcome}
    (ended : r.resolve turns (BindingTable.register s) s = some o) :
    ∃ st done taken xs, Finished r (BindingTable.register s) s st done taken xs ∧
      let g := graph s (rootsTo 0 s.roots xs) taken st
      o.result = if (st.faults ++ g.cycleFaults).isEmpty then .ok g
        else .error (st.faults ++ g.cycleFaults) := by
  obtain ⟨xs, roots, all, start⟩ := roots_start r s
  unfold resolve at ended
  obtain ⟨⟨taken, st⟩, drained, made⟩ := Option.bind_eq_some_iff.mp ended
  obtain ⟨done, later, drains⟩ :=
    drain_drains (BindingTable.numbered_register s) turns start drained
  refine ⟨st, done, taken, xs,
    ⟨?_, drains, all.imp fun _ _ supplies => supplies.mono later⟩, ?_⟩
  · exact (resolve_inside drained).1
  · cases made
    rw [roots]

/-- A graph that is accepted comes from a finished resolution without faults. -/
theorem resolve_accepted {turns : Nat} {o : Outcome} {g : Graph}
    (ended : r.resolve turns (BindingTable.register s) s = some o) (ok : o.result = .ok g) :
    ∃ st done taken xs, Finished r (BindingTable.register s) s st done taken xs ∧
      g = graph s (rootsTo 0 s.roots xs) taken st ∧ st.faults = [] ∧ g.cycleFaults = [] := by
  obtain ⟨st, done, taken, xs, finished, result⟩ := resolve_finished ended
  refine ⟨st, done, taken, xs, finished, ?_⟩
  rw [result] at ok
  split at ok
  · rename_i faultless
    cases ok
    exact ⟨rfl, List.append_eq_nil_iff.mp (List.isEmpty_iff.mp faultless)⟩
  · cases ok

theorem node_graph {roots : List Root} {taken : Taken} {i : NodeId} {n : Node}
    (found : st.nodes[i]? = some n) : (graph s roots taken st).node i = n := by
  rw [Graph.node, graph, Array.getD_eq_getD_getElem?, found, Option.getD_some]

/-! ## The providers asked for -/

namespace Finished

variable {done : List Provider} {taken : Taken} {xs : List (Option NodeId)}

/-- Every node that was selected was taken from the queue. -/
theorem took (finished : Finished r t s st done taken xs) {i : NodeId}
    (selected : Selected r st p (some i)) :
    p ∈ done ∧ ∃ edges, (i, edges) ∈ taken ∧ Took r t st p (i, edges) := by
  obtain ⟨asked, books, -⟩ := finished.drains.books
  rcases finished.drains.waits p i selected with waits | taken_before
  · cases waits
  · obtain ⟨⟨i', edges⟩, mem, rfl⟩ := List.mem_map.mp taken_before
    obtain ⟨p', mem', took⟩ := forall₂_right finished.drains.took mem
    have same := books.provider_unique selected took.1
    exact ⟨same ▸ mem', edges, mem, same ▸ took⟩

theorem chosen (finished : Finished r t s st done taken xs) {x : Option NodeId}
    (selected : Selected r st p x) : r.Reached t s.roots p ∧ Chosen r t st p x := by
  obtain ⟨asked, books, reached⟩ := finished.drains.books
  obtain ⟨mem, chosen⟩ := books.mem_asked selected
  exact ⟨reached p mem, chosen⟩

/-- A demand of a provider has a node, if there is a supplier that can be built. -/
theorem supplied (finished : Finished r t s st done taken xs) {i : NodeId}
    (selected : Selected r st p (some i)) {d : Demand} (demanded : d ∈ r.demands t p)
    (supplier : r.supplier? t d = some p') : ∃ x, Selected r st p' x := by
  obtain ⟨-, edges, -, -, n, ys, -, all, -⟩ := finished.took selected
  obtain ⟨y, -, supplies⟩ := forall₂_left all demanded
  exact ⟨y, supplies.selected supplier⟩

/-- All that the roots need was selected. -/
theorem selected_of_reached (finished : Finished r t s st done taken xs)
    (reached : r.Reached t s.roots p) : ∃ x, Selected r st p x := by
  induction reached with
  | root declared provider =>
    obtain ⟨x, -, supplies⟩ := forall₂_left finished.rooted declared
    exact ⟨x, supplies.selected provider⟩
  | @demand p p' d reached demanded supplier ih =>
    obtain ⟨x, selected⟩ := ih
    cases x with
    | none =>
      -- a provider that cannot be built has no demands
      have none : r.node? t p = none := (finished.chosen selected).2
      rw [demands, Option.map_eq_none_iff.mp none] at demanded
      cases demanded
    | some i => exact finished.supplied selected demanded supplier

/-- A provider that can be built has its node in the graph. -/
theorem node_of_reached (finished : Finished r t s st done taken xs)
    (reached : r.Reached t s.roots p) {n : Node} (built : r.node? t p = some n) :
    ∃ i, Selected r st p (some i) := by
  obtain ⟨x, selected⟩ := finished.selected_of_reached reached
  cases x with
  | none =>
    have none : r.node? t p = none := (finished.chosen selected).2
    rw [built] at none
    cases none
  | some i => exact ⟨i, selected⟩

theorem mem_done_iff (finished : Finished r t s st done taken xs) :
    p ∈ done ↔ r.Reached t s.roots p ∧ ∃ n, r.node? t p = some n := by
  constructor
  · intro mem
    obtain ⟨entry, -, took⟩ := forall₂_left finished.drains.took mem
    obtain ⟨reached, n, -, stands⟩ := finished.chosen took.1
    obtain ⟨n', node, -⟩ := stands.node
    exact ⟨reached, n', node⟩
  · rintro ⟨reached, n, built⟩
    obtain ⟨i, selected⟩ := finished.node_of_reached reached built
    exact (finished.took selected).1

/-! ## The edges of the graph -/

variable {roots : List Root} {i j : NodeId}

/-- The node of a provider has the edges that its demands call for. -/
theorem dependencies_eq (finished : Finished r t s st done taken xs) (roots : List Root)
    (selected : Selected r st p (some i)) :
    ∃ n ys, st.nodes[i]? = some n ∧ StandsFor r t st.table n p ∧
      List.Forall₂ (Supplies r t st) (r.demands t p) ys ∧
      (graph s roots taken st).dependencies i = edgesTo n n.slots ys := by
  obtain ⟨-, edges, mem, -, n, ys, found, all, made⟩ := finished.took selected
  obtain ⟨-, n', found', stands⟩ := finished.chosen selected
  cases found.symm.trans found'
  refine ⟨n, ys, found, stands, all, ?_⟩
  have lt : i < st.nodes.size := (Array.getElem?_eq_some_iff.mp found).1
  have listed : taken.lookup i = some edges := by
    obtain ⟨edges', at_i⟩ := Option.isSome_iff_exists.mp
      (isSome_lookup.mpr (List.mem_map_of_mem (f := Prod.fst) mem))
    obtain ⟨before, after, split, -⟩ := List.lookup_eq_some_iff.mp at_i
    have mem' : (i, edges') ∈ taken := by simp [split]
    cases List.inj_on_of_nodup_map finished.drains.nodup mem mem' rfl
    exact at_i
  simp [Graph.dependencies, graph, Array.getD_eq_getD_getElem?, lt, listed, ← made]

/-- Only the nodes of providers have edges. -/
theorem exists_selected_of_dependencies (finished : Finished r t s st done taken xs) {e : Edge}
    (mem : e ∈ (graph s roots taken st).dependencies i) : ∃ p, Selected r st p (some i) := by
  obtain ⟨edges, known, -⟩ := mem_dependencies mem
  obtain ⟨p, -, took⟩ := forall₂_right finished.drains.took known
  exact ⟨p, took.1⟩

/-- An edge leads from the node of a provider to the node of a supplier. -/
theorem exists_edge_iff (finished : Finished r t s st done taken xs)
    (selected : Selected r st p (some i)) :
    (∃ e ∈ (graph s roots taken st).dependencies i, e.source = j) ↔
      ∃ d ∈ r.demands t p, ∃ p', r.supplier? t d = some p' ∧ Selected r st p' (some j) := by
  obtain ⟨n, ys, -, stands, all, edges⟩ := finished.dependencies_eq roots selected
  have lengths : n.slots.length = ys.length := by
    rw [← all.length_eq, stands.met.length_eq, ← n.map_slots, List.length_map]
  rw [edges]
  refine (List.mem_map.symm.trans (mem_sources lengths)).trans ?_
  constructor
  · intro filled
    obtain ⟨d, demanded, supplies⟩ := forall₂_right all filled
    obtain ⟨p', supplier, selected'⟩ := supplies.exists_supplier
    exact ⟨d, demanded, p', supplier, selected'⟩
  · rintro ⟨d, demanded, p', supplier, selected'⟩
    obtain ⟨y, mem, supplies⟩ := forall₂_left all demanded
    cases (supplies.selected supplier).unique selected'
    exact mem

/-- The nodes reachable in the graph are those of the providers reached. -/
theorem reachable_iff (finished : Finished r t s st done taken xs) :
    (graph s (rootsTo 0 s.roots xs) taken st).Reachable i ↔
      ∃ p, r.Reached t s.roots p ∧ Selected r st p (some i) := by
  constructor
  · intro reachable
    have node : ∃ p, Selected r st p (some i) := by
      induction reachable with
      | root known =>
        obtain ⟨k, d, node, -, filled, rfl⟩ := mem_rootsTo.mp known
        obtain ⟨d', -, supplies⟩ := forall₂_right finished.rooted (List.mem_of_getElem? filled)
        obtain ⟨p, -, selected⟩ := supplies.exists_supplier
        exact ⟨p, selected⟩
      | edge _ mem ih =>
        obtain ⟨p, selected⟩ := ih
        obtain ⟨d, -, p', -, selected'⟩ := (finished.exists_edge_iff selected).mp ⟨_, mem, rfl⟩
        exact ⟨p', selected'⟩
    obtain ⟨p, selected⟩ := node
    exact ⟨p, (finished.chosen selected).1, selected⟩
  · rintro ⟨p, reached, selected⟩
    induction reached generalizing i with
    | root declared provider =>
      obtain ⟨x, mem, supplies⟩ := forall₂_left finished.rooted declared
      cases (supplies.selected provider).unique selected
      obtain ⟨root, known, rfl⟩ :=
        List.mem_map.mp ((mem_rootNodes 0 finished.rooted.length_eq).mpr mem)
      exact .root known
    | @demand p p' d reached demanded supplier ih =>
      obtain ⟨x, before⟩ := finished.selected_of_reached reached
      cases x with
      | none =>
        have none : r.node? t p = none := (finished.chosen before).2
        rw [demands, Option.map_eq_none_iff.mp none] at demanded
        cases demanded
      | some k =>
        obtain ⟨e, mem, rfl⟩ :=
          (finished.exists_edge_iff before).mpr ⟨d, demanded, p', supplier, selected⟩
        exact .edge (ih before) mem

/-! ## Cycles -/

/-- One node leads to another exactly if its provider needs the provider of the other. -/
theorem leads_iff (finished : Finished r t s st done taken xs)
    (selected : Selected r st p (some i)) :
    (graph s roots taken st).Leads i j ↔ ∃ p', r.Needs t p p' ∧ Selected r st p' (some j) := by
  obtain ⟨-, n, found, stands⟩ := finished.chosen selected
  obtain ⟨n', node, -, -, deferred⟩ := stands.node
  rw [Graph.Leads, node_graph found, deferred, finished.exists_edge_iff selected]
  constructor
  · rintro ⟨hasty, d, demanded, p', supplier, selected'⟩
    exact ⟨p', ⟨⟨n', node, hasty⟩, d, demanded, supplier⟩, selected'⟩
  · rintro ⟨p', ⟨⟨n'', node', hasty⟩, d, demanded, supplier⟩, selected'⟩
    cases node.symm.trans node'
    exact ⟨hasty, d, demanded, p', supplier, selected'⟩

/-- There is a cycle in the graph exactly if a provider that was reached needs itself. -/
theorem looped_iff (finished : Finished r t s st done taken xs) :
    (graph s (rootsTo 0 s.roots xs) taken st).Looped ↔
      ∃ p, r.Reached t s.roots p ∧ Relation.TransGen (r.Needs t) p p := by
  constructor
  · rintro ⟨i, reachable, loop⟩
    obtain ⟨p, reached, selected⟩ := finished.reachable_iff.mp reachable
    have follow : ∀ j, Relation.TransGen (graph s (rootsTo 0 s.roots xs) taken st).Leads i j →
        ∃ p', Relation.TransGen (r.Needs t) p p' ∧ Selected r st p' (some j) := by
      intro j path
      induction path with
      | single leads =>
        obtain ⟨p', needs, selected'⟩ := (finished.leads_iff selected).mp leads
        exact ⟨p', .single needs, selected'⟩
      | tail _ leads ih =>
        obtain ⟨p', path, selected'⟩ := ih
        obtain ⟨p'', needs, selected''⟩ := (finished.leads_iff selected').mp leads
        exact ⟨p'', path.tail needs, selected''⟩
    obtain ⟨p', path, selected'⟩ := follow i loop
    obtain ⟨asked, books, -⟩ := finished.drains.books
    cases books.provider_unique selected selected'
    exact ⟨p, reached, path⟩
  · rintro ⟨p, reached, loop⟩
    -- all providers on the way are needed and have nodes, as they need others in turn
    have on_the_way : ∀ p', Relation.TransGen (r.Needs t) p p' → r.Reached t s.roots p' := by
      intro p' path
      induction path with
      | single needs =>
        obtain ⟨-, d, demanded, supplier⟩ := needs
        exact .demand reached demanded supplier
      | tail _ needs ih =>
        obtain ⟨-, d, demanded, supplier⟩ := needs
        exact .demand ih demanded supplier
    have start : ∃ p', r.Needs t p p' := by
      obtain ⟨p', needs, -⟩ := Relation.TransGen.head'_iff.mp loop
      exact ⟨p', needs⟩
    obtain ⟨-, ⟨n, node, -⟩, -⟩ := start
    obtain ⟨i, selected⟩ := finished.node_of_reached reached node
    have follow : ∀ p', Relation.TransGen (r.Needs t) p p' → ∀ j, Selected r st p' (some j) →
        Relation.TransGen (graph s (rootsTo 0 s.roots xs) taken st).Leads i j := by
      intro p' path
      induction path with
      | single needs =>
        intro j selected'
        exact .single ((finished.leads_iff selected).mpr ⟨_, needs, selected'⟩)
      | @tail b c path needs ih =>
        intro j selected'
        obtain ⟨n', node', -⟩ := needs.1
        obtain ⟨k, between⟩ := finished.node_of_reached (on_the_way b path) node'
        exact (ih k between).tail ((finished.leads_iff between).mpr ⟨_, needs, selected'⟩)
    exact ⟨i, finished.reachable_iff.mpr ⟨p, reached, selected⟩, follow p loop i selected⟩

/-- The search for cycles tells if a provider that was reached needs itself. -/
theorem cycleFaults_eq_nil_iff (finished : Finished r t s st done taken xs) :
    (graph s (rootsTo 0 s.roots xs) taken st).cycleFaults = [] ↔
      ∀ p, r.Reached t s.roots p → ¬ Relation.TransGen (r.Needs t) p p := by
  have inside : ∀ i, (graph s (rootsTo 0 s.roots xs) taken st).Reachable i →
      i < (graph s (rootsTo 0 s.roots xs) taken st).nodes.size := by
    intro i reachable
    obtain ⟨p, -, selected⟩ := finished.reachable_iff.mp reachable
    obtain ⟨-, n, found, -⟩ := finished.chosen selected
    exact (Array.getElem?_eq_some_iff.mp found).1
  rw [Graph.cycleFaults, List.map_eq_nil_iff, Graph.cycles_eq_nil_iff inside, finished.looped_iff]
  simp only [not_exists, not_and]

end Finished

end Resolver

end ObjectGraph
