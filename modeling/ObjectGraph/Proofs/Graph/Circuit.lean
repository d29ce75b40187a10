import Mathlib.Data.List.Chain
import ObjectGraph.Proofs.Graph.Cycle

/-
  What the search for cycles goes through, and what it reports.

  The search is written with two limits, one on its depth and one on its rounds.  `Walks` and
  `Searches` are the same search without them: one rule for each thing that can happen to an edge,
  and one derivation for each search that comes to an end.  A state has at most one outcome
  (`Searches.unique`), and the limits are never met (`explore_walks`, `run_searches`), so the
  search with them finds this outcome.

  What holds of all that is reported is shown along the rules.  A path is a chain of edges between
  nodes that are not deferred, last first; an edge back to it closes a circuit (`closing_circuit`).
-/

namespace ObjectGraph

namespace Graph

/-- An edge leads from a node to another one, be it deferred or not. -/
def Adjacent (g : Graph) (x y : NodeId) : Prop := ∃ e ∈ g.dependencies x, e.source = y

/-- A list of nodes that follows edges, and ends with the node that it starts with. -/
def Circuit (g : Graph) (c : Cycle) : Prop :=
  (∃ x inner, c = x :: inner ++ [x]) ∧ c.IsChain g.Adjacent

/-- Only ids of nodes occur in the graph. -/
structure Enclosed (g : Graph) : Prop where
  roots : ∀ root ∈ g.roots, root.node < g.nodes.size
  edges : ∀ e ∈ g.allEdges, e.source < g.nodes.size

/-- What is reported: a circuit that passes a node at most once, and no deferred one. -/
structure Reports (g : Graph) (c : Cycle) : Prop where
  circuit : g.Circuit c
  once : c.dropLast.Nodup
  reachable : ∀ x ∈ c, g.Reachable x
  hasty : ∀ x ∈ c, (g.node x).isDeferred = false

/-- What is reached in an enclosed graph is one of its nodes. -/
theorem Enclosed.lt {g : Graph} (enclosed : g.Enclosed) {x : NodeId} (reached : g.Reachable x) :
    x < g.nodes.size := by
  cases reached with
  | root known => exact enclosed.roots _ known
  | edge _ mem =>
    exact enclosed.edges _ (mem_allEdges_iff.mpr ⟨_, mem⟩)

/-- Who follows edges from a node that is not deferred, and passes none that is, is led all the
    way. -/
theorem transGen_of_chain {g : Graph} {y : NodeId} :
    ∀ {x : NodeId} (inner : List NodeId), (x :: inner ++ [y]).IsChain g.Adjacent →
      (∀ z ∈ x :: inner, (g.node z).isDeferred = false) → Relation.TransGen g.Leads x y := by
  intro x inner
  induction inner generalizing x with
  | nil =>
    intro chain hasty
    exact .single ⟨hasty x List.mem_cons_self, (List.isChain_cons_cons.mp chain).1⟩
  | cons z rest ih =>
    intro chain hasty
    have split := List.isChain_cons_cons.mp chain
    exact .head ⟨hasty x List.mem_cons_self, split.1⟩
      (ih split.2 fun w mem => hasty w (List.mem_cons_of_mem _ mem))

/-- A circuit that can be reached and passes no deferred node leads back to where it starts. -/
theorem Circuit.looped {g : Graph} {c : Cycle} (circuit : g.Circuit c)
    (reached : ∀ x ∈ c, g.Reachable x) (hasty : ∀ x ∈ c, (g.node x).isDeferred = false) :
    g.Looped := by
  obtain ⟨⟨x, inner, rfl⟩, chain⟩ := circuit
  exact ⟨x, reached x List.mem_cons_self, transGen_of_chain inner chain
    fun z mem => hasty z (List.mem_append_left _ mem)⟩

end Graph

namespace CycleSearch

variable {g : Graph} {st st' st'' st₁ st₂ : CycleSearch} {path next starts : List NodeId}
  {x y node : NodeId}

/-! ## The search without limits -/

/-- What a node leads to, deferred or not. -/
def sources (g : Graph) (node : NodeId) : List NodeId := (g.dependencies node).map (·.source)

/-- The search goes on from a node to those that edges lead from. -/
theorem mem_sources_iff : y ∈ sources g x ↔ g.Adjacent x y := List.mem_map

theorem reachable_of_mem_sources (reached : g.Reachable x) (mem : y ∈ sources g x) :
    g.Reachable y := by
  obtain ⟨e, edge, rfl⟩ := mem_sources_iff.mp mem
  exact reached.edge edge

/-- From the last node of `path`, the search goes along the edges to `next`, one after another, and
    below each of them as far as there are new nodes. -/
inductive Walks (g : Graph) : List NodeId → List NodeId → CycleSearch → CycleSearch → Prop where
  | done {path : List NodeId} {st : CycleSearch} : Walks g path [] st st
  /-- The edge leads back to the path. -/
  | back {path next : List NodeId} {y : NodeId} {st st' : CycleSearch} (closes : y ∈ path)
      (rest : Walks g path next { st with cycles := st.cycles ++ [closing path y] } st') :
      Walks g path (y :: next) st st'
  /-- It leads to a node that was left. -/
  | known {path next : List NodeId} {y : NodeId} {st st' : CycleSearch} (off : y ∉ path)
      (entered : y ∈ st.entered) (rest : Walks g path next st st') :
      Walks g path (y :: next) st st'
  /-- It leads to a new node that is deferred. -/
  | later {path next : List NodeId} {y : NodeId} {st st' : CycleSearch} (off : y ∉ path)
      (new : y ∉ st.entered) (deferred : (g.node y).isDeferred = true)
      (rest : Walks g path next
        { st with entered := y :: st.entered, starts := st.starts ++ sources g y } st') :
      Walks g path (y :: next) st st'
  /-- It leads to a new node that is not. -/
  | enter {path next : List NodeId} {y : NodeId} {st st' st'' : CycleSearch} (off : y ∉ path)
      (new : y ∉ st.entered) (hasty : (g.node y).isDeferred = false)
      (below : Walks g (y :: path) (sources g y) { st with entered := y :: st.entered } st')
      (rest : Walks g path next st' st'') : Walks g path (y :: next) st st''

/-- The search goes on until there is nothing left to start from. -/
inductive Searches (g : Graph) : CycleSearch → CycleSearch → Prop where
  | done {st : CycleSearch} (empty : st.starts = []) : Searches g st st
  | start {st st' st'' : CycleSearch} {x : NodeId} {starts : List NodeId}
      (first : st.starts = x :: starts) (walk : Walks g [] [x] { st with starts } st')
      (rest : Searches g st' st'') : Searches g st st''

/-- A search ends in one state, from any list of nodes ... -/
theorem Walks.unique (walk : Walks g path next st st₁) (walk' : Walks g path next st st₂) :
    st₁ = st₂ := by
  induction walk generalizing st₂ with
  | done => cases walk'; rfl
  | back closes _ ih =>
    cases walk' with
    | back _ rest => exact ih rest
    | known off | later off | enter off => exact (off closes).elim
  | known off entered _ ih =>
    cases walk' with
    | back closes => exact (off closes).elim
    | known _ _ rest => exact ih rest
    | later _ new | enter _ new => exact (new entered).elim
  | later off new deferred _ ih =>
    cases walk' with
    | back closes => exact (off closes).elim
    | known _ entered => exact (new entered).elim
    | later _ _ _ rest => exact ih rest
    | enter _ _ hasty => exact (Bool.false_ne_true (hasty.symm.trans deferred)).elim
  | enter off new hasty _ _ ih_below ih_rest =>
    cases walk' with
    | back closes => exact (off closes).elim
    | known _ entered => exact (new entered).elim
    | later _ _ deferred => exact (Bool.false_ne_true (hasty.symm.trans deferred)).elim
    | enter _ _ _ below rest => exact ih_rest (ih_below below ▸ rest)

/-- ... and from all starts. -/
theorem Searches.unique (search : Searches g st st₁) (search' : Searches g st st₂) :
    st₁ = st₂ := by
  induction search generalizing st₂ with
  | done empty =>
    cases search' with
    | done => rfl
    | start first => rw [empty] at first; cases first
  | start first walk _ ih =>
    cases search' with
    | done empty => rw [empty] at first; cases first
    | start first' walk' rest' =>
      obtain ⟨rfl, rfl⟩ := List.cons.inj (first.symm.trans first')
      exact ih (walk.unique walk' ▸ rest')

/-! ## What it reports -/

/-- A reported cycle is the part of the path that an edge back to it closes. -/
theorem closing_split (mem : y ∈ path) : ∃ front back, path = front ++ y :: back ∧ y ∉ front ∧
    closing path y = y :: front.reverse ++ [y] := by
  obtain ⟨front, back, rfl, off⟩ := List.eq_append_cons_of_mem mem
  refine ⟨front, back, rfl, off, ?_⟩
  have others : ∀ z ∈ front, decide (z ≠ y) = true := fun z z_mem =>
    decide_eq_true (ne_of_mem_of_not_mem z_mem off)
  rw [closing, List.takeWhile_append_of_pos others, List.takeWhile_cons_of_neg (by simp),
    List.append_nil]

/-- The path of the search, and the nodes that the edges of its last node lead to. -/
structure Heads (g : Graph) (path next : List NodeId) : Prop where
  nodup : path.Nodup
  reachable : ∀ x ∈ path, g.Reachable x
  hasty : ∀ x ∈ path, (g.node x).isDeferred = false
  led : ∀ y ∈ next, g.Reachable y
  chain : ∀ y ∈ next, (y :: path).IsChain fun z x => g.Adjacent x z

theorem Heads.rest (heads : Heads g path (y :: next)) : Heads g path next :=
  { heads with
    led := fun z mem => heads.led z (List.mem_cons_of_mem y mem)
    chain := fun z mem => heads.chain z (List.mem_cons_of_mem y mem) }

/-- One level down, the node itself has joined the path. -/
theorem Heads.below (heads : Heads g path (y :: next)) (off : y ∉ path)
    (hasty : (g.node y).isDeferred = false) : Heads g (y :: path) (sources g y) where
  nodup := List.nodup_cons.mpr ⟨off, heads.nodup⟩
  reachable := List.forall_mem_cons.mpr ⟨heads.led y List.mem_cons_self, heads.reachable⟩
  hasty := List.forall_mem_cons.mpr ⟨hasty, heads.hasty⟩
  led := fun _ => reachable_of_mem_sources (heads.led y List.mem_cons_self)
  chain := fun _ mem =>
    List.isChain_cons_cons.mpr ⟨mem_sources_iff.mp mem, heads.chain y List.mem_cons_self⟩

/-- An edge back to the path closes a cycle of the kind that is reported. -/
theorem Heads.reports (heads : Heads g path (y :: next)) (mem : y ∈ path) :
    g.Reports (closing path y) := by
  obtain ⟨front, back, split, off, eq⟩ := closing_split mem
  have on_path : ∀ z ∈ closing path y, z ∈ path := by
    intro z z_mem
    rw [eq] at z_mem
    rw [split]
    simp only [List.mem_append, List.mem_cons, List.mem_reverse, List.not_mem_nil] at z_mem ⊢
    tauto
  have nodup := heads.nodup
  have chain := heads.chain y List.mem_cons_self
  rw [split] at nodup chain
  constructor
  case circuit =>
    refine ⟨⟨y, front.reverse, eq⟩, ?_⟩
    -- read backwards, it is the path from the node on, up to where the node is met again
    have back_to : (closing path y).reverse <+: y :: (front ++ y :: back) :=
      ⟨back, by simp [eq]⟩
    have cut := List.IsChain.prefix chain back_to
    exact List.isChain_reverse.mp cut
  case once =>
    rw [eq, List.dropLast_concat, List.nodup_cons, List.mem_reverse, List.nodup_reverse]
    exact ⟨off, nodup.of_append_left⟩
  case reachable => exact fun z z_mem => heads.reachable z (on_path z z_mem)
  case hasty => exact fun z z_mem => heads.hasty z (on_path z z_mem)

/-- Only cycles of that kind were reported, and there are only nodes to start from that the roots
    reach. -/
structure Tells (g : Graph) (st : CycleSearch) : Prop where
  reports : ∀ c ∈ st.cycles, g.Reports c
  starts : ∀ x ∈ st.starts, g.Reachable x

/-- What is reported on the way are circles. -/
theorem Walks.tells (walk : Walks g path next st st') (heads : Heads g path next)
    (tells : Tells g st) : Tells g st' := by
  induction walk with
  | done => exact tells
  | back closes _ ih =>
    refine ih heads.rest ⟨fun c mem => ?_, tells.starts⟩
    rcases List.mem_append.mp mem with mem | mem
    · exact tells.reports c mem
    · exact List.mem_singleton.mp mem ▸ heads.reports closes
  | known _ _ _ ih => exact ih heads.rest tells
  | @later path next y _ _ _ _ _ _ ih =>
    refine ih heads.rest ⟨tells.reports, fun x mem => ?_⟩
    rcases List.mem_append.mp mem with mem | mem
    · exact tells.starts x mem
    · exact reachable_of_mem_sources (heads.led y List.mem_cons_self) mem
  | enter off _ hasty _ _ ih_below ih_rest =>
    exact ih_rest heads.rest (ih_below (heads.below off hasty) ⟨tells.reports, tells.starts⟩)

/-- A search begins with an empty path. -/
theorem heads_start (reached : g.Reachable x) : Heads g [] [x] where
  nodup := List.nodup_nil
  reachable := nofun
  hasty := nofun
  led := fun _ mem => List.mem_singleton.mp mem ▸ reached
  chain := fun z _ => List.isChain_singleton z

theorem Searches.tells (search : Searches g st st') (tells : Tells g st) : Tells g st' := by
  induction search with
  | done => exact tells
  | start first walk _ ih =>
    have reached := tells.starts _ (first ▸ List.mem_cons_self)
    exact ih (walk.tells (heads_start reached)
      ⟨tells.reports, fun z mem => tells.starts z (first ▸ List.mem_cons_of_mem _ mem)⟩)

/-! ## The limits are never met -/

/-- To a depth that suffices for the nodes off the path, exploring a node is a walk. -/
def Deep (g : Graph) (depth : Nat) : Prop :=
  ∀ {path next : List NodeId} {node : NodeId} {st st' : CycleSearch}, Heads g path [node] →
    node ∉ path → node ∉ st.entered → g.nodes.size < depth + path.length →
    Walks g path next (explore g depth path st node) st' → Walks g path (node :: next) st st'

/-- With depth to spare the bounded search is the unbounded one ... -/
theorem followAll_walks {depth : Nat} (deep : Deep g depth)
    (enough : g.nodes.size < depth + path.length) (next : List NodeId) :
    ∀ {st}, Heads g path next → Walks g path next st (next.foldl (follow g depth path) st) := by
  induction next with
  | nil => exact fun _ => .done
  | cons y next ih =>
    intro st heads
    rw [List.foldl_cons]
    have rest : Walks g path next (follow g depth path st y) _ := ih heads.rest
    by_cases closes : y ∈ path
    · rw [follow, if_pos closes] at rest ⊢
      exact .back closes rest
    · by_cases known : y ∈ st.entered
      · rw [follow, if_neg closes, if_pos known] at rest ⊢
        exact .known closes known rest
      · rw [follow, if_neg closes, if_neg known] at rest ⊢
        have one : Heads g path [y] := { heads with
          led := fun z mem => List.mem_singleton.mp mem ▸ heads.led y List.mem_cons_self
          chain := fun z mem => List.mem_singleton.mp mem ▸ heads.chain y List.mem_cons_self }
        exact deep one closes known enough rest

/-- ... and the depth never runs out, as no path holds a node twice. -/
theorem explore_walks (inside : ∀ x, g.Reachable x → x < g.nodes.size) (depth : Nat) :
    Deep g depth := by
  induction depth with
  | zero =>
    -- a path holds no more nodes than there are
    intro path _ _ _ _ heads _ _ enough
    have sub : path ⊆ List.range g.nodes.size := fun x mem =>
      List.mem_range.mpr (inside x (heads.reachable x mem))
    have le := (heads.nodup.subperm sub).length_le
    rw [List.length_range] at le
    omega
  | succ depth ih =>
    intro path next node st st' heads off new enough rest
    rw [explore_succ] at rest
    split at rest
    · rename_i deferred
      exact .later off new deferred rest
    · rename_i hasty
      have hasty : (g.node node).isDeferred = false := by simpa using hasty
      refine .enter off new hasty (followAll_walks ih ?_ _ (heads.below off hasty)) rest
      rw [List.length_cons]
      omega

theorem run_cons {rounds : Nat} (first : st.starts = x :: starts) : run g (rounds + 1) st =
    if x ∈ st.entered then run g rounds { st with starts }
    else run g rounds (explore g (g.nodes.size + 1) [] { st with starts } x) := by
  rw [run]
  split
  · rename_i empty
    rw [first] at empty
    cases empty
  · rename_i first'
    obtain ⟨rfl, rfl⟩ := List.cons.inj (first.symm.trans first')
    rfl

/-- Rounds that use up all there is to start from make a search. -/
theorem run_searches (inside : ∀ x, g.Reachable x → x < g.nodes.size) (rounds : Nat) :
    ∀ {st}, Tells g st → (run g rounds st).starts = [] → Searches g st (run g rounds st) := by
  induction rounds with
  | zero => exact fun _ => .done
  | succ rounds ih =>
    intro st tells ended
    cases first : st.starts with
    | nil =>
      rw [run, first]
      exact .done first
    | cons x starts =>
      have heads := heads_start (tells.starts x (first ▸ List.mem_cons_self))
      have tells' : Tells g { st with starts } :=
        ⟨tells.reports, fun z mem => tells.starts z (first ▸ List.mem_cons_of_mem x mem)⟩
      -- what a round does to its first start is a walk
      have round : ∃ st', Walks g [] [x] { st with starts } st' ∧
          run g (rounds + 1) st = run g rounds st' := by
        rw [run_cons first]
        split
        · rename_i known
          exact ⟨_, .known List.not_mem_nil known .done, rfl⟩
        · rename_i new
          exact ⟨_, explore_walks inside _ heads List.not_mem_nil new (Nat.lt_succ_self _) .done,
            rfl⟩
      obtain ⟨st', walk, same⟩ := round
      rw [same] at ended ⊢
      exact .start first walk (ih (walk.tells heads tells') ended)

end CycleSearch

namespace Graph

/-- The search for cycles comes to an end, and its outcome is the only one that it can have.  It
    reports none exactly when every circuit that the roots reach, along whatever edges, passes a
    deferred node.  Each fault tells the nodes along a circuit that ends where it starts, passes no
    other node twice and no deferred node at all. -/
theorem cycleFaults_sound_complete {g : Graph} (enclosed : g.Enclosed) :
    (∃! st, CycleSearch.Searches g { starts := g.roots.map (·.node) } st) ∧
      (∀ st, CycleSearch.Searches g { starts := g.roots.map (·.node) } st →
        g.cycleFaults = st.cycles.map g.cycleFault) ∧
      (g.cycleFaults = [] ↔ ∀ c, g.Circuit c → (∀ x ∈ c, g.Reachable x) →
        ∃ x ∈ c, (g.node x).isDeferred = true) ∧
      ∀ f ∈ g.cycleFaults, ∃ x inner, g.Reports (x :: inner ++ [x]) ∧
        (∀ y ∈ x :: inner, y < g.nodes.size) ∧
        f = .cycle ((x :: inner ++ [x]).map fun y => (g.node y).text) (g.node x).location := by
  have inside : ∀ x, g.Reachable x → x < g.nodes.size := fun _ => enclosed.lt
  have tells : CycleSearch.Tells g { starts := g.roots.map (·.node) } :=
    ⟨nofun, (CycleSearch.fits_start g).starts_reachable⟩
  have search := CycleSearch.run_searches inside _ tells (CycleSearch.search_fits inside).2
  have reports : ∀ c ∈ g.cycles, g.Reports c := (search.tells tells).reports
  refine ⟨⟨_, search, fun st search' => search'.unique search⟩, fun st search' => ?_, ?_, ?_⟩
  · rw [search'.unique search]
    rfl
  · rw [cycleFaults, List.map_eq_nil_iff]
    constructor
    · intro quiet c circuit reached
      by_contra none
      refine (cycles_eq_nil_iff inside).mp quiet (circuit.looped reached fun x mem => ?_)
      rw [Bool.eq_false_iff]
      exact fun deferred => none ⟨x, mem, deferred⟩
    · intro all
      refine List.eq_nil_iff_forall_not_mem.mpr fun c mem => ?_
      have report := reports c mem
      obtain ⟨x, x_mem, deferred⟩ := all c report.circuit report.reachable
      rw [report.hasty x x_mem] at deferred
      cases deferred
  · intro f mem
    obtain ⟨c, c_mem, rfl⟩ := List.mem_map.mp mem
    have report := reports c c_mem
    obtain ⟨⟨x, inner, rfl⟩, -⟩ := report.circuit
    exact ⟨x, inner, report,
      fun y y_mem => inside y (report.reachable y (List.mem_append_left _ y_mem)), rfl⟩

end Graph

/-- A graph of factories that are told by their names, whether they are deferred, and what fills
    their slots. -/
def Sample.wired (factories : List (String × Bool × List NodeId)) (roots : List NodeId) : Graph :=
  let edges := factories.mapIdx fun id f => f.2.2.mapIdx fun slot source =>
    ({ target := id, slot, request := default, source } : Edge)
  { name := "wired"
    nodes := (factories.mapIdx fun id f => { (default : Node) with
      id, kind := .factory { (default : Factory) with
        name := f.1, type := .plain f.1, isDeferred := f.2.1 } }).toArray
    bindings := []
    edges := edges.toArray
    incoming := Edge.incoming factories.length edges.flatten
    roots := roots.map fun node => { (default : Root) with node }
    hints := default
    accumulators := [] }

/-- `A` and `B` use each other by way of the deferred `F`, beyond which `D` and `E` use each other
    right away. -/
def Sample.knot : Graph := Sample.wired
  [("A", false, [1, 2]), ("B", false, [2]), ("F", true, [0, 3]), ("D", false, [4]),
    ("E", false, [4, 3])] [1, 0]

theorem cycleFaults_knot : Sample.knot.Enclosed ∧
    Sample.knot.cycleFaults = [.cycle ["E", "E"] {}, .cycle ["D", "E", "D"] {}] ∧
    (∃! st, CycleSearch.Searches Sample.knot { starts := [1, 0] } st) ∧
    (∃ c, Sample.knot.Circuit c ∧ (∀ x ∈ c, Sample.knot.Reachable x) ∧
      ∀ x ∈ c, (Sample.knot.node x).isDeferred = false) ∧
    ∃ x inner, Sample.knot.Reports (x :: inner ++ [x]) ∧
      (∀ y ∈ x :: inner, y < Sample.knot.nodes.size) ∧
      Fault.cycle ["D", "E", "D"] {} =
        .cycle ((x :: inner ++ [x]).map fun y => (Sample.knot.node y).text)
          (Sample.knot.node x).location := by
  have enclosed : Sample.knot.Enclosed := ⟨by decide +kernel, by decide +kernel⟩
  have found : Sample.knot.cycleFaults = [.cycle ["E", "E"] {}, .cycle ["D", "E", "D"] {}] := by
    decide +kernel
  obtain ⟨ends, -, quiet_iff, reported⟩ := Graph.cycleFaults_sound_complete enclosed
  refine ⟨enclosed, found, ends, ?_, reported _ ?_⟩
  · by_contra none
    have quiet : Sample.knot.cycleFaults = [] := quiet_iff.mpr fun c circuit reached => by
      by_contra hasty
      exact none ⟨c, circuit, reached, fun x mem =>
        Bool.eq_false_iff.mpr fun deferred => hasty ⟨x, mem, deferred⟩⟩
    rw [found] at quiet
    cases quiet
  · rw [found]
    exact List.mem_cons_of_mem _ List.mem_cons_self

end ObjectGraph
