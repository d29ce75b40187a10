import Mathlib.Logic.Relation
import Mathlib.Data.List.Flatten
import Mathlib.Data.List.Nodup
import Mathlib.Data.List.Perm.Subperm
import ObjectGraph.Proofs.Graph.Transpose

/-
  The search for cycles finds none exactly when there is none.

  A node `Leads` to what fills its slots, unless it is deferred.  `cycles_eq_nil_iff` says that the
  search reports nothing exactly when no node that the roots reach leads back to itself.

  The search is the usual one: a node that was entered and left again leads to nodes that were left
  before it.  So as long as nothing is reported, all that one can be led to from a node that was
  left is a well-founded matter, and `Acc` is the form in which `Fits` keeps this fact.  The other
  direction needs no more than the path: every node on it leads to the current one.

  Both limits of the search are met.  The depth is, since each level enters a new node.  The rounds
  are, since entering a node pays for the starts that it adds with its own edges (`budget`).
-/

namespace ObjectGraph

namespace Graph

/-- A node leads to another one that fills a slot of it, if it is not deferred. -/
def Leads (g : Graph) (x y : NodeId) : Prop :=
  (g.node x).isDeferred = false ∧ ∃ e ∈ g.dependencies x, e.source = y

/-- The nodes that answer the roots, and all that fills a slot of such a node. -/
inductive Reachable (g : Graph) : NodeId → Prop where
  | root {root : Root} (known : root ∈ g.roots) : Reachable g root.node
  | edge {x : NodeId} {e : Edge} (reached : Reachable g x) (mem : e ∈ g.dependencies x) :
      Reachable g e.source

/-- A node that can be reached leads back to itself. -/
def Looped (g : Graph) : Prop := ∃ x, g.Reachable x ∧ Relation.TransGen g.Leads x x

end Graph

namespace CycleSearch

variable {g : Graph} {st st' st'' : CycleSearch} {path waiting : List NodeId} {x node : NodeId}

/-! ## What the search may still add to its starts -/

/-- The number of edges that leave nodes not entered yet. -/
def budget (g : Graph) (entered : List NodeId) : Nat :=
  (((List.range g.edges.size).filter (· ∉ entered)).flatMap g.dependencies).length


theorem budget_nil (g : Graph) : budget g [] = g.allEdges.length := by
  have whole : (List.range g.edges.size).filter (· ∉ ([] : List NodeId)) =
      List.range g.edges.size := List.filter_eq_self.mpr (by simp)
  rw [budget, whole, g.allEdges_eq]

/-- Entering a node takes its edges out of the budget. -/
theorem budget_cons (g : Graph) {entered : List NodeId} (new : x ∉ entered) :
    (g.dependencies x).length + budget g (x :: entered) ≤ budget g entered := by
  cases edges : g.dependencies x with
  | nil =>
    -- nothing is taken out, and nothing is added either
    have sub : ((List.range g.edges.size).filter (· ∉ x :: entered)).Sublist
        ((List.range g.edges.size).filter (· ∉ entered)) := by
      refine List.monotone_filter_right _ fun y stays => ?_
      simp only [decide_eq_true_eq, List.mem_cons, not_or] at stays ⊢
      exact stays.2
    rw [List.length_nil, Nat.zero_add]
    exact (sub.flatMap g.dependencies).length_le
  | cons e rest =>
    have lt : x < g.edges.size :=
      Graph.lt_of_mem_dependencies (edges ▸ List.mem_cons_self)
    have mem : x ∈ (List.range g.edges.size).filter (· ∉ entered) := by
      simp [lt, new]
    have split : ((List.range g.edges.size).filter (· ∉ x :: entered)) =
        ((List.range g.edges.size).filter (· ∉ entered)).erase x := by
      rw [List.Nodup.erase_eq_filter (List.nodup_range.filter _), List.filter_filter]
      refine List.filter_congr fun y _ => ?_
      simp only [List.mem_cons, not_or, Bool.decide_and, decide_not, bne, beq_eq_decide]
    have perm := (List.perm_cons_erase mem).flatMap_right g.dependencies
    have length := perm.length_eq
    rw [List.flatMap_cons, List.length_append] at length
    rw [← edges, budget, budget, split]
    exact Nat.le_of_eq length.symm

/-! ## The invariant -/

/-- Nodes that were entered, or will be. -/
def Seen (waiting : List NodeId) (st : CycleSearch) (x : NodeId) : Prop :=
  x ∈ st.entered ∨ x ∈ st.starts ∨ x ∈ waiting

/-- A state of the search on the way along `path`, with the nodes `waiting` about to be entered.
    The nodes that were entered and are not on the path any more are the ones that were left. -/
structure Fits (g : Graph) (path waiting : List NodeId) (st : CycleSearch) : Prop where
  nodup : st.entered.Nodup
  on_path : ∀ x ∈ path, x ∈ st.entered
  entered_reachable : ∀ x ∈ st.entered, g.Reachable x
  starts_reachable : ∀ x ∈ st.starts, g.Reachable x
  roots_seen : ∀ root ∈ g.roots, Seen waiting st root.node
  next_seen : ∀ x ∈ st.entered, x ∉ path → ∀ e ∈ g.dependencies x, Seen waiting st e.source
  safe : st.cycles = [] → ∀ x ∈ st.entered, x ∉ path → Acc (fun y x => g.Leads x y) x
  looped : st.cycles ≠ [] → g.Looped

/-- What the search keeps: nothing is forgotten, and new starts are paid for. -/
structure Grown (g : Graph) (st st' : CycleSearch) : Prop where
  entered : st.entered ⊆ st'.entered
  length_le : st.entered.length ≤ st'.entered.length
  quiet : st'.cycles = [] → st.cycles = []
  paid : st'.starts.length + budget g st'.entered ≤ st.starts.length + budget g st.entered

theorem Grown.refl (g : Graph) (st : CycleSearch) : Grown g st st :=
  ⟨List.Subset.refl _, Nat.le_refl _, id, Nat.le_refl _⟩

theorem Grown.trans (first : Grown g st st') (second : Grown g st' st'') : Grown g st st'' :=
  ⟨fun _ mem => second.entered (first.entered mem),
    Nat.le_trans first.length_le second.length_le,
    fun quiet => first.quiet (second.quiet quiet),
    Nat.le_trans second.paid first.paid⟩

/-- A node that was entered need not wait any longer. -/
theorem Fits.settle (fits : Fits g path [x] st) (entered : x ∈ st.entered) :
    Fits g path [] st := by
  have seen : ∀ y, Seen [x] st y → Seen [] st y := by
    intro y seen
    rcases seen with known | known | waits
    · exact .inl known
    · exact .inr (.inl known)
    · rw [List.mem_singleton] at waits
      exact .inl (waits ▸ entered)
  exact { fits with
    roots_seen := fun root known => seen _ (fits.roots_seen root known)
    next_seen := fun y mem left e edge => seen _ (fits.next_seen y mem left e edge) }

theorem Fits.await (fits : Fits g path [] st) (x : NodeId) : Fits g path [x] st := by
  have seen : ∀ y, Seen [] st y → Seen [x] st y := fun y seen =>
    seen.imp id (Or.imp id nofun)
  exact { fits with
    roots_seen := fun root known => seen _ (fits.roots_seen root known)
    next_seen := fun y mem left e edge => seen _ (fits.next_seen y mem left e edge) }

/-- A node that was waiting is entered, and becomes part of the path. -/
theorem Fits.enter (fits : Fits g path [node] st) (new : node ∉ st.entered)
    (reached : g.Reachable node) :
    Fits g (node :: path) [] { st with entered := node :: st.entered } := by
  have seen : ∀ y, Seen [node] st y → Seen [] { st with entered := node :: st.entered } y := by
    intro y seen
    rcases seen with known | known | waits
    · exact .inl (List.mem_cons_of_mem _ known)
    · exact .inr (.inl known)
    · rw [List.mem_singleton] at waits
      exact .inl (waits ▸ List.mem_cons_self)
  have old : ∀ y ∈ node :: st.entered, y ∉ node :: path → y ∈ st.entered ∧ y ∉ path := by
    intro y mem left
    rw [List.mem_cons, not_or] at left
    exact ⟨(List.mem_cons.mp mem).resolve_left left.1, left.2⟩
  exact {
    nodup := List.nodup_cons.mpr ⟨new, fits.nodup⟩
    on_path := by
      intro y mem
      rcases List.mem_cons.mp mem with rfl | mem
      · exact List.mem_cons_self
      · exact List.mem_cons_of_mem _ (fits.on_path y mem)
    entered_reachable := by
      intro y mem
      rcases List.mem_cons.mp mem with rfl | mem
      · exact reached
      · exact fits.entered_reachable y mem
    starts_reachable := fits.starts_reachable
    roots_seen := fun root known => seen _ (fits.roots_seen root known)
    next_seen := fun y mem left e edge => by
      obtain ⟨entered, off⟩ := old y mem left
      exact seen _ (fits.next_seen y entered off e edge)
    safe := fun quiet y mem left => by
      obtain ⟨entered, off⟩ := old y mem left
      exact fits.safe quiet y entered off
    looped := fits.looped }

/-- The last node of the path is left, once all that it leads to was entered and lies off the
    path. -/
theorem Fits.leave (fits : Fits g (node :: path) [] st)
    (next : ∀ e ∈ g.dependencies node, Seen [] st e.source)
    (safe : st.cycles = [] → Acc (fun y x => g.Leads x y) node) : Fits g path [] st :=
  { fits with
    on_path := fun y mem => fits.on_path y (List.mem_cons_of_mem _ mem)
    next_seen := fun y mem left => by
      by_cases same : y = node
      · exact same ▸ next
      · exact fits.next_seen y mem (by simp [same, left])
    safe := fun quiet y mem left => by
      by_cases same : y = node
      · exact same ▸ safe quiet
      · exact fits.safe quiet y mem (by simp [same, left]) }

/-- An edge back to the path is reported. -/
theorem Fits.report (fits : Fits g path [] st) (looped : g.Looped) (c : Cycle) :
    Fits g path [] { st with cycles := st.cycles ++ [c] } :=
  { fits with
    safe := fun quiet => absurd quiet (by simp)
    looped := fun _ => looped }

/-- A deferred node is left at once, and what it leads to is added to the starts. -/
theorem Fits.defer (fits : Fits g (node :: path) [] st) (reached : g.Reachable node)
    (deferred : (g.node node).isDeferred = true) :
    Fits g path [] { st with starts := st.starts ++ (g.dependencies node).map (·.source) } := by
  have seen : ∀ y, Seen [] st y → Seen []
      { st with starts := st.starts ++ (g.dependencies node).map (·.source) } y :=
    fun y seen => seen.imp id (Or.imp (List.mem_append_left _) id)
  have longer : Fits g (node :: path) []
      { st with starts := st.starts ++ (g.dependencies node).map (·.source) } :=
    { fits with
      starts_reachable := by
        intro y mem
        rcases List.mem_append.mp mem with mem | mem
        · exact fits.starts_reachable y mem
        · obtain ⟨e, edge, rfl⟩ := List.mem_map.mp mem
          exact reached.edge edge
      roots_seen := fun root known => seen _ (fits.roots_seen root known)
      next_seen := fun y mem left e edge => seen _ (fits.next_seen y mem left e edge) }
  refine longer.leave (fun e edge => ?_) fun _ => ⟨_, fun y leads => ?_⟩
  · exact .inr (.inl (List.mem_append_right _ (List.mem_map_of_mem edge)))
  · rw [leads.1] at deferred
    cases deferred

/-! ## The search keeps it -/

/-- One edge of the search: it closes a cycle, leads to a node that was entered before, or is
    followed. -/
def follow (g : Graph) (depth : Nat) (path : List NodeId) (st : CycleSearch) (source : NodeId) :
    CycleSearch :=
  if source ∈ path then { st with cycles := st.cycles ++ [closing path source] }
  else if source ∈ st.entered then st
  else explore g depth path st source

theorem explore_succ (g : Graph) (depth : Nat) (path : List NodeId) (st : CycleSearch)
    (node : NodeId) : explore g (depth + 1) path st node =
      if (g.node node).isDeferred then
        { st with
          entered := node :: st.entered
          starts := st.starts ++ (g.dependencies node).map (·.source) }
      else ((g.dependencies node).map (·.source)).foldl (follow g depth (node :: path))
        { st with entered := node :: st.entered } := rfl

/-- Exploring to a depth keeps the invariant and enters the node, as long as the depth suffices
    for the nodes that are still new. -/
def Explores (g : Graph) (depth : Nat) : Prop :=
  ∀ {path st node}, Fits g path [node] st → node ∉ st.entered → g.Reachable node →
    (∀ p ∈ path, Relation.TransGen g.Leads p node) →
    g.nodes.size < depth + st.entered.length →
    Fits g path [] (explore g depth path st node) ∧
      node ∈ (explore g depth path st node).entered ∧
      Grown g st (explore g depth path st node)

theorem follow_fits {depth : Nat} (explores : Explores g depth) (fits : Fits g path [] st)
    (reached : g.Reachable x) (chain : ∀ p ∈ path, Relation.TransGen g.Leads p x)
    (deep : g.nodes.size < depth + st.entered.length) :
    Fits g path [] (follow g depth path st x) ∧ Grown g st (follow g depth path st x) ∧
      x ∈ (follow g depth path st x).entered ∧
      ((follow g depth path st x).cycles = [] → x ∉ path) := by
  unfold follow
  split
  · rename_i back
    refine ⟨fits.report ⟨x, reached, chain x back⟩ _,
      ⟨List.Subset.refl _, Nat.le_refl _, ?_, Nat.le_refl _⟩, fits.on_path x back, ?_⟩
    · exact fun quiet => absurd quiet (by simp)
    · exact fun quiet => absurd quiet (by simp)
  · rename_i off
    split
    · rename_i known
      exact ⟨fits, .refl g st, known, fun _ => off⟩
    · rename_i unknown
      obtain ⟨fits', entered, grown⟩ := explores (fits.await x) unknown reached chain deep
      exact ⟨fits', grown, entered, fun _ => off⟩

/-- Following all edges that leave the last node of the path. -/
theorem followAll_fits {depth : Nat} (explores : Explores g depth) (reached : g.Reachable node)
    (chain : ∀ p ∈ path, Relation.TransGen g.Leads p node) (sources : List NodeId) :
    ∀ {st}, Fits g (node :: path) [] st → (∀ y ∈ sources, g.Leads node y) →
      g.nodes.size < depth + st.entered.length →
      Fits g (node :: path) [] (sources.foldl (follow g depth (node :: path)) st) ∧
        Grown g st (sources.foldl (follow g depth (node :: path)) st) ∧
        ∀ y ∈ sources, y ∈ (sources.foldl (follow g depth (node :: path)) st).entered ∧
          ((sources.foldl (follow g depth (node :: path)) st).cycles = [] →
            y ∉ node :: path) := by
  induction sources with
  | nil => intro st fits _ _; exact ⟨fits, .refl g st, nofun⟩
  | cons y rest ih =>
    intro st fits led deep
    have step : g.Leads node y := led y List.mem_cons_self
    have reached_y : g.Reachable y := by
      obtain ⟨-, e, edge, rfl⟩ := step
      exact reached.edge edge
    have chain_y : ∀ p ∈ node :: path, Relation.TransGen g.Leads p y := by
      intro p mem
      rcases List.mem_cons.mp mem with rfl | mem
      · exact .single step
      · exact .tail (chain p mem) step
    obtain ⟨fits₁, grown₁, entered, off⟩ := follow_fits explores fits reached_y chain_y deep
    obtain ⟨fits₂, grown₂, all⟩ := ih fits₁ (fun z mem => led z (List.mem_cons_of_mem _ mem))
      (Nat.lt_of_lt_of_le deep (Nat.add_le_add_left grown₁.length_le depth))
    rw [List.foldl_cons]
    refine ⟨fits₂, grown₁.trans grown₂, fun z mem => ?_⟩
    rcases List.mem_cons.mp mem with rfl | mem
    · exact ⟨grown₂.entered entered, fun quiet => off (grown₂.quiet quiet)⟩
    · exact all z mem

/-- The search below a node keeps the invariant, by induction on the levels that are left. -/
theorem explore_fits (inside : ∀ x, g.Reachable x → x < g.nodes.size) (depth : Nat) :
    Explores g depth := by
  induction depth with
  | zero =>
    -- no more nodes are entered than there are
    intro path st node fits _ _ _ deep
    have sub : st.entered ⊆ List.range g.nodes.size := fun x mem =>
      List.mem_range.mpr (inside x (fits.entered_reachable x mem))
    have le := (fits.nodup.subperm sub).length_le
    rw [List.length_range] at le
    omega
  | succ depth ih =>
    intro path st node fits new reached chain deep
    have entered := fits.enter new reached
    have paid := budget_cons g new
    rw [explore_succ]
    split
    · rename_i deferred
      refine ⟨entered.defer reached deferred, List.mem_cons_self,
        ⟨List.subset_cons_self _ _, Nat.le_succ _, id, ?_⟩⟩
      simp only [List.length_append, List.length_map]
      omega
    · rename_i hasty
      have leads : ∀ y ∈ (g.dependencies node).map (·.source), g.Leads node y := by
        intro y mem
        obtain ⟨e, edge, rfl⟩ := List.mem_map.mp mem
        exact ⟨by simpa using hasty, e, edge, rfl⟩
      obtain ⟨fits', grown, all⟩ := followAll_fits ih reached chain _ entered leads
        (by simp only [List.length_cons]; omega)
      have entering : Grown g st { st with entered := node :: st.entered } :=
        ⟨List.subset_cons_self _ _, Nat.le_succ _, id, by
          show st.starts.length + budget g (node :: st.entered) ≤ _
          omega⟩
      refine ⟨fits'.leave (fun e edge => .inl (all _ (List.mem_map_of_mem edge)).1) ?_,
        grown.entered List.mem_cons_self, entering.trans grown⟩
      -- nothing was reported, so each node that this one leads to was left before it
      refine fun quiet => ⟨_, fun y step => ?_⟩
      obtain ⟨-, e, edge, rfl⟩ := step
      obtain ⟨known, off⟩ := all _ (List.mem_map_of_mem edge)
      exact fits'.safe quiet _ known (off quiet)

/-- The search ends with nothing left to start from. -/
theorem run_fits (inside : ∀ x, g.Reachable x → x < g.nodes.size) (rounds : Nat) :
    ∀ {st}, Fits g [] [] st → st.starts.length + budget g st.entered < rounds →
      Fits g [] [] (run g rounds st) ∧ (run g rounds st).starts = [] := by
  induction rounds with
  | zero => intro st _ enough; omega
  | succ rounds ih =>
    intro st fits enough
    unfold run
    split
    · rename_i done
      exact ⟨fits, done⟩
    · rename_i start rest starts
      rw [starts, List.length_cons] at enough
      have waits : Fits g [] [start] { st with starts := rest } := by
        have seen : ∀ y, Seen [] st y → Seen [start] { st with starts := rest } y := by
          intro y seen
          rcases seen with known | known | waits
          · exact .inl known
          · rw [starts] at known
            rcases List.mem_cons.mp known with rfl | known
            · exact .inr (.inr List.mem_cons_self)
            · exact .inr (.inl known)
          · cases waits
        exact { fits with
          starts_reachable := fun y mem =>
            fits.starts_reachable y (starts ▸ List.mem_cons_of_mem _ mem)
          roots_seen := fun root known => seen _ (fits.roots_seen root known)
          next_seen := fun y mem left e edge => seen _ (fits.next_seen y mem left e edge) }
      show Fits g [] [] (if start ∈ st.entered then _ else _) ∧
        CycleSearch.starts (if start ∈ st.entered then _ else _) = []
      split
      · rename_i known
        refine ih (waits.settle known) ?_
        show rest.length + budget g st.entered < rounds
        omega
      · rename_i unknown
        have reached := fits.starts_reachable start (starts ▸ List.mem_cons_self)
        obtain ⟨fits', -, grown⟩ := explore_fits inside (g.nodes.size + 1) waits unknown reached
          nofun (by omega)
        refine ih fits' (Nat.lt_of_le_of_lt grown.paid ?_)
        show rest.length + budget g st.entered < rounds
        omega

/-- At its start, the search has the roots to start from. -/
theorem fits_start (g : Graph) : Fits g [] [] { starts := g.roots.map (·.node) } where
  nodup := List.nodup_nil
  on_path := nofun
  entered_reachable := nofun
  starts_reachable := by
    intro x mem
    obtain ⟨root, known, rfl⟩ := List.mem_map.mp mem
    exact .root known
  roots_seen := fun root known => .inr (.inl (List.mem_map_of_mem known))
  next_seen := nofun
  safe := fun _ => nofun
  looped := fun some => absurd rfl some

theorem search_fits (inside : ∀ x, g.Reachable x → x < g.nodes.size) :
    Fits g [] [] (run g (g.roots.length + g.allEdges.length + 1)
        { starts := g.roots.map (·.node) }) ∧
      (run g (g.roots.length + g.allEdges.length + 1)
        { starts := g.roots.map (·.node) }).starts = [] :=
  run_fits inside _ (fits_start g) (by simp only [budget_nil, List.length_map]; omega)

end CycleSearch

/-- The search for cycles reports none exactly when no node that the roots reach leads back to
    itself. -/
theorem Graph.cycles_eq_nil_iff {g : Graph} (inside : ∀ x, g.Reachable x → x < g.nodes.size) :
    g.cycles = [] ↔ ¬ g.Looped := by
  obtain ⟨fits, done⟩ := CycleSearch.search_fits inside
  constructor
  · rintro quiet ⟨x, reached, loop⟩
    have entered : ∀ y, g.Reachable y → y ∈ (CycleSearch.run g
        (g.roots.length + g.allEdges.length + 1) { starts := g.roots.map (·.node) }).entered := by
      intro y reached
      have seen : CycleSearch.Seen [] (CycleSearch.run g
          (g.roots.length + g.allEdges.length + 1) { starts := g.roots.map (·.node) }) y := by
        induction reached with
        | root known => exact fits.roots_seen _ known
        | edge _ mem ih =>
          rcases ih with known | waits | waits
          · exact fits.next_seen _ known nofun _ mem
          · rw [done] at waits; cases waits
          · cases waits
      rcases seen with known | waits | waits
      · exact known
      · rw [done] at waits; cases waits
      · cases waits
    have acc := (fits.safe quiet x (entered x reached) nofun).transGen
    have straight : ¬ Relation.TransGen (fun y x => g.Leads x y) x x := by
      clear loop reached
      induction acc with
      | intro x _ ih => exact fun loop => ih x loop loop
    exact straight (Relation.transGen_swap.mpr loop)
  · intro straight
    by_contra reported
    exact straight (fits.looped reported)

end ObjectGraph
