import ObjectGraph.Proofs.Plan.Outside
import ObjectGraph.Proofs.Plan.Shape
import ObjectGraph.Proofs.Plan.Termination

/-
  Every visit of a graph plans the same.

  A later visit finds the storages of singletons and of values from outside where the first one had
  to make them, so its variables refer to others where those of the first visit stood for themselves.
  The plans do not show it.  A graph matches itself, so the walks through one root run in lockstep
  from whatever earlier visits have left (`Graph.Matches.tour_mirrors`), and what they tell of the
  variables is the same: their nodes, and which of them share their storages.

  Only for a value from outside do the walks in lockstep leave open which node its variable is of.
  But such a value has one variable in all visits (`Graph.Toured.outside_unique`).
-/

namespace ObjectGraph

open Arena

/-- An instantiation of a plan without the numbers of variables: the node, and the slots with what
    they request and with the places where what is handed in is made. -/
def Plan.layoutOf (a : Arena) (p : Plan) (i : Instantiation) :
    NodeId × List (Nat × Request × List (Nat × Nat)) :=
  ((a.var i.target).node, i.supplies.map fun s => (s.slot, s.request, p.places a s.var))

/-- A plan without the numbers of variables: block by block the node that it makes, and the
    instantiations in order. -/
def Plan.layout (a : Arena) (p : Plan) :
    List (NodeId × List (NodeId × List (Nat × Request × List (Nat × Nat)))) :=
  p.blocks.map fun b => ((a.var b.root).node, b.instantiations.map (p.layoutOf a))

namespace Graph

variable {g : Graph} {a : Arena} {legs : List Leg} {l l' : Leg}

/-- A graph matches itself. -/
theorem Uniform.matches_self (uniform : g.Uniform) :
    g.Matches g fun i j => i = j ∧ i < g.nodes.size where
  known := by
    rintro i _ ⟨rfl, lt⟩
    exact ⟨lt, lt⟩
  agrees := by
    rintro i _ ⟨rfl, -⟩
    exact ⟨rfl, rfl, rfl⟩
  weight := by
    rintro i _ ⟨rfl, -⟩
    rfl
  edges := by
    rintro i _ ⟨rfl, -⟩
    exact List.forall₂_same.mpr fun e mem => ⟨rfl, rfl, rfl, uniform.source_lt i e mem⟩
  unique := by
    rintro i i' _ _ ⟨rfl, -⟩ ⟨rfl, -⟩
    rfl
  key := by
    rintro i i' _ _ ⟨rfl, -⟩ ⟨rfl, -⟩
    rfl

/-! ## One root -/

/-- What is made later does not change the layout of a plan. -/
theorem Toured.layout_eq (uniform : g.Uniform) (toured : g.Toured legs a) (mem : l ∈ legs) :
    l.tour.plan.layout a = l.tour.plan.layout l.tour.arena := by
  have sound := toured.sound uniform mem
  have grows := toured.extends_of_mem uniform mem
  have lt := sound.consistent.due_lt
  obtain ⟨w, explained⟩ := toured.explained uniform mem
  refine List.map_congr_left fun b b_mem => ?_
  have root := grows.node (lt _ (Block.root_mem_targets b_mem (explained.fills b b_mem).1))
  have made : b.instantiations.map (l.tour.plan.layoutOf a) =
      b.instantiations.map (l.tour.plan.layoutOf l.tour.arena) := by
    refine List.map_congr_left fun i i_mem => ?_
    have i_mem : i ∈ l.tour.plan.instantiations := List.mem_flatMap.mpr ⟨b, b_mem, i_mem⟩
    have target := grows.node (lt _ (List.mem_map_of_mem i_mem))
    have supplies : i.supplies.map (fun s => (s.slot, s.request, l.tour.plan.places a s.var)) =
        i.supplies.map fun s => (s.slot, s.request, l.tour.plan.places l.tour.arena s.var) :=
      List.map_congr_left fun s s_mem => by
        rw [Plan.places_extends sound.consistent.linked (toured.rested uniform).1.linked grows lt
          (sound.provided i i_mem s s_mem).1]
    rw [Plan.layoutOf, Plan.layoutOf, target, supplies]
  rw [root, made]

/-- Variables of two walks that stand for each other are of one node. -/
theorem Toured.node_eq_of_stands (uniform : g.Uniform) (toured : g.Toured legs a) (mem : l ∈ legs)
    (mem' : l' ∈ legs) {x y : VariableId} (made : x ∈ l.tour.plan.targets)
    (made' : y ∈ l'.tour.plan.targets)
    (stands : g.Stands g (fun i j => i = j ∧ i < g.nodes.size) (l.tour.arena.var x).node
      (l'.tour.arena.var y).node) :
    (l.tour.arena.var x).node = (l'.tour.arena.var y).node := by
  obtain ⟨eq, -⟩ | ⟨outside, -, i, _, ⟨rfl, -⟩, key, key'⟩ := stands
  · exact eq
  · have grows := toured.extends_of_mem uniform mem
    have grows' := toured.extends_of_mem uniform mem'
    have x_lt := (toured.sound uniform mem).consistent.due_lt x made
    have y_lt := (toured.sound uniform mem').consistent.due_lt y made'
    have same : x = y := by
      refine toured.outside_unique uniform (Nat.lt_of_lt_of_le x_lt grows.size_le)
        (Nat.lt_of_lt_of_le y_lt grows'.size_le) ?_ ?_
      · rw [Arena.Inside, grows.node_eq x_lt, Bool.not_eq_false]
        exact outside
      · rw [grows.node_eq x_lt, grows'.node_eq y_lt]
        exact key.trans key'.symm
    subst same
    rw [← grows.node x_lt, ← grows'.node y_lt]

/-- The walks through one root have plans of one layout, whatever was walked before. -/
theorem Toured.layout_eq_of_root (uniform : g.Uniform) (toured : g.Toured legs a) (mem : l ∈ legs)
    (mem' : l' ∈ legs) (same : l.tour.root = l'.tour.root) :
    l.tour.plan.layout a = l'.tour.plan.layout a := by
  obtain ⟨rested, known, limit, ends⟩ := toured.exists_tour uniform mem
  obtain ⟨rested', known', limit', ends'⟩ := toured.exists_tour uniform mem'
  obtain ⟨first, last, traced⟩ := toured.traced uniform mem
  obtain ⟨first', last', traced'⟩ := toured.traced uniform mem'
  obtain ⟨m, mirrors⟩ := uniform.matches_self.tour_mirrors uniform uniform rested rested' known
    known' ⟨congrArg Root.node same, uniform.root_lt _ known⟩ ends ends'
  have blocks := mirrors.plan_blocks uniform uniform traced traced'
  have node {x y : VariableId} (made : x ∈ l.tour.plan.targets) (made' : y ∈ l'.tour.plan.targets)
      (pair : m x y) : (l.tour.arena.var x).node = (l'.tour.arena.var y).node :=
    toured.node_eq_of_stands uniform mem mem' made made' (mirrors.stands pair)
  obtain ⟨w, explained⟩ := toured.explained uniform mem
  obtain ⟨w', explained'⟩ := toured.explained uniform mem'
  rw [toured.layout_eq uniform mem, toured.layout_eq uniform mem']
  refine map_eq_of_rel blocks fun b b_mem b' b_mem' alike => ?_
  have root := node (Block.root_mem_targets b_mem (explained.fills b b_mem).1)
    (Block.root_mem_targets b_mem' (explained'.fills b' b_mem').1) alike.root
  have made : b.instantiations.map (l.tour.plan.layoutOf l.tour.arena) =
      b'.instantiations.map (l'.tour.plan.layoutOf l'.tour.arena) := by
    refine map_eq_of_rel alike.instantiations fun i i_mem i' i_mem' pair => ?_
    have target := node (List.mem_map_of_mem (List.mem_flatMap.mpr ⟨b, b_mem, i_mem⟩))
      (List.mem_map_of_mem (List.mem_flatMap.mpr ⟨b', b_mem', i_mem'⟩)) pair.target
    have supplies :
        i.supplies.map (fun s => (s.slot, s.request, l.tour.plan.places l.tour.arena s.var)) =
          i'.supplies.map
            (fun s => (s.slot, s.request, l'.tour.plan.places l'.tour.arena s.var)) :=
      map_eq_of_rel pair.supplies fun s _ s' _ alike => by
        rw [alike.slot, alike.request, Plan.places_eq blocks mirrors.ends alike.var]
    rw [Plan.layoutOf, Plan.layoutOf, target, supplies]
  rw [root, made]

/-! ## All roots -/

/-- The first visit that is not cancelled finds an empty arena. -/
theorem Visits.starts (visits : g.Visits legs a) :
    legs = [] ∧ a = {} ∨ ∃ rest, legs = g.legsOf false {} ++ rest := by
  induction visits with
  | start => exact .inl ⟨rfl, rfl⟩
  | @visit legs a isCancelled v earlier ends ih =>
    obtain ⟨rfl, rfl⟩ | ⟨rest, rfl⟩ := ih
    · cases cancelled : isCancelled && !g.roots.isEmpty with
      | true =>
        rw [Graph.visit, if_pos cancelled] at ends
        cases ends
        rw [legsOf, if_pos cancelled]
        exact .inl ⟨rfl, rfl⟩
      | false =>
        refine .inr ⟨[], ?_⟩
        rw [List.append_nil, List.nil_append, legsOf, legsOf, cancelled]
        rfl
    · exact .inr ⟨rest ++ g.legsOf isCancelled a, by rw [List.append_assoc]⟩

/-- A visit that is not cancelled walks the roots in order. -/
theorem roots_legsOf {v : Visit} (ends : g.visit false a = some v) :
    (g.legsOf false a).map (·.tour.root) = g.roots := by
  obtain ⟨⟨tours, a'⟩, walked, -⟩ := Option.bind_eq_some_iff.mp ends
  rw [legsOf, Bool.false_and, if_neg Bool.false_ne_true, walked]
  have roots := congrArg (List.map Tour.root) (g.tour_legsFrom (a := a) tours)
  rw [List.map_map, tours_roots walked] at roots
  exact roots

/-- A visit of a resolved graph that is not cancelled comes to its end, with plans. -/
theorem exists_visit (resolved : g.IsResolved) (rested : Rested g a) :
    ∃ v plans, g.visit false a = some v ∧ v.result = .ok plans := by
  obtain ⟨tours, a', walked, -⟩ := tours_end resolved.founded g.roots rested fun _ mem => mem
  let journal := (tours.map (Tour.journal g)).foldl (· ++ ·) #[]
  refine ⟨⟨.ok (tours.map Tour.plan), a', journal⟩, tours.map Tour.plan, ?_, rfl⟩
  show Option.bind (g.tours g.walkLimit a g.roots) _ = _
  rw [walked]
  rfl

/-- The plans of a visit are those of the roots in order. -/
theorem names_of_visit {v : Visit} {plans : List Plan} (ends : g.visit false a = some v)
    (ok : v.result = .ok plans) : plans.map (·.name) = g.roots.map (·.name) := by
  rw [← plans_legsOf ends ok, ← roots_legsOf ends, List.map_map, List.map_map]
  rfl

/-- After any visits of a resolved graph over one arena, be they complete or cancelled, the next one
    plans as the first one does: for each root the same blocks, with the same nodes instantiated in
    the same order, and with the same places where what is handed in is made. -/
theorem visit_layout_eq (resolved : g.IsResolved) (visits : g.Visits legs a) :
    ∃ first plans next plans', g.visit false {} = some first ∧ first.result = .ok plans ∧
      g.visit false a = some next ∧ next.result = .ok plans' ∧
      plans.map (·.name) = g.roots.map (·.name) ∧
      plans'.map (fun p => (p.name, p.layout next.arena)) =
        plans.map fun p => (p.name, p.layout first.arena) := by
  have uniform := resolved.uniform
  obtain ⟨first, plans, ends, ok⟩ := exists_visit resolved (rested_empty g)
  obtain ⟨next, plans', ends', ok'⟩ := exists_visit resolved (visits.toured.rested uniform)
  refine ⟨first, plans, next, plans', ends, ok, ends', ok', names_of_visit ends ok, ?_⟩
  have alone : g.Toured (g.legsOf false {}) first.arena := by
    have toured := (Visits.visit .start ends).toured
    rwa [List.nil_append] at toured
  have both := (Visits.visit visits ends').toured
  have within : ∀ l ∈ g.legsOf false {}, l ∈ legs ++ g.legsOf false a := by
    intro l mem
    obtain ⟨rfl, rfl⟩ | ⟨rest, rfl⟩ := visits.starts
    · exact mem
    · exact List.mem_append_left _ (List.mem_append_left _ mem)
  have paired : List.Forall₂ (fun l' l : Leg => l'.tour.root = l.tour.root) (g.legsOf false a)
      (g.legsOf false {}) := by
    have roots := (roots_legsOf ends').trans (roots_legsOf ends).symm
    rwa [← List.forall₂_eq_eq_eq, List.forall₂_map_left_iff, List.forall₂_map_right_iff] at roots
  rw [← plans_legsOf ends ok, ← plans_legsOf ends' ok', List.map_map, List.map_map]
  refine map_eq_of_rel paired fun l' mem' l mem same => ?_
  have layout := both.layout_eq_of_root uniform (List.mem_append_right legs mem') (within l mem) same
  rw [both.layout_eq uniform (within l mem), ← alone.layout_eq uniform mem] at layout
  exact Prod.ext (congrArg Root.name same) layout

/-- The second visit finds the singleton and the value from outside of the first one, and makes the
    same of them. -/
theorem visit_layout_eq_mixed : Sample.mixed.IsResolved ∧ ∃ legs a, Sample.mixed.Visits legs a ∧
    legs.length = 2 ∧ a.stored.length = 2 ∧ ∃ first plans next plans',
      Sample.mixed.visit false {} = some first ∧ first.result = .ok plans ∧
      Sample.mixed.visit false a = some next ∧ next.result = .ok plans' ∧
      plans.map (·.name) = Sample.mixed.roots.map (·.name) ∧
      plans'.map (fun p => (p.name, p.layout next.arena)) =
        plans.map fun p => (p.name, p.layout first.arena) := by
  have resolved : Sample.mixed.IsResolved := Sample.isResolved _ (by decide +kernel)
  obtain ⟨v, ends, kept⟩ := (Option.any_eq_true _ _).mp
    (show (Sample.mixed.visit false {}).any (fun v => v.arena.stored.length == 2) = true by
      decide +kernel)
  exact ⟨resolved, _, _, .visit .start ends, by decide +kernel, beq_iff_eq.mp kept,
    visit_layout_eq resolved (.visit .start ends)⟩

end Graph

end ObjectGraph
