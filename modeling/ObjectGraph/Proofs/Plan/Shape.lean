import ObjectGraph.Plan.Annotate
import ObjectGraph.Proofs.Graph.Identity
import ObjectGraph.Proofs.Plan.Makers

/-
  The shape of a plan: what it makes in which order, and from what, without any numbers.

  An instantiation is told by the type that is bound, the type of its instance and its slots, and what
  is handed in for a slot by the places of the plan where the value is made.  A value from outside is
  kept from root to root as an instance of the node that used it first, which may stand for another
  type that the same declaration binds; so the bound type is left out for values from outside.

  The walks through roots whose nodes stand for each other have plans of one shape, whatever was
  walked before (`Graph.Matches.shape_eq`).
-/

namespace ObjectGraph

open Arena

/-- An instantiation without the numbers of variables and nodes. -/
structure Instantiation.Shape where
  /-- The bound type; none for a value from outside. -/
  contract : Option TypeTerm
  /-- The type of the instance. -/
  type : TypeTerm
  /-- The slots with what they request and with the places where what is handed in is made. -/
  supplies : List (Nat × Request × List (Nat × Nat))
  deriving DecidableEq

/-- The places of a plan, by block and index, where the value that a variable stands for is made. -/
def Plan.places (a : Arena) (p : Plan) (v : VariableId) : List (Nat × Nat) :=
  p.blocks.zipIdx.flatMap fun (b, index) =>
    (b.instantiations.zipIdx.filter fun (m, _) => a.terminal m.target == a.terminal v).map
      fun (_, place) => (index, place)

/-- The bound type of the node of a variable, unless its value comes from outside. -/
def Arena.contract? (g : Graph) (a : Arena) (v : VariableId) : Option TypeTerm :=
  if (a.node g v).isOutside then none else some (a.node g v).contract

/-- The shape of one instantiation of a plan. -/
def Plan.shapeOf (g : Graph) (a : Arena) (p : Plan) (i : Instantiation) : Instantiation.Shape where
  contract := a.contract? g i.target
  type := (a.node g i.target).instanceType
  supplies := i.supplies.map fun s => (s.slot, s.request, p.places a s.var)

/-- The shape of a plan, block by block. -/
def Plan.shape (g : Graph) (a : Arena) (p : Plan) : List (List Instantiation.Shape) :=
  p.blocks.map fun b => b.instantiations.map (p.shapeOf g a)

variable {g h : Graph} {R : NodeId → NodeId → Prop} {m : Pairing} {a a' before before' : Arena}

/-! ## Plans that mirror each other -/

/-- Where a value is made depends on which variables share their storages only. -/
theorem Plan.places_eq {p p' : Plan} (blocks : List.Forall₂ (Block.Alike m) p.blocks p'.blocks)
    (ends : ∀ {x y x' y'}, m x y → m x' y' →
      (a.terminal x = a.terminal x' ↔ a'.terminal y = a'.terminal y'))
    {v v' : VariableId} (pair : m v v') : p.places a v = p'.places a' v' := by
  refine congrArg List.flatten (map_eq_of_rel (rel_zipIdx blocks 0) ?_)
  rintro ⟨b, index⟩ - ⟨b', _⟩ - ⟨alike, rfl⟩
  have made : List.Forall₂ (fun x y : Instantiation × Nat => Instantiation.Alike m x.1 y.1 ∧
        x.2 = y.2)
      (b.instantiations.zipIdx.filter fun (m, _) => a.terminal m.target == a.terminal v)
      (b'.instantiations.zipIdx.filter fun (m, _) => a'.terminal m.target == a'.terminal v') := by
    refine List.rel_filter ?_ (rel_zipIdx alike.instantiations 0)
    rintro ⟨i, _⟩ ⟨i', _⟩ ⟨alike, -⟩
    simpa using ends alike.target pair
  refine map_eq_of_rel made ?_
  rintro ⟨i, place⟩ - ⟨i', _⟩ - ⟨-, rfl⟩
  rfl

/-- What instances are of, for variables of nodes that stand for each other. -/
theorem Graph.Stands.instanceType_eq (corresponds : g.Matches h R) (resolved : g.IsResolved)
    (resolved' : h.IsResolved) {i j : NodeId} (stands : g.Stands h R i j) (i_lt : i < g.nodes.size)
    (j_lt : j < h.nodes.size) : (g.node i).instanceType = (h.node j).instanceType := by
  have outside_builtin {n : Node} (outside : n.isOutside = true) : n.builtin? = none := by
    unfold Node.isOutside at outside
    unfold Node.builtin?
    split <;> simp_all
  obtain pair | ⟨outside, outside', i', j', pair, key, key'⟩ := stands
  · exact (corresponds.agrees pair).instanceType
  · obtain ⟨i'_lt, j'_lt⟩ := corresponds.known pair
    rw [((resolved.instanceType_eq_iff i_lt i'_lt key).2).mpr (.inl (outside_builtin outside)),
      ((resolved'.instanceType_eq_iff j_lt j'_lt key').2).mpr (.inl (outside_builtin outside'))]
    exact (corresponds.agrees pair).instanceType

theorem Graph.Stands.contract?_eq (corresponds : g.Matches h R) {x y : VariableId}
    (stands : g.Stands h R (a.var x).node (a'.var y).node) :
    a.contract? g x = a'.contract? h y := by
  unfold Arena.contract? Arena.node
  rw [stands.isOutside corresponds]
  split
  · rfl
  · rename_i inside
    have inside := (stands.isOutside corresponds).trans (Bool.eq_false_iff.mpr inside)
    rw [(corresponds.agrees (stands.inside inside)).contract]

/-- Walks that mirror each other have plans of one shape. -/
theorem Tour.Mirrors.shape_eq (corresponds : g.Matches h R) (resolved : g.IsResolved)
    (resolved' : h.IsResolved) {t t' : Tour} {first last first' last' : Walk}
    (traced : t.Traced g before first last) (traced' : t'.Traced h before' first' last')
    (mirrors : t.Mirrors g h R m t') : t.plan.shape g t.arena = t'.plan.shape h t'.arena := by
  have blocks := mirrors.plan_blocks resolved.uniform resolved'.uniform traced traced'
  have c := (traced.leg_sound resolved.uniform).consistent
  have c' := (traced'.leg_sound resolved'.uniform).consistent
  refine map_eq_of_rel blocks fun b b_mem b' b_mem' alike =>
    map_eq_of_rel alike.instantiations fun i mem i' mem' pair => ?_
  have made : i.target ∈ t.plan.targets :=
    List.mem_map_of_mem (List.mem_flatMap.mpr ⟨b, b_mem, mem⟩)
  have made' : i'.target ∈ t'.plan.targets :=
    List.mem_map_of_mem (List.mem_flatMap.mpr ⟨b', b_mem', mem'⟩)
  have stands := mirrors.stands pair.target
  refine Instantiation.Shape.mk.injEq .. |>.mpr ⟨stands.contract?_eq corresponds, ?_, ?_⟩
  · exact stands.instanceType_eq corresponds resolved resolved'
      (c.node_lt _ (c.due_lt _ made)) (c'.node_lt _ (c'.due_lt _ made'))
  · refine map_eq_of_rel pair.supplies fun s _ s' _ paired => ?_
    rw [paired.slot, paired.request, Plan.places_eq blocks mirrors.ends paired.var]

/-! ## Shapes last -/

/-- What is made later does not change the places where a value is made. -/
theorem Plan.places_extends {p : Plan} (linked : a.Linked) (linked' : a'.Linked)
    (grows : a.Extends a') (inside : ∀ v ∈ p.targets, v < a.vars.size) {v : Nat}
    (lt : v < a.vars.size) : p.places a' v = p.places a v := by
  refine congrArg List.flatten (List.map_congr_left fun (b, index) mem => ?_)
  refine congrArg (List.map _) (List.filter_congr fun (i, place) mem' => ?_)
  have made := inside i.target (List.mem_map_of_mem (List.mem_flatMap.mpr
    ⟨b, List.fst_mem_of_mem_zipIdx mem, List.fst_mem_of_mem_zipIdx mem'⟩))
  dsimp only
  rw [grows.terminal_eq linked linked' _ made, grows.terminal_eq linked linked' v lt]

/-- What is made later does not change the shape of a plan. -/
theorem Plan.shape_extends {p : Plan} (linked : a.Linked) (linked' : a'.Linked)
    (grows : a.Extends a') (inside : ∀ i ∈ p.instantiations, i.target < a.vars.size ∧
      ∀ s ∈ i.supplies, s.var < a.vars.size) : p.shape g a' = p.shape g a := by
  have made : ∀ v ∈ p.targets, v < a.vars.size := by
    intro v made
    obtain ⟨i, mem, rfl⟩ := List.mem_map.mp made
    exact (inside i mem).1
  refine List.map_congr_left fun b b_mem => List.map_congr_left fun i mem => ?_
  obtain ⟨lt, handed⟩ := inside i (List.mem_flatMap.mpr ⟨b, b_mem, mem⟩)
  refine Instantiation.Shape.mk.injEq .. |>.mpr ⟨?_, ?_, List.map_congr_left fun s s_mem => ?_⟩
  · rw [Arena.contract?, grows.node_eq lt, ← Arena.contract?]
  · rw [grows.node_eq lt]
  · rw [Plan.places_extends linked linked' grows made (handed s s_mem)]

@[simp] theorem Plan.instantiations_annotate (ts : TypeOracle) (threadSafe : Bool) (p : Plan) :
    (p.annotate ts threadSafe g a).instantiations = p.instantiations := by
  simp only [instantiations, annotate, List.flatMap_map, Block.annotate]

/-- The steps of the generated code do not count. -/
@[simp] theorem Plan.shape_annotate (ts : TypeOracle) (threadSafe : Bool) (p : Plan) :
    (p.annotate ts threadSafe g a).shape g a = p.shape g a := by
  have places (v : VariableId) : (p.annotate ts threadSafe g a).places a v = p.places a v := by
    simp [places, annotate, List.zipIdx_map, List.flatMap_map, Block.annotate]
  have shapes : (p.annotate ts threadSafe g a).shapeOf g a = p.shapeOf g a := by
    funext i
    simp only [shapeOf, places]
  rw [shape, shapes, annotate, List.map_map]
  rfl

theorem Graph.Toured.shape_eq (uniform : g.Uniform) {legs : List Leg} (toured : g.Toured legs a)
    {l : Leg} (mem : l ∈ legs) : l.tour.plan.shape g a = l.tour.plan.shape g l.tour.arena := by
  have sound := toured.sound uniform mem
  exact Plan.shape_extends sound.consistent.linked (toured.rested uniform).1.linked
    (toured.extends_of_mem uniform mem) fun i i_mem =>
      ⟨sound.consistent.due_lt _ (List.mem_map_of_mem i_mem),
        fun s s_mem => (sound.provided i i_mem s s_mem).1⟩

/-- Roots whose nodes stand for each other have plans of one shape, in whatever course of visits. -/
theorem Graph.Matches.shape_eq (corresponds : g.Matches h R) (resolved : g.IsResolved)
    (resolved' : h.IsResolved) {legs legs' : List Leg} (toured : g.Toured legs a)
    (toured' : h.Toured legs' a') {l l' : Leg} (mem : l ∈ legs) (mem' : l' ∈ legs')
    (pair : R l.tour.root.node l'.tour.root.node) :
    l.tour.plan.shape g a = l'.tour.plan.shape h a' := by
  have uniform := resolved.uniform
  have uniform' := resolved'.uniform
  obtain ⟨rested, known, limit, ends⟩ := toured.exists_tour uniform mem
  obtain ⟨rested', known', limit', ends'⟩ := toured'.exists_tour uniform' mem'
  obtain ⟨first, last, traced⟩ := toured.traced uniform mem
  obtain ⟨first', last', traced'⟩ := toured'.traced uniform' mem'
  obtain ⟨m, mirrors⟩ := corresponds.tour_mirrors uniform uniform' rested rested' known known' pair
    ends ends'
  rw [toured.shape_eq uniform mem, toured'.shape_eq uniform' mem']
  exact mirrors.shape_eq corresponds resolved resolved' traced traced'

end ObjectGraph
