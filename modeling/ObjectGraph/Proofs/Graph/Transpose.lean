import Mathlib.Data.List.Sort
import ObjectGraph.Graph.Resolution

/-
  The edges by the nodes that they lead to.

  The table of these edges is filled edge by edge: each one is put down behind those that lead to the
  same node (`getD_foldl_enter`).  So it holds every edge once, at the node that it leads to, and
  sorting changes nothing about that (`incoming_perm`).  Edges that come in order already, as those
  of a graph do, are not moved at all (`getD_incoming`).
-/

namespace ObjectGraph

namespace Edge

variable {table : Array (List Edge)} {e e' : Edge} {es : List Edge} {size : Nat} {i : NodeId}

theorem cmp_eq_lt_iff : e.cmp e' = .lt ↔
    e.target < e'.target ∨ e.target = e'.target ∧ e.slot < e'.slot := by
  rw [cmp, Ordering.then_eq_lt, Nat.compare_eq_lt, Nat.compare_eq_eq, Nat.compare_eq_lt]

/-- An edge comes before another one, or in its place. -/
abbrev Le (e e' : Edge) : Prop := e.cmp e' ≠ .gt

theorem place_eq_orderedInsert (e : Edge) (es : List Edge) : e.place es = es.orderedInsert Le e := by
  induction es with
  | nil => rfl
  | cons e' es ih => rw [place, List.orderedInsert_cons, ih, ite_not]

theorem sort_eq_insertionSort (es : List Edge) : sort es = es.insertionSort Le := by
  induction es with
  | nil => rfl
  | cons e es ih => rw [sort, List.insertionSort_cons, ih, place_eq_orderedInsert]

@[simp] theorem size_enter (table : Array (List Edge)) (e : Edge) :
    (enter table e).size = table.size := Array.size_modify ..

/-- An edge is put down at the node that it leads to, and nowhere else. -/
theorem getD_enter (lt : i < table.size) : (enter table e).getD i [] =
    if e.source = i then table.getD i [] ++ [e] else table.getD i [] := by
  rw [Array.getD_eq_getD_getElem?, enter, Array.getElem?_modify, Array.getElem?_eq_getElem lt]
  split <;> simp

/-- All edges that lead to a node are put down there, in the order in which they come. -/
theorem getD_foldl_enter (lt : i < table.size) (es : List Edge) :
    (es.foldl enter table).getD i [] = table.getD i [] ++ es.filter (·.source == i) := by
  induction es generalizing table with
  | nil => simp
  | cons e es ih =>
    rw [List.foldl_cons, ih (by rwa [size_enter]), getD_enter lt, List.filter_cons]
    by_cases leads : e.source = i <;> simp [leads]

@[simp] theorem size_foldl_enter (table : Array (List Edge)) (es : List Edge) :
    (es.foldl enter table).size = table.size := by
  induction es generalizing table with
  | nil => rfl
  | cons e es ih => rw [List.foldl_cons, ih, size_enter]

/-- The table holds the edges that lead to a node, sorted. -/
theorem getD_incoming_eq_sort (lt : i < size) :
    (incoming size es).getD i [] = sort (es.filter (·.source == i)) := by
  have inside : i < (Array.replicate size ([] : List Edge)).size := by simpa using lt
  have filled := getD_foldl_enter inside es
  have none : (Array.replicate size ([] : List Edge)).getD i [] = [] := by
    simp [Array.getD_eq_getD_getElem?, lt]
  rw [none, List.nil_append] at filled
  rw [← filled]
  simp [incoming, Array.getD_eq_getD_getElem?, lt]

/-- Nothing leads to what is not a node. -/
theorem getD_incoming_of_le (le : size ≤ i) : (incoming size es).getD i [] = [] := by
  simp [incoming, Array.getD_eq_getD_getElem?, Nat.not_lt.mpr le]

/-- Each edge is entered once, at the node that it leads to. -/
theorem incoming_perm (inside : ∀ e ∈ es, e.source < size) (i : NodeId) :
    ((incoming size es).getD i []).Perm (es.filter (·.source == i)) := by
  rcases Nat.lt_or_ge i size with lt | ge
  · rw [getD_incoming_eq_sort lt, sort_eq_insertionSort]
    exact List.perm_insertionSort ..
  · rw [getD_incoming_of_le ge, List.filter_eq_nil_iff.mpr]
    intro e mem leads
    have lt := inside e mem
    rw [beq_iff_eq.mp leads] at lt
    exact absurd lt (Nat.not_lt.mpr ge)

/-- Edges that come in order are not moved. -/
theorem getD_incoming (inside : ∀ e ∈ es, e.source < size)
    (ordered : es.Pairwise fun e e' => e.cmp e' = .lt) (i : NodeId) :
    (incoming size es).getD i [] = es.filter (·.source == i) := by
  rcases Nat.lt_or_ge i size with lt | ge
  · rw [getD_incoming_eq_sort lt, sort_eq_insertionSort]
    refine List.Pairwise.insertionSort_eq ((ordered.filter _).imp fun less => ?_)
    rw [Le, less]
    exact nofun
  · have perm := incoming_perm inside i
    rw [getD_incoming_of_le ge] at perm ⊢
    exact perm.nil_eq

end Edge

namespace Graph

variable {g : Graph} {e : Edge}

/-- All edges are those that leave the nodes, one node after the other. -/
theorem allEdges_eq (g : Graph) :
    g.allEdges = (List.range g.edges.size).flatMap g.dependencies := by
  have all : (List.range g.edges.size).map g.dependencies = g.edges.toList := by
    refine List.ext_getElem (by simp) fun i lt lt' => ?_
    have inside : i < g.edges.size := by simpa using lt'
    simp [dependencies, Array.getD_eq_getD_getElem?, inside]
  rw [allEdges, ← all, List.flatMap_def]

theorem lt_of_mem_dependencies {i : NodeId} (mem : e ∈ g.dependencies i) : i < g.edges.size := by
  by_contra outside
  simp [dependencies, Array.getD_eq_getD_getElem?, outside] at mem

theorem mem_allEdges_iff : e ∈ g.allEdges ↔ ∃ i, e ∈ g.dependencies i := by
  rw [allEdges_eq, List.mem_flatMap]
  exact exists_congr fun i =>
    and_iff_right_of_imp fun mem => List.mem_range.mpr (lt_of_mem_dependencies mem)

end Graph

namespace Resolver

variable {s : Setup} {roots : List Root} {taken : Taken} {st : Resolution}

/-- The table of the edges that lead to the nodes of a graph is made of all its edges. -/
theorem incoming_graph : (graph s roots taken st).incoming =
    Edge.incoming st.nodes.size (graph s roots taken st).allEdges := by
  rw [Graph.allEdges, graph, List.toList_toArray]

/-- The edges that lead to a node of a graph are those of all edges that do. -/
theorem dependents_perm (inside : ∀ e ∈ (graph s roots taken st).allEdges, e.source < st.nodes.size)
    (i : NodeId) : ((graph s roots taken st).dependents i).Perm
      ((graph s roots taken st).allEdges.filter (·.source == i)) := by
  rw [Graph.dependents, incoming_graph]
  exact Edge.incoming_perm inside i

end Resolver

end ObjectGraph
