import Mathlib.Algebra.BigOperators.Group.Finset.Basic
import ObjectGraph.Proofs.Graph.Correspondence
import ObjectGraph.Proofs.Graph.Identity

/-
  Resolutions that ask for the same.

  Two resolutions are told to ask for the same by a translation of their providers
  (`Resolver.Translates`): what the roots need in one of them is the translation of what they need in
  the other one, and a provider and its translation give the same node with the same demands.  Then
  the graphs match (`Translates.corresponds`), in whatever order bindings and nodes were numbered.

  What takes an argument is the weight of a node.  It counts edges, so it is a sum over the nodes that
  have any (`Graph.weight_eq_sum`), and these are paired one by one.
-/

namespace ObjectGraph

open BindingTable

/-! ## The weight of a node -/

namespace Graph

variable {g h : Graph} {R : NodeId → NodeId → Prop} {i j : NodeId}

/-- Edges stand at the nodes that they leave and at those that they lead to. -/
structure Located (g : Graph) : Prop where
  size : g.edges.size = g.nodes.size
  dependents_perm : ∀ i, (g.dependents i).Perm (g.allEdges.filter (·.source == i))
  target : ∀ k, ∀ e ∈ g.dependencies k, e.target = k

/-- How much the edges that leave a node add to the weight of another one. -/
def share (g : Graph) (i k : NodeId) : Nat :=
  (g.dependencies k).countP (·.source == i) * if (g.node k).isFactory then 2 else 1

theorem countP_flatMap_range {α : Type} (n : Nat) (f : Nat → List α) (p : α → Bool) :
    ((List.range n).flatMap f).countP p = ∑ k ∈ Finset.range n, (f k).countP p := by
  rw [List.countP_flatMap, Finset.sum_eq_multiset_sum]
  rfl

theorem weight_eq_sum (located : g.Located) (i : NodeId) :
    g.weight i = ∑ k ∈ Finset.range g.nodes.size, g.share i k := by
  have each (k : NodeId) : (g.dependencies k).countP (·.source == i) +
      (g.dependencies k).countP (fun e => (g.node e.target).isFactory && (e.source == i)) =
      g.share i k := by
    have factories : (g.dependencies k).countP
        (fun e => (g.node e.target).isFactory && (e.source == i)) =
        (g.dependencies k).countP fun e => (g.node k).isFactory && (e.source == i) :=
      List.countP_congr fun e mem => by rw [located.target k e mem]
    rw [factories, share]
    cases (g.node k).isFactory <;> simp [Nat.mul_two]
  have perm := located.dependents_perm i
  rw [weight, perm.length_eq, perm.countP_eq, ← List.countP_eq_length_filter, List.countP_filter,
    g.allEdges_eq, located.size, countP_flatMap_range, countP_flatMap_range,
    ← Finset.sum_add_distrib]
  exact Finset.sum_congr rfl fun k _ => each k

/-- If all nodes with edges are paired, then so are the edges that lead to paired nodes. -/
theorem weight_eq (located : g.Located) (located' : h.Located)
    (known : ∀ {k l}, R k l → k < g.nodes.size ∧ l < h.nodes.size)
    (agrees : ∀ {k l}, R k l → (g.node k).Agrees (h.node l))
    (edges : ∀ {k l}, R k l → List.Forall₂ (Edge.Alike R) (g.dependencies k) (h.dependencies l))
    (unique : ∀ {k k' l l'}, R k l → R k' l' → (k = k' ↔ l = l'))
    (total : ∀ {k}, g.dependencies k ≠ [] → ∃ l, R k l)
    (total' : ∀ {l}, h.dependencies l ≠ [] → ∃ k, R k l) (pair : R i j) :
    g.weight i = h.weight j := by
  have share_eq {k l : NodeId} (paired : R k l) : g.share i k = h.share j l := by
    rw [share, share, (agrees paired).isFactory,
      countP_eq_of_rel (edges paired) (q := (·.source == j)) fun e e' alike => by
        rw [Bool.eq_iff_iff, beq_iff_eq, beq_iff_eq, unique alike.source pair]]
  have leaves {g : Graph} {i k : NodeId} (shares : g.share i k ≠ 0) : g.dependencies k ≠ [] := by
    intro none
    rw [share, none] at shares
    exact shares (Nat.zero_mul _)
  rw [weight_eq_sum located, weight_eq_sum located']
  refine Finset.sum_bij_ne_zero (fun k _ shares => (total (leaves shares)).choose)
    (fun k _ shares => ?_) (fun k _ shares k' _ shares' same => ?_) (fun l _ shares => ?_)
    fun k _ shares => share_eq (total (leaves shares)).choose_spec
  · exact Finset.mem_range.mpr (known (total (leaves shares)).choose_spec).2
  · exact (unique (total (leaves shares)).choose_spec (total (leaves shares')).choose_spec).mpr same
  · obtain ⟨k, paired⟩ := total' (leaves shares)
    have shares' : g.share i k ≠ 0 := share_eq paired ▸ shares
    exact ⟨k, Finset.mem_range.mpr (known paired).1, shares',
      (unique (total (leaves shares')).choose_spec paired).mp rfl⟩

end Graph

namespace Resolver

variable {r : Resolver} {t t' : BindingTable} {roots roots' : List RootDeclaration}
  {f : Provider → Provider} {p : Provider}

/-! ## Translations -/

/-- A demand and its translation: the same request, answered by the translation of the same
    provider. -/
structure TranslatesDemand (r : Resolver) (t t' : BindingTable) (f : Provider → Provider)
    (d d' : Demand) : Prop where
  request : d.request = d'.request
  isOptional : d.isOptional = d'.isOptional
  supplier : (r.supplier? t d).map f = r.supplier? t' d'

/-- What some roots need of one table is translated to what other roots need of another table. -/
structure Translates (r : Resolver) (t t' : BindingTable) (roots roots' : List RootDeclaration)
    (f : Provider → Provider) : Prop where
  reached : ∀ {p'}, r.Reached t' roots' p' ↔ ∃ p, r.Reached t roots p ∧ f p = p'
  injective : ∀ {p q}, r.Reached t roots p → r.Reached t roots q → f p = f q → p = q
  alike : ∀ {p}, r.Reached t roots p → p.binding.Alike (f p).binding
  identity : ∀ {p q}, r.Reached t roots p → r.Reached t roots q →
    (p.identity = q.identity ↔ (f p).identity = (f q).identity)
  kind : ∀ {p}, r.Reached t roots p → r.kind? t p = r.kind? t' (f p)
  demands : ∀ {p}, r.Reached t roots p →
    List.Forall₂ (TranslatesDemand r t t' f) (r.demands t p) (r.demands t' (f p))

theorem Translates.reached_translation (translates : Translates r t t' roots roots' f)
    (reached : r.Reached t roots p) : r.Reached t' roots' (f p) :=
  translates.reached.mpr ⟨p, reached, rfl⟩

/-- A translation that respects one step after the other respects what is reached. -/
theorem Translates.of_steps
    (rooted : ∀ d ∈ roots, (r.provider? t d.request false).map f = r.provider? t' d.request false)
    (injective : ∀ {p q}, r.Reached t roots p → r.Reached t roots q → f p = f q → p = q)
    (alike : ∀ {p}, r.Reached t roots p → p.binding.Alike (f p).binding)
    (identity : ∀ {p q}, r.Reached t roots p → r.Reached t roots q →
      (p.identity = q.identity ↔ (f p).identity = (f q).identity))
    (kind : ∀ {p}, r.Reached t roots p → r.kind? t p = r.kind? t' (f p))
    (demands : ∀ {p}, r.Reached t roots p →
      List.Forall₂ (TranslatesDemand r t t' f) (r.demands t p) (r.demands t' (f p))) :
    r.Translates t t' roots roots f where
  injective := injective
  alike := alike
  identity := identity
  kind := kind
  demands := demands
  reached := by
    refine fun {p'} => ⟨fun reached => ?_, ?_⟩
    · induction reached with
      | root declared answered =>
        rw [← rooted _ declared] at answered
        obtain ⟨p, provider, same⟩ := Option.map_eq_some_iff.mp answered
        exact ⟨p, .root declared provider, same⟩
      | demand _ demanded answered ih =>
        obtain ⟨p, reached, rfl⟩ := ih
        obtain ⟨d, d_mem, demand⟩ := forall₂_right (demands reached) demanded
        rw [← demand.supplier] at answered
        obtain ⟨q, supplier, same⟩ := Option.map_eq_some_iff.mp answered
        exact ⟨q, .demand reached d_mem supplier, same⟩
    · rintro ⟨p, reached, rfl⟩
      induction reached with
      | root declared answered =>
        exact .root declared (by rw [← rooted _ declared, answered]; rfl)
      | demand reached demanded answered ih =>
        obtain ⟨d', d'_mem, demand⟩ := forall₂_left (demands reached) demanded
        exact .demand ih d'_mem (by rw [← demand.supplier, answered]; rfl)

/-- The translation of a valid setup is valid. -/
theorem Translates.valid (translates : Translates r t t' roots roots f) (valid : r.Valid t roots)
    (rooted : ∀ d ∈ roots, (r.provider? t d.request false).map f = r.provider? t' d.request false) :
    r.Valid t' roots where
  built p' reached' := by
    obtain ⟨p, reached, rfl⟩ := translates.reached.mp reached'
    obtain ⟨n, built⟩ := valid.built p reached
    obtain ⟨kind, made, -⟩ := Option.map_eq_some_iff.mp built
    exact ⟨(f p).node kind, by rw [node?, ← translates.kind reached, made]; rfl⟩
  rooted d declared := by
    obtain ⟨p, provider⟩ := valid.rooted d declared
    exact ⟨f p, by rw [← rooted d declared, provider]; rfl⟩
  demanded p' reached' d' demanded required := by
    obtain ⟨p, reached, rfl⟩ := translates.reached.mp reached'
    obtain ⟨d, d_mem, demand⟩ := forall₂_right (translates.demands reached) demanded
    obtain ⟨q, supplier⟩ := valid.demanded p reached d d_mem (demand.isOptional.trans required)
    exact ⟨f q, by rw [← demand.supplier, supplier]; rfl⟩
  straight p' reached' loop := by
    obtain ⟨p, reached, rfl⟩ := translates.reached.mp reached'
    -- what the translation needs is the translation of what is needed
    have step {p : Provider} {q' : Provider} (reached : r.Reached t roots p)
        (needs : r.Needs t' (f p) q') : ∃ q, r.Needs t p q ∧ r.Reached t roots q ∧ f q = q' := by
      obtain ⟨⟨n', built, hasty⟩, d', demanded, supplier⟩ := needs
      obtain ⟨kind, made, rfl⟩ := Option.map_eq_some_iff.mp built
      obtain ⟨d, d_mem, demand⟩ := forall₂_right (translates.demands reached) demanded
      rw [← demand.supplier] at supplier
      obtain ⟨q, supplier, same⟩ := Option.map_eq_some_iff.mp supplier
      have built : r.node? t p = some (p.node kind) := by
        rw [node?, translates.kind reached, made]
        rfl
      exact ⟨q, ⟨⟨_, built, hasty⟩, d, d_mem, supplier⟩, .demand reached d_mem supplier, same⟩
    have path : ∀ q', Relation.TransGen (r.Needs t') (f p) q' →
        ∃ q, Relation.TransGen (r.Needs t) p q ∧ r.Reached t roots q ∧ f q = q' := by
      intro q' path
      induction path with
      | single needs =>
        obtain ⟨q, needs, reached, same⟩ := step reached needs
        exact ⟨q, .single needs, reached, same⟩
      | tail _ needs ih =>
        obtain ⟨q, path, q_reached, rfl⟩ := ih
        obtain ⟨q', needs, reached, same⟩ := step q_reached needs
        exact ⟨q', path.tail needs, reached, same⟩
    obtain ⟨q, path, q_reached, same⟩ := path (f p) loop
    cases translates.injective q_reached reached same
    exact valid.straight _ reached path

section Collected

variable {tab tab' : BindingTable} {kind k k' : Node.Kind} (collected : Collected r t tab kind k)
  (collected' : Collected r t' tab' kind k')
  (demands : List.Forall₂ (TranslatesDemand r t t' f) (r.demandsOf t kind) (r.demandsOf t' kind))
include collected collected' demands

theorem requests_eq : k.requests.map (·.1) = k'.requests.map (·.1) := by
  have requests {t tab : BindingTable} {k : Node.Kind} (collected : Collected r t tab kind k) :
      (r.demandsOf t kind).map (·.request) = k.requests.map (·.1) :=
    map_eq_of_rel collected.met fun _ _ _ _ met => met.1.symm
  rw [← requests collected, ← requests collected']
  exact map_eq_of_rel demands fun _ _ _ _ pair => pair.request

/-- Kinds of node that were filled in for the same requests differ in where the items come from. -/
theorem unpinned_eq : k.unpinned = k'.unpinned := by
  have same := requests_eq collected collected' demands
  have bare := collected.bare.trans collected'.bare.symm
  cases k with
  | provide q =>
    cases k' with
    | provide q' =>
      simp only [Node.Kind.bare, Node.Kind.provide.injEq, Provision.mk.injEq, and_true] at bare
      simp only [Node.Kind.requests, List.map_map] at same
      have items := congrArg (List.map fun q : Request => (q, 0)) same
      rw [List.map_map, List.map_map] at items
      simp only [Node.Kind.unpinned, Provision.unpinned, Node.Kind.provide.injEq, Provision.mk.injEq]
      exact ⟨bare.1, bare.2, items⟩
    | construct | factory | outside => cases bare
  | construct | factory | outside => cases k' <;> first | exact bare | cases bare

end Collected

/-- The nodes that two resolutions have selected for a provider and its translation. -/
def Paired (r : Resolver) (t : BindingTable) (roots : List RootDeclaration)
    (f : Provider → Provider) (st st' : Resolution) (i j : NodeId) : Prop :=
  ∃ p, r.Reached t roots p ∧ Selected r st p (some i) ∧ Selected r st' (f p) (some j)

section Finished

variable {s s' : Setup} {st st' : Resolution} {done done' : List Provider} {taken taken' : Taken}
  {xs xs' : List (Option NodeId)} {i j : NodeId}

theorem Finished.located (finished : Finished r t s st done taken xs) (roots : List Root) :
    (graph s roots taken st).Located where
  size := by simp [graph]
  dependents_perm := dependents_perm fun e mem => by
    obtain ⟨i, edge⟩ := Graph.mem_allEdges_iff.mp mem
    obtain ⟨p, n, slot, d, p', -, -, -, -, -, -, selected, -⟩ := finished.edge edge
    obtain ⟨-, n', found, -⟩ := finished.chosen selected
    exact (Array.getElem?_eq_some_iff.mp found).1
  target k e mem := by
    obtain ⟨p, selected⟩ := finished.exists_selected_of_dependencies mem
    obtain ⟨n, ys, found, -, -, eq⟩ := finished.dependencies_eq roots selected
    obtain ⟨_, books, -⟩ := finished.drains.books
    rw [eq] at mem
    obtain ⟨_, slot, source, -, -, rfl⟩ := mem_edgesTo.mp mem
    exact books.numbered k n found

variable (finished : Finished r (register s) s st done taken xs)
  (finished' : Finished r (register s') s' st' done' taken' xs')
  (translates : Translates r (register s) (register s') s.roots s'.roots f)
include finished finished' translates

/-- What was selected for a provider has its counterpart. -/
theorem Translates.exists_paired (selected : Selected r st p (some i)) :
    ∃ j, Selected r st' (f p) (some j) := by
  obtain ⟨reached, n, -, stands⟩ := finished.chosen selected
  obtain ⟨kind, made, -⟩ := stands.kind
  refine finished'.node_of_reached (translates.reached_translation reached)
    (n := (f p).node kind) ?_
  rw [node?, ← translates.kind reached, made]
  rfl

/-- So has what was selected for a translation. -/
theorem Translates.exists_paired' (reached : r.Reached (register s) s.roots p)
    (selected : Selected r st' (f p) (some j)) : ∃ i, Selected r st p (some i) := by
  obtain ⟨-, n, -, stands⟩ := finished'.chosen selected
  obtain ⟨kind, made, -⟩ := stands.kind
  refine finished.node_of_reached reached (n := p.node kind) ?_
  rw [node?, translates.kind reached, made]
  rfl

/-- A supplier and its translation fill a slot with nodes that are paired, or not at all. -/
theorem Translates.supplies {d d' : Demand} {x x' : Option NodeId}
    (reached : r.Reached (register s) s.roots p) (demanded : d ∈ r.demands (register s) p)
    (demand : TranslatesDemand r (register s) (register s') f d d')
    (supplies : Supplies r (register s) st d x) (supplies' : Supplies r (register s') st' d' x') :
    Option.Rel (Paired r (register s) s.roots f st st') x x' := by
  unfold Supplies at supplies supplies'
  rw [← demand.supplier] at supplies'
  cases supplier : r.supplier? (register s) d with
  | none =>
    rw [supplier] at supplies supplies'
    rw [supplies, show x' = none from supplies']
    exact .none
  | some q =>
    rw [supplier] at supplies supplies'
    have q_reached : r.Reached (register s) s.roots q := .demand reached demanded supplier
    cases x with
    | none =>
      cases x' with
      | none => exact .none
      | some j =>
        obtain ⟨i, selected⟩ := translates.exists_paired' finished finished' q_reached supplies'
        cases selected.unique supplies
    | some i =>
      obtain ⟨j, selected⟩ := translates.exists_paired finished finished' supplies
      cases selected.unique supplies'
      exact .some ⟨q, q_reached, supplies, selected⟩

end Finished

/-! ## The graphs match -/

/-- Slots with the same requests that are filled by nodes that are paired, or not at all, have edges
    that are alike. -/
theorem edgesTo_alike {R : NodeId → NodeId → Prop} {n n' : Node} {slots slots' : List Slot}
    {ys ys' : List (Option NodeId)} (alike : List.Forall₂ (fun slot slot' : Slot =>
      slot.index = slot'.index ∧ slot.request = slot'.request) slots slots')
    (filled : List.Forall₂ (Option.Rel R) ys ys') :
    List.Forall₂ (Edge.Alike R) (edgesTo n slots ys) (edgesTo n' slots' ys') := by
  induction alike generalizing ys ys' with
  | nil => exact .nil
  | cons same _ ih =>
    cases filled with
    | nil => exact .nil
    | cons pair others =>
      refine List.rel_append ?_ (ih others)
      cases pair with
      | none => exact .nil
      | some paired => exact .cons ⟨same.1, same.2, paired⟩ .nil

/-- Nodes with the same requests have the same slots, but for what is pinned. -/
theorem slots_alike {n n' : Node}
    (requests : n.kind.requests.map (·.1) = n'.kind.requests.map (·.1)) :
    List.Forall₂ (fun slot slot' : Slot => slot.index = slot'.index ∧ slot.request = slot'.request)
      n.slots n'.slots := by
  have lengths : n.kind.requests.length = n'.kind.requests.length := by
    simpa using congrArg List.length requests
  refine List.forall₂_iff_get.mpr ⟨by simp [Node.slots, lengths], fun i lt lt' => ?_⟩
  simp only [Node.slots, List.get_eq_getElem, List.getElem_mapIdx, true_and]
  simp only [Node.slots, List.length_mapIdx] at lt lt'
  have at_i := congrArg (·[i]?) requests
  simpa [lt, lt'] using at_i

section Finished

variable {s s' : Setup} {st st' : Resolution} {done done' : List Provider} {taken taken' : Taken}
  {xs xs' : List (Option NodeId)} {i j : NodeId}
  (finished : Finished r (register s) s st done taken xs)
  (finished' : Finished r (register s') s' st' done' taken' xs')
  (translates : Translates r (register s) (register s') s.roots s'.roots f)
include finished finished' translates

theorem Translates.agrees (pair : Paired r (register s) s.roots f st st' i j) :
    ∃ n n', st.nodes[i]? = some n ∧ st'.nodes[j]? = some n' ∧ n.Agrees n' ∧
      n.kind.requests.map (·.1) = n'.kind.requests.map (·.1) := by
  obtain ⟨p, reached, selected, selected'⟩ := pair
  obtain ⟨n, b, found, stands, -, represents, alike⟩ := finished.represents selected
  obtain ⟨n', b', found', stands', -, represents', alike'⟩ := finished'.represents selected'
  have renamed := translates.alike reached
  have demands := translates.demands reached
  obtain ⟨kind, made, collected⟩ := stands.kind
  obtain ⟨kind', made', collected'⟩ := stands'.kind
  cases made.symm.trans ((translates.kind reached).trans made')
  rw [Resolver.demands, Resolver.demands, made, made'] at demands
  refine ⟨n, n', found, found', ⟨?_, ?_, unpinned_eq collected collected' demands⟩, ?_⟩
  · have lifetime := congrArg Prod.fst represents.profile
    have lifetime' := congrArg Prod.fst represents'.profile
    exact lifetime.trans (((alike.lifetime.trans renamed.lifetime).trans
      alike'.lifetime.symm).trans lifetime'.symm)
  · rw [stands.contract, stands'.contract, renamed.contract]
  · exact requests_eq collected collected' demands

theorem Translates.edges (pair : Paired r (register s) s.roots f st st' i j)
    (roots roots' : List Root) :
    List.Forall₂ (Edge.Alike (Paired r (register s) s.roots f st st'))
      ((graph s roots taken st).dependencies i) ((graph s' roots' taken' st').dependencies j) := by
  obtain ⟨n, n', found, found', -, requests⟩ := translates.agrees finished finished' pair
  obtain ⟨p, reached, selected, selected'⟩ := pair
  obtain ⟨m, ys, at_i, -, supplies, eq⟩ := finished.dependencies_eq roots selected
  obtain ⟨m', ys', at_j, -, supplies', eq'⟩ := finished'.dependencies_eq roots' selected'
  cases found.symm.trans at_i
  cases found'.symm.trans at_j
  rw [eq, eq']
  refine edgesTo_alike (slots_alike requests) ?_
  -- one slot after the other is filled by the translation of its supplier
  have each : ∀ {ds ds' : List Demand} {ys ys' : List (Option NodeId)},
      (∀ d ∈ ds, d ∈ r.demands (register s) p) →
      List.Forall₂ (TranslatesDemand r (register s) (register s') f) ds ds' →
      List.Forall₂ (Supplies r (register s) st) ds ys →
      List.Forall₂ (Supplies r (register s') st') ds' ys' →
      List.Forall₂ (Option.Rel (Paired r (register s) s.roots f st st')) ys ys' := by
    intro ds ds' ys ys' demanded translated supplies supplies'
    induction translated generalizing ys ys' with
    | nil =>
      cases supplies
      cases supplies'
      exact .nil
    | cons demand _ ih =>
      cases supplies with
      | cons first rest =>
        cases supplies' with
        | cons first' rest' =>
          exact .cons (translates.supplies finished finished' reached
            (demanded _ List.mem_cons_self) demand first first')
            (ih (fun d mem => demanded d (List.mem_cons_of_mem _ mem)) rest rest')
  exact each (fun _ => id) (translates.demands reached) supplies supplies'

/-- The graphs of resolutions that ask for the same match. -/
theorem Translates.corresponds (roots roots' : List Root) :
    (graph s roots taken st).Matches (graph s' roots' taken' st')
      (Paired r (register s) s.roots f st st') := by
  obtain ⟨asked, books, -⟩ := finished.drains.books
  obtain ⟨asked', books', -⟩ := finished'.drains.books
  have agrees {i j : NodeId} (pair : Paired r (register s) s.roots f st st' i j) :
      ∃ n n', st.nodes[i]? = some n ∧ st'.nodes[j]? = some n' ∧ n.Agrees n' := by
    obtain ⟨n, n', found, found', agrees, -⟩ := translates.agrees finished finished' pair
    exact ⟨n, n', found, found', agrees⟩
  have known {i j : NodeId} (pair : Paired r (register s) s.roots f st st' i j) :
      i < st.nodes.size ∧ j < st'.nodes.size := by
    obtain ⟨n, n', found, found', -⟩ := agrees pair
    exact ⟨(Array.getElem?_eq_some_iff.mp found).1, (Array.getElem?_eq_some_iff.mp found').1⟩
  have alike {i j : NodeId} (pair : Paired r (register s) s.roots f st st' i j) :
      ((graph s roots taken st).node i).Agrees ((graph s' roots' taken' st').node j) := by
    obtain ⟨n, n', found, found', agrees⟩ := agrees pair
    rw [node_graph found, node_graph found']
    exact agrees
  have unique {i i' j j' : NodeId} (pair : Paired r (register s) s.roots f st st' i j)
      (pair' : Paired r (register s) s.roots f st st' i' j') : i = i' ↔ j = j' := by
    obtain ⟨p, reached, selected, selected'⟩ := pair
    obtain ⟨q, q_reached, q_selected, q_selected'⟩ := pair'
    constructor
    · rintro rfl
      cases books.provider_unique selected q_selected
      exact Option.some.inj (selected'.unique q_selected')
    · rintro rfl
      cases translates.injective reached q_reached (books'.provider_unique selected' q_selected')
      exact Option.some.inj (selected.unique q_selected)
  refine ⟨known, alike, fun pair => ?_, fun pair => translates.edges finished finished' pair _ _,
    unique, ?_⟩
  · refine Graph.weight_eq (finished.located roots) (finished'.located roots') known alike
      (fun pair => translates.edges finished finished' pair _ _) unique (fun {k} leaves => ?_)
      (fun {l} leaves => ?_) pair
    · obtain ⟨e, mem⟩ := List.exists_mem_of_ne_nil _ leaves
      obtain ⟨p, selected⟩ := finished.exists_selected_of_dependencies mem
      obtain ⟨l, selected'⟩ := translates.exists_paired finished finished' selected
      exact ⟨l, p, (finished.chosen selected).1, selected, selected'⟩
    · obtain ⟨e, mem⟩ := List.exists_mem_of_ne_nil _ leaves
      obtain ⟨p', selected'⟩ := finished'.exists_selected_of_dependencies mem
      obtain ⟨p, reached, rfl⟩ := translates.reached.mp (finished'.chosen selected').1
      obtain ⟨k, selected⟩ := translates.exists_paired' finished finished' reached selected'
      exact ⟨k, p, reached, selected, selected'⟩
  · rintro i i' j j' ⟨p, reached, selected, selected'⟩ ⟨q, q_reached, q_selected, q_selected'⟩
    obtain ⟨-, n, found, -⟩ := finished.chosen selected
    obtain ⟨-, m, m_found, -⟩ := finished.chosen q_selected
    obtain ⟨-, n', found', -⟩ := finished'.chosen selected'
    obtain ⟨-, m', m_found', -⟩ := finished'.chosen q_selected'
    rw [node_graph found, node_graph m_found, node_graph found', node_graph m_found',
      finished.key_eq_iff selected found q_selected m_found,
      finished'.key_eq_iff selected' found' q_selected' m_found']
    exact translates.identity reached q_reached

end Finished

end Resolver

end ObjectGraph
