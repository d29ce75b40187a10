import ObjectGraph.Proofs.Graph.Resolution
import ObjectGraph.Proofs.Lists
import ObjectGraph.Proofs.Plan.Consistency

/-
  Graphs that are the same but for their numbers.

  Two resolutions may number bindings and nodes in different ways and still agree in all that counts.
  `Graph.Matches` says so of the nodes that a relation pairs: they agree in what they are, in the
  slots that are filled and in their weight, and the relation respects which nodes share a storage
  key.  It says nothing of nodes that are not paired, such as the variants that are not used.

  A value from outside is kept from root to root under its storage key, so that a later root meets it
  as an instance of another node of that key.  `Graph.Matches.Stands` is the wider relation of what
  variables are instances of.
-/

namespace ObjectGraph

/-- What the compiler provides, without the bindings that the items of a collection come from. -/
def Provision.unpinned (p : Provision) : Provision :=
  { p with items := p.items.map fun item => (item.1, 0) }

/-- A kind of node without these bindings. -/
def Node.Kind.unpinned : Node.Kind → Node.Kind
  | .provide p => .provide p.unpinned
  | kind => kind

/-- Edges that fill the same slot by nodes that stand for each other. -/
structure Edge.Alike (R : NodeId → NodeId → Prop) (e e' : Edge) : Prop where
  slot : e.slot = e'.slot
  request : e.request = e'.request
  source : R e.source e'.source

/-- Nodes that are what they are for one another, apart from all numbers. -/
structure Node.Agrees (n n' : Node) : Prop where
  lifetime : n.lifetime = n'.lifetime
  contract : n.contract = n'.contract
  kind : n.kind.unpinned = n'.kind.unpinned

namespace Node.Agrees

variable {n n' : Node}

/-- Nodes agree in both directions. -/
theorem symm (agrees : n.Agrees n') : n'.Agrees n :=
  ⟨agrees.lifetime.symm, agrees.contract.symm, agrees.kind.symm⟩

/-- What can be told of a kind of node without its items is the same. -/
theorem of_kind {α : Type} (agrees : n.Agrees n') {f : Node.Kind → α}
    (itemless : ∀ kind, f kind.unpinned = f kind) : f n.kind = f n'.kind := by
  rw [← itemless, agrees.kind, itemless]

/-- Both come from outside or neither does. -/
theorem isOutside (agrees : n.Agrees n') : n.isOutside = n'.isOutside :=
  agrees.of_kind (f := fun k => ({ n with kind := k } : Node).isOutside) fun k => by cases k <;> rfl

/-- Both wait for their dependencies or neither does. -/
theorem isDeferred (agrees : n.Agrees n') : n.isDeferred = n'.isDeferred :=
  agrees.of_kind (f := fun k => ({ n with kind := k } : Node).isDeferred) fun k => by
    cases k <;> rfl

theorem isFactory (agrees : n.Agrees n') : n.isFactory = n'.isFactory :=
  agrees.of_kind (f := fun k => ({ n with kind := k } : Node).isFactory) fun k => by cases k <;> rfl

/-- Their instances are of the same type. -/
theorem instanceType (agrees : n.Agrees n') : n.instanceType = n'.instanceType :=
  agrees.of_kind (f := fun k => ({ n with kind := k } : Node).instanceType) fun k => by
    cases k <;> rfl

theorem isEnumerable (agrees : n.Agrees n') : n.isEnumerable = n'.isEnumerable :=
  agrees.of_kind (f := fun k => ({ n with kind := k } : Node).isEnumerable) fun k => by
    cases k <;> rfl

/-- Both are shared or neither is. -/
theorem isShared (agrees : n.Agrees n') : n.isShared = n'.isShared := by
  rw [Node.isShared, Node.isShared, agrees.isOutside, agrees.lifetime]

end Node.Agrees

namespace Graph

/-- The nodes of two graphs that `R` pairs are the same but for their numbers. -/
structure Matches (g h : Graph) (R : NodeId → NodeId → Prop) : Prop where
  known : ∀ {i j}, R i j → i < g.nodes.size ∧ j < h.nodes.size
  agrees : ∀ {i j}, R i j → (g.node i).Agrees (h.node j)
  weight : ∀ {i j}, R i j → g.weight i = h.weight j
  edges : ∀ {i j}, R i j → List.Forall₂ (Edge.Alike R) (g.dependencies i) (h.dependencies j)
  unique : ∀ {i i' j j'}, R i j → R i' j' → (i = i' ↔ j = j')
  key : ∀ {i i' j j'}, R i j → R i' j' →
    ((g.node i).key = (g.node i').key ↔ (h.node j).key = (h.node j').key)

variable {g h : Graph} {R : NodeId → NodeId → Prop}

/-- Matching works in both directions. -/
theorem Matches.symm (corresponds : g.Matches h R) : h.Matches g (fun j i => R i j) where
  known pair := (corresponds.known pair).symm
  agrees pair := (corresponds.agrees pair).symm
  weight pair := (corresponds.weight pair).symm
  edges pair := (List.forall₂_iff_get.mp (corresponds.edges pair)).elim fun lengths each =>
    List.forall₂_iff_get.mpr ⟨lengths.symm, fun i lt lt' =>
      let alike := each i lt' lt
      ⟨alike.slot.symm, alike.request.symm, alike.source⟩⟩
  unique pair pair' := (corresponds.unique pair pair').symm
  key pair pair' := (corresponds.key pair pair').symm

/-- What a variable of one graph and one of the other are instances of: nodes that are paired, or, for
    values from outside, nodes that share their keys with such. -/
def Stands (g h : Graph) (R : NodeId → NodeId → Prop) (i j : NodeId) : Prop :=
  R i j ∨ (g.node i).isOutside = true ∧ (h.node j).isOutside = true ∧
    ∃ i' j', R i' j' ∧ (g.node i).key = (g.node i').key ∧ (h.node j).key = (h.node j').key

namespace Stands

variable {i j : NodeId}

/-- So does standing for one another. -/
theorem symm (stands : Stands g h R i j) : Stands h g (fun j i => R i j) j i := by
  obtain pair | ⟨outside, outside', i', j', pair, key, key'⟩ := stands
  · exact .inl pair
  · exact .inr ⟨outside', outside, j', i', pair, key', key⟩

/-- What stands for each other has the keys of nodes that are paired. -/
theorem exists_key (stands : Stands g h R i j) :
    ∃ i' j', R i' j' ∧ (g.node i).key = (g.node i').key ∧ (h.node j).key = (h.node j').key := by
  obtain pair | ⟨-, -, paired⟩ := stands
  · exact ⟨i, j, pair, rfl, rfl⟩
  · exact paired

/-- What does not come from outside stands for what it is paired with only. -/
theorem inside (stands : Stands g h R i j) (inside : (g.node i).isOutside = false) : R i j := by
  obtain pair | ⟨outside, -⟩ := stands
  · exact pair
  · rw [inside] at outside
    cases outside

/-- Both come from outside or neither does. -/
theorem isOutside (stands : Stands g h R i j) (corresponds : g.Matches h R) :
    (g.node i).isOutside = (h.node j).isOutside := by
  obtain pair | ⟨outside, outside', -⟩ := stands
  · exact (corresponds.agrees pair).isOutside
  · rw [outside, outside']

/-- Values from outside have no slots. -/
theorem edges (stands : Stands g h R i j) (corresponds : g.Matches h R) (uniform : g.Uniform)
    (uniform' : h.Uniform) : List.Forall₂ (Edge.Alike R) (g.dependencies i) (h.dependencies j) := by
  obtain pair | ⟨outside, outside', -⟩ := stands
  · exact corresponds.edges pair
  · rw [uniform.outside i outside, uniform'.outside j outside']
    exact .nil

/-- What stands for each other has corresponding keys. -/
theorem key (stands : Stands g h R i j) (corresponds : g.Matches h R) {i' j' : NodeId}
    (pair : R i' j') : (g.node i).key = (g.node i').key ↔ (h.node j).key = (h.node j').key := by
  obtain ⟨i₀, j₀, pair₀, key, key'⟩ := stands.exists_key
  rw [key, key']
  exact corresponds.key pair₀ pair

end Stands

end Graph

end ObjectGraph
