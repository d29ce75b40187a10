import ObjectGraph.Proofs.Graph.Identity
import ObjectGraph.Proofs.Graph.Precedence

/-
  What a collection has for items.

  The items of a collection are gathered apart from all other requests: every declared binding counts
  whose type is that of the elements, or unifies with it, whatever its tags are, and each item is
  pinned to its binding.  So the edges of a collection correspond to these bindings one by one
  (`Finished.items`).

  Still an item is no instance of its own.  A generic binding is specialized once for each
  substitution, and a node is selected once for each binding; so a request for an element that the
  same binding answers leads to the node of the item (`Finished.source_eq_of_edge`).
-/

namespace ObjectGraph

/-- Tells if the instances of a binding are items of a collection: the compiler does not provide them,
    and the bound type is that of the elements, or unifies with it. -/
def Binding.gives (ts : TypeOracle) (element : TypeTerm) (b : Binding) : Bool :=
  !b.recipe.isBuiltin &&
    (b.contract == element || ts.isOpen b.contract && (ts.unify b.contract element).isSome)

/-- The binding is a declared one itself or, if that is generic, its specialization for a type. -/
structure Binding.Serves (ts : TypeOracle) (type : TypeTerm) (declared b : Binding) : Prop where
  closed : ts.isOpen declared.contract = false → b = declared
  generic : ts.isOpen declared.contract = true → ∃ sub,
    ts.matchContract declared.contract type = some sub ∧ b.specializes = some declared.id ∧
      b.source = declared.source ∧ b.Alike (Provider.specialized declared sub).binding

/-- An edge to the item of a collection that a declared binding gives. -/
structure Graph.Itemizes (g : Graph) (ts : TypeOracle) (t : BindingTable) (element : TypeTerm)
    (e : Edge) (b : Binding) : Prop where
  /-- The item is requested under the first tag of the binding. -/
  request : e.request = ⟨element, b.tags.head?.getD .untagged⟩
  /-- It belongs to the binding, or to its specialization. -/
  source : ∃ b', g.bindings[(g.node e.source).binding]? = some b' ∧ b.Serves ts element b'
  /-- The slots of other nodes that request an element and for which the binding matches best have
      the same node. -/
  edges : ∀ j, (g.node j).builtin? = none → ∀ e' ∈ g.dependencies j, e'.request.type = element →
    ∀ m, t.bestMatch? ts false e'.request = some m → m.id = b.id → e'.source = e.source
  /-- And so have the roots. -/
  roots : ∀ root ∈ g.roots, root.request.type = element →
    ∀ m, t.bestMatch? ts false root.request = some m → m.id = b.id → root.node = e.source

namespace BindingTable

/-! ## Specializations -/

variable {s : Setup} {t t' : BindingTable} {b : Binding}

/-- Each specialization on record names the binding that it specializes. -/
def Traces (t : BindingTable) : Prop :=
  ∀ e ∈ t.specialized, ∃ b, t.binding? e.2 = some b ∧ b.specializes = some e.1.1

theorem binding?_of_prefix {added : List Binding} (grown : t'.bindings = t.bindings ++ added)
    {id : BindingId} (found : t.binding? id = some b) : t'.binding? id = some b := by
  rw [binding?] at found ⊢
  rw [grown, List.getElem?_append_left (List.getElem?_eq_some_iff.mp found).1, found]

theorem Traces.mono (traces : t.Traces) {added : List Binding}
    (grown : t'.bindings = t.bindings ++ added) (same : t'.specialized = t.specialized) :
    t'.Traces := by
  intro e mem
  rw [same] at mem
  obtain ⟨b, found, specializes⟩ := traces e mem
  exact ⟨b, binding?_of_prefix grown found, specializes⟩

/-- A specialization that is not on record is added at the end, and names what it specializes. -/
theorem specialize_added {id : BindingId} {generic : Binding} {sub : Substitution}
    (found : t.binding? id = some generic) (unknown : t.specialized.lookup (id, sub) = none) :
    ∃ b, (t.specialize id sub).2.bindings = t.bindings ++ [b] ∧ b.specializes = some id ∧
      (t.specialize id sub).2.specialized = ((id, sub), t.bindings.length) :: t.specialized := by
  have size : t.size = t.bindings.length := by rw [bindings, List.length_append, BindingTable.size]
  unfold BindingTable.specialize
  rw [found, unknown, ← size]
  exact ⟨_, (List.append_assoc ..).symm, rfl, rfl⟩

theorem Grown.traces (grown : Grown s t) : t.Traces := by
  induction grown with
  | register =>
    intro e mem
    rw [BindingTable.register, (addDeclarations_added s.declarations {} 0).1] at mem
    cases mem
  | @specialize t generic grown declared sub ih =>
    have at_id := grown.stamped.binding?_id (List.mem_append_left t.derived declared)
    cases recorded : t.specialized.lookup (generic.id, sub) with
    | some known =>
      rw [BindingTable.specialize, recorded]
      exact ih
    | none =>
      obtain ⟨b, more, specializes, records⟩ := specialize_added at_id recorded
      intro e mem
      rw [records] at mem
      rcases List.mem_cons.mp mem with rfl | mem
      · exact ⟨b, by rw [binding?, more, List.getElem?_concat_length], specializes⟩
      · obtain ⟨b', found, specializes'⟩ := ih e mem
        exact ⟨b', binding?_of_prefix more found, specializes'⟩
  | @addFallback t grown h q ih =>
    obtain ⟨added, more⟩ := bindings_addFallback t h q
    refine ih.mono more ?_
    rcases addFallback_cases t h q with same | ⟨_, -, same, -⟩
    · rw [same]
    · exact same

/-! ## The bindings of the items -/

/-- The items of a collection come from the bindings that give them, in the order of registration. -/
theorem itemMatches_gives (t : BindingTable) (ts : TypeOracle) (element : TypeTerm) :
    List.Forall₂ (fun m b => m.1 = b ∧ ts.matchContract b.contract element = some m.2)
      (t.itemMatches ts element) (t.declared.filter (Binding.gives ts element)) := by
  unfold itemMatches
  generalize t.declared = declared
  induction declared with
  | nil => exact .nil
  | cons b rest ih =>
    have gives : b.gives ts element =
        (!b.recipe.isBuiltin && (ts.matchContract b.contract element).isSome) := by
      rw [Binding.gives, Bool.eq_iff_iff, Bool.and_eq_true, Bool.and_eq_true,
        TypeOracle.isSome_matchContract_iff, Bool.or_eq_true, Bool.and_eq_true, beq_iff_eq]
    rw [List.filter_cons, List.filter_cons, gives]
    cases b.recipe.isBuiltin with
    | true => exact ih
    | false =>
      cases found : ts.matchContract b.contract element with
      | none => simpa [found] using ih
      | some sub => simpa [found] using ih

end BindingTable

namespace Resolver

variable {r : Resolver} {t : BindingTable} {s : Setup} {st : Resolution} {p p' : Provider}
  {done : List Provider} {taken : Taken} {xs : List (Option NodeId)} {roots : List Root}
  {i j : NodeId} {n : Node} {b : Binding} {sub : Substitution} {element : TypeTerm}

/-- If each slot is filled, the edges correspond to the slots. -/
theorem edgesTo_filled {α : Type} {P : Slot → α → Prop} {Q : α → NodeId → Prop} {slots : List Slot}
    {as : List α} {ys : List (Option NodeId)} (numbered : List.Forall₂ P slots as)
    (filled : List.Forall₂ (fun a y => ∃ j, y = some j ∧ Q a j) as ys) :
    (edgesTo n slots ys).map (·.slot) = slots.map (·.index) ∧
      List.Forall₂ (fun e a => ∃ slot, P slot a ∧ e = edgeTo n slot e.source ∧ Q a e.source)
        (edgesTo n slots ys) as := by
  induction numbered generalizing ys with
  | nil =>
    cases filled
    exact ⟨rfl, .nil⟩
  | @cons slot a slots as pair _ ih =>
    cases filled with
    | cons first rest =>
      obtain ⟨j, rfl, holds⟩ := first
      obtain ⟨indices, edges⟩ := ih rest
      exact ⟨congrArg (slot.index :: ·) indices, .cons ⟨slot, pair, rfl, holds⟩ edges⟩

/-- Nothing but the items of collections is demanded of a certain provider. -/
theorem StandsFor.pinned_eq_none (stands : StandsFor r t st.table n p)
    (direct : n.builtin? = none) : ∀ d ∈ r.demands t p, d.pinned = none := by
  intro d demanded
  obtain ⟨q, mem, -, -, pins⟩ := forall₂_left stands.met demanded
  rw [n.pinned_of_direct direct q mem] at pins
  cases pin : d.pinned with
  | none => rfl
  | some p' =>
    rw [pin] at pins
    cases pins

/-- The answer to a request for which a declared binding matches best. -/
theorem provider?_of_bestMatch? (numbered : t.Numbered) {q : Request} {isOptional : Bool} {m : Match}
    (best : t.bestMatch? r.types false q = some m) (declared : b ∈ t.declared) (id : m.id = b.id)
    (found : r.types.matchContract b.contract q.type = some sub) :
    r.provider? t q isOptional = some (.of r.types b sub) := by
  obtain ⟨b', declared', id', -, found', -⟩ := bestMatch?_eq_some best
  cases numbered.eq_of_id declared declared' (id.symm.trans id')
  cases found.symm.trans found'
  rw [provider?, (matched?_eq_some_iff numbered).mpr ⟨b, declared, m, best, id, rfl⟩, Option.some_or]

namespace Finished

/-- The node of a declared binding, or of its specialization. -/
theorem serves (finished : Finished r (BindingTable.register s) s st done taken xs)
    (found : r.types.matchContract b.contract element = some sub)
    (selected : Selected r st (.of r.types b sub) (some j)) (roots : List Root) :
    ∃ b', (graph s roots taken st).bindings[((graph s roots taken st).node j).binding]? = some b' ∧
      b.Serves r.types element b' := by
  obtain ⟨n, b', at_j, stands, known, -, alike⟩ := finished.represents selected
  rw [node_graph at_j]
  refine ⟨b', known, fun closed => ?_, fun generic => ⟨sub, found, ?_⟩⟩
  · have named := stands.binding
    rw [Provider.of, if_neg (Bool.eq_false_iff.mp closed), BindingTable.idOf] at named
    split at named
    · rename_i at_id
      have declared := List.mem_of_getElem? at_id
      have known' := finished.stamped.binding?_id (List.mem_append_left st.table.derived declared)
      rw [Option.some.inj named, known] at known'
      exact Option.some.inj known'
    · cases named
  · have named := stands.binding
    rw [Provider.of, if_pos generic] at named alike
    have named' := named
    rw [BindingTable.idOf] at named'
    split at named'
    · obtain ⟨b'', at_id, specializes⟩ :=
        (finished.grown.grown .register).traces _ (mem_of_lookup named')
      cases at_id.symm.trans known
      obtain ⟨o, keyed, origin⟩ := finished.stamped.originates named known
      cases origin
      exact ⟨specializes, keyed.source, alike⟩
    · cases named'

/-- A collection has one edge for each binding that gives items, to the node of this binding. -/
theorem items (finished : Finished r t s st done taken xs) (faultless : st.faults = [])
    (roots : List Root) (selected : Selected r st p (some i)) {provision : Provision}
    (found : st.nodes[i]? = some n) (kind : n.kind = .provide provision)
    (collection : provision.kind.isCollection = true)
    (of : provision.type.element? = some element) :
    ((graph s roots taken st).dependencies i).map (·.slot) =
        List.range (t.declared.filter (Binding.gives r.types element)).length ∧
      List.Forall₂ (fun e b => e.request = ⟨element, b.tags.head?.getD .untagged⟩ ∧
          ∃ sub, r.types.matchContract b.contract element = some sub ∧
            Selected r st (.of r.types b sub) (some e.source))
        ((graph s roots taken st).dependencies i)
        (t.declared.filter (Binding.gives r.types element)) := by
  obtain ⟨n', ys, found', stands, all, edges⟩ := finished.dependencies_eq roots selected
  cases found.symm.trans found'
  obtain ⟨kind', chosen, collected⟩ := stands.kind
  have bare : kind' = .provide { provision with items := [] } := by
    rw [← collected.bare, kind]
    rfl
  have demands : r.demands t p = (t.itemMatches r.types element).map fun m =>
      ⟨⟨element, m.1.tags.head?.getD .untagged⟩, false, some (.of r.types m.1 m.2)⟩ := by
    rw [Resolver.demands, chosen, bare]
    show r.demandsOf t (.provide { provision with items := [] }) = _
    simp only [demandsOf, collection, of]
  set ms := t.itemMatches r.types element
  rw [demands, List.forall₂_map_left_iff] at all
  -- the slots correspond to the items, and so do the nodes that fill them
  have slots : List.Forall₂ (fun slot m => slot.request = ⟨element, m.1.tags.head?.getD .untagged⟩)
      n.slots ms := by
    have met := stands.met
    rw [← n.map_slots, List.forall₂_map_right_iff, demands, List.forall₂_map_left_iff] at met
    exact (met.imp fun _ _ met => met.1).flip
  have filled : List.Forall₂ (fun m y => ∃ j, y = some j ∧
      Selected r st (.of r.types m.1 m.2) (some j)) ms ys := by
    have among := (List.forall₂_and_left (p := (· ∈ ms)) ms ys).mpr ⟨fun _ => id, all⟩
    refine among.imp ?_
    rintro m y ⟨mem, supplies⟩
    have demanded : ⟨⟨element, m.1.tags.head?.getD .untagged⟩, false,
        some (.of r.types m.1 m.2)⟩ ∈ r.demands t p := demands ▸ List.mem_map_of_mem mem
    have supplier := supplies.selected (p := .of r.types m.1 m.2) Option.some_or
    obtain ⟨j, node⟩ := finished.exists_node faultless
      (.demand (finished.chosen selected).1 demanded Option.some_or)
    exact ⟨j, supplier.unique node, node⟩
  obtain ⟨indices, pairs⟩ := edgesTo_filled (n := n) slots filled
  have gives := t.itemMatches_gives r.types element
  rw [edges, indices]
  constructor
  · rw [← gives.length_eq, ← slots.length_eq]
    refine List.ext_getElem (by simp) fun k lt lt' => ?_
    simp [Node.slots]
  · refine (forall₂_trans pairs gives).imp ?_
    rintro e b ⟨m, ⟨slot, request, made, node⟩, rfl, found⟩
    refine ⟨?_, m.2, found, node⟩
    rw [made]
    exact request

/-- A slot of another node that the binding of an item answers has the node of the item. -/
theorem source_eq_of_edge (finished : Finished r t s st done taken xs) (numbered : t.Numbered)
    {e : Edge} (mem : e ∈ (graph s roots taken st).dependencies i)
    (direct : ((graph s roots taken st).node i).builtin? = none) {m : Match}
    (best : t.bestMatch? r.types false e.request = some m) (declared : b ∈ t.declared)
    (id : m.id = b.id) (found : r.types.matchContract b.contract e.request.type = some sub)
    (selected : Selected r st (.of r.types b sub) (some j)) : e.source = j := by
  obtain ⟨p, n, slot, d, p', asks, at_i, -, demanded, request, supplier, node, made⟩ :=
    finished.edge mem
  rw [node_graph at_i] at direct
  obtain ⟨-, n', at_i', stands⟩ := finished.chosen asks
  cases at_i.symm.trans at_i'
  have same : e.request = d.request := by rw [made]; exact request
  rw [same] at best found
  rw [supplier?, stands.pinned_eq_none direct d demanded, Option.none_or,
    provider?_of_bestMatch? numbered best declared id found] at supplier
  cases supplier
  exact Option.some.inj (node.unique selected)

/-- And so has a root. -/
theorem node_eq_of_root (finished : Finished r t s st done taken xs) (numbered : t.Numbered)
    {root : Root} (known : root ∈ rootsTo 0 s.roots xs) {m : Match}
    (best : t.bestMatch? r.types false root.request = some m) (declared : b ∈ t.declared)
    (id : m.id = b.id) (found : r.types.matchContract b.contract root.request.type = some sub)
    (selected : Selected r st (.of r.types b sub) (some j)) : root.node = j := by
  obtain ⟨k, d, node, at_k, filled, rfl⟩ := mem_rootsTo.mp known
  obtain ⟨lt, rfl⟩ := List.getElem?_eq_some_iff.mp at_k
  obtain ⟨lt_xs, at_xs⟩ := List.getElem?_eq_some_iff.mp filled
  have supplies := finished.rooted.get lt lt_xs
  simp only [List.get_eq_getElem, at_xs] at supplies
  have supplier := supplies.selected (p := .of r.types b sub) <|
    (Option.none_or).trans (provider?_of_bestMatch? numbered best declared id found)
  exact Option.some.inj (supplier.unique selected)

end Finished

/-- A collection that can be reached has one edge for each declared binding that gives items, in the
    order of registration and with the slots numbered from zero on, to the node of this binding or of
    its specialization.  A request for an element that the same binding answers has the same node. -/
theorem collection_items {turns : Nat} {o : Outcome} {g : Graph}
    (ended : r.resolve turns (BindingTable.register s) s = some o) (ok : o.result = .ok g)
    (reachable : g.Reachable i) {provision : Provision} (kind : (g.node i).kind = .provide provision)
    (collection : provision.kind.isCollection = true)
    (of : provision.type.element? = some element) :
    let giving := (BindingTable.register s).declared.filter (Binding.gives r.types element)
    (g.dependencies i).map (·.slot) = List.range giving.length ∧
      List.Forall₂ (g.Itemizes r.types (BindingTable.register s) element) (g.dependencies i)
        giving := by
  obtain ⟨st, done, taken, xs, finished, rfl, faultless, -⟩ := resolve_accepted ended ok
  have numbered := BindingTable.numbered_register s
  obtain ⟨p, -, selected⟩ := finished.reachable_iff.mp reachable
  obtain ⟨-, n, found, -⟩ := finished.chosen selected
  rw [node_graph found] at kind
  obtain ⟨slots, edges⟩ := finished.items faultless (rootsTo 0 s.roots xs) selected found kind
    collection of
  have among := (List.forall₂_and_left (p := (· ∈ (BindingTable.register s).declared)) _ _).mpr
    ⟨fun b mem => (List.mem_filter.mp mem).1, edges.flip⟩
  refine ⟨slots, among.flip.imp ?_⟩
  rintro e b ⟨declared, request, sub, matched, node⟩
  constructor
  case request => exact request
  case source => exact finished.serves matched node _
  case edges =>
    intro j direct e' mem type m best id
    exact finished.source_eq_of_edge numbered mem direct best declared id (type ▸ matched) node
  case roots =>
    intro root known type m best id
    exact finished.node_eq_of_root numbered known best declared id (type ▸ matched) node

end Resolver

namespace Sample

/-- A rack asks for all boxes of numbers, and for an untagged one.  There is a tagged one, which is a
    root as well, and a generic one. -/
def rack : Setup :=
  { declarations := Setup.standard.declarations ++
      [{ recipe := .factory
          { name := "Rack", type := .plain "Rack"
            requests :=
              [⟨applied "IEnumerable" (applied "Box" (.plain "Int")), .untagged⟩,
               ⟨applied "Box" (.plain "Int"), .untagged⟩] } },
       { contracts := [applied "Box" (.plain "Int")], tags := [.named "small"]
         recipe := .factory { name := "SmallBox", type := applied "Box" (.plain "Int") } },
       { contracts := [applied "Box" (.plain "TT")]
         recipe := .factory { name := "Box", type := applied "Box" (.plain "TT") } }]
    roots := [
      { name := "Rack", type := .plain "Rack" },
      { name := "Small", type := applied "Box" (.plain "Int"), tag := .named "small" }] }

end Sample

namespace Resolver

/-- Both boxes are items: node 1, which is the root, and node 3, which the rack asks for. -/
theorem collection_items_rack : ∃ o i provision,
    resolve { types := .standard } 50 (BindingTable.register Sample.rack) Sample.rack = some o ∧
    o.result = .ok (Sample.graph Sample.rack) ∧ (Sample.graph Sample.rack).Reachable i ∧
    ((Sample.graph Sample.rack).node i).kind = .provide provision ∧
    provision.kind.isCollection = true ∧
    provision.type.element? = some (Sample.applied "Box" (.plain "Int")) ∧
    ((Sample.graph Sample.rack).dependencies i).map (·.source) = [1, 3] ∧
    List.Forall₂
      ((Sample.graph Sample.rack).Itemizes .standard (BindingTable.register Sample.rack)
        (Sample.applied "Box" (.plain "Int")))
      ((Sample.graph Sample.rack).dependencies i)
      ((BindingTable.register Sample.rack).declared.filter
        (Binding.gives .standard (Sample.applied "Box" (.plain "Int")))) := by
  obtain ⟨o, ended, ok⟩ := Sample.exists_outcome Sample.rack (by decide +kernel)
  have reachable : (Sample.graph Sample.rack).Reachable 2 := by
    obtain ⟨root, known, e, edge, source⟩ :
        ∃ root ∈ (Sample.graph Sample.rack).roots,
          ∃ e ∈ (Sample.graph Sample.rack).dependencies root.node, e.source = 2 := by
      decide +kernel
    exact source ▸ .edge (.root known) edge
  have kind : ((Sample.graph Sample.rack).node 2).kind = .provide
      { kind := .enumerable
        type := Sample.applied "IEnumerable" (Sample.applied "Box" (.plain "Int"))
        items := [
          (⟨Sample.applied "Box" (.plain "Int"), .named "small"⟩, 6),
          (⟨Sample.applied "Box" (.plain "Int"), .untagged⟩, 9)] } := by
    decide +kernel
  exact ⟨o, 2, _, ended, ok, reachable, kind, rfl, rfl, by decide +kernel,
    (collection_items ended ok reachable kind rfl rfl).2⟩

end Resolver

end ObjectGraph
