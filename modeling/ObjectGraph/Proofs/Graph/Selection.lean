import ObjectGraph.Proofs.Graph.Naming
import ObjectGraph.Proofs.Lists

/-
  Selecting the node of a provider.

  A resolution selects a node for each binding that is asked for, once, and remembers the choice.
  `Books` ties its state to what the setup says beforehand: the selections are those of a list of
  providers without repetitions, each of them is the node that was foreseen for the provider
  (`Chosen`), and the faults are those of building these providers, besides the ones told of
  elsewhere.

  Everything on the way keeps what was settled before (`Later`), so a selection that was made once
  (`Selected`) is there to the end.  `select_books` is the step that all others rest on.
-/

namespace ObjectGraph

/-! ## Nodes and what was foreseen for them -/

/-- A kind of node without the items of a collection. -/
def Node.Kind.bare : Node.Kind → Node.Kind
  | .provide p => .provide { p with items := [] }
  | kind => kind

/-- What is bare has no items to forget. -/
theorem Node.Kind.IsBare.bare_eq {kind : Node.Kind} (bare : kind.IsBare) : kind.bare = kind := by
  cases kind with
  | provide p =>
    have none := bare p rfl
    obtain ⟨kind, type, items⟩ := p
    cases none
    rfl
  | construct | factory | outside => rfl

/-- A request of a node, before it is numbered, is what a demand asks for. -/
def Demand.IsMet (r : Resolver) (tab : BindingTable) (d : Demand)
    (request : Request × Bool × Option BindingId) : Prop :=
  request.1 = d.request ∧ request.2.1 = d.isOptional ∧
    request.2.2.map some = d.pinned.map (tab.idOf r)

theorem Demand.IsMet.mono {r : Resolver} {tab tab' : BindingTable} {d : Demand}
    {request : Request × Bool × Option BindingId} (met : d.IsMet r tab request)
    (keeps : tab.Keeps r tab') : d.IsMet r tab' request := by
  obtain ⟨same, optional, pinned⟩ := met
  refine ⟨same, optional, ?_⟩
  cases pin : d.pinned with
  | none => rw [pinned, pin]; rfl
  | some p =>
    rw [pin] at pinned
    cases fixed : request.2.2 with
    | none => rw [fixed] at pinned; cases pinned
    | some id =>
      rw [fixed] at pinned
      have named := keeps p id (Option.some.inj pinned).symm
      rw [Option.map_some, Option.map_some, named]

/-- The slots of a node are its requests, numbered. -/
theorem Node.map_slots (n : Node) :
    n.slots.map (fun slot => (slot.request, slot.isOptional, slot.pinned)) = n.kind.requests := by
  refine List.ext_getElem (by simp [Node.slots]) fun i lt lt' => ?_
  simp [Node.slots]

theorem Node.slot_mem (n : Node) {k : Nat} {q : Request} {isOptional : Bool}
    {pinned : Option BindingId} (at_k : n.kind.requests[k]? = some (q, isOptional, pinned)) :
    (⟨k, q, isOptional, pinned⟩ : Slot) ∈ n.slots := by
  refine List.mem_of_getElem? (i := k) ?_
  rw [Node.slots, List.getElem?_mapIdx, at_k]
  rfl

/-- Only requests of what the compiler provides are pinned. -/
theorem Node.pinned_of_direct (n : Node) (direct : n.builtin? = none) :
    ∀ q ∈ n.kind.requests, q.2.2 = none := by
  intro q mem
  cases kind : n.kind with
  | construct c =>
    rw [kind] at mem
    simp only [Node.Kind.requests, List.mem_append, List.mem_map] at mem
    rcases mem with ((⟨_, _, rfl⟩ | ⟨_, _, rfl⟩) | ⟨_, _, rfl⟩) | ⟨_, _, rfl⟩ <;> rfl
  | factory f =>
    rw [kind] at mem
    obtain ⟨_, _, rfl⟩ := List.mem_map.mp mem
    rfl
  | outside o =>
    rw [kind] at mem
    cases mem
  | provide p =>
    rw [builtin?, kind] at direct
    cases direct

/-- The slots of a class are not pinned. -/
theorem Node.pinned_of_construct (n : Node) {c : Construction} (kind : n.kind = .construct c) :
    ∀ slot ∈ n.slots, slot.pinned = none := by
  intro slot mem
  refine n.pinned_of_direct (by rw [builtin?, kind])
    (slot.request, slot.isOptional, slot.pinned) ?_
  rw [← n.map_slots]
  exact List.mem_map_of_mem mem

namespace Resolver

variable {r : Resolver} {t tab tab' : BindingTable} {st st' st'' : Resolution} {p : Provider}

/-- A kind of node with the items of a collection filled in. -/
structure Collected (r : Resolver) (t tab : BindingTable) (kind kind' : Node.Kind) : Prop where
  bare : kind'.bare = kind
  met : List.Forall₂ (Demand.IsMet r tab) (r.demandsOf t kind) kind'.requests

theorem Collected.mono {kind kind' : Node.Kind} (collected : Collected r t tab kind kind')
    (keeps : tab.Keeps r tab') : Collected r t tab' kind kind' :=
  ⟨collected.bare, collected.met.imp fun _ _ met => met.mono keeps⟩

/-- A construction has no items to fill in. -/
theorem Collected.eq_construct {c : Construction} {kind : Node.Kind}
    (collected : Collected r t tab (.construct c) kind) : kind = .construct c := by
  have bare := collected.bare
  cases kind with
  | provide => cases bare
  | construct | factory | outside => exact bare

/-- A node that was built for a provider, as the one to be selected. -/
structure StandsFor (r : Resolver) (t tab : BindingTable) (n : Node) (p : Provider) : Prop where
  binding : tab.idOf r p = some n.binding
  contract : n.contract = p.binding.contract
  location : n.location = p.binding.location
  kind : ∃ kind, r.kind? t p = some kind ∧ Collected r t tab kind n.kind

/-- A node stands for its provider, whatever is enrolled later. -/
theorem StandsFor.mono {n : Node} (stands : StandsFor r t tab n p) (keeps : tab.Keeps r tab') :
    StandsFor r t tab' n p := by
  obtain ⟨kind, selected, collected⟩ := stands.kind
  exact ⟨keeps p _ stands.binding, stands.contract, stands.location, kind, selected,
    collected.mono keeps⟩

/-- The items of a collection show neither in the text of a node nor in whether it is deferred. -/
theorem StandsFor.node {n : Node} (stands : StandsFor r t tab n p) :
    ∃ n', r.node? t p = some n' ∧ n.text = n'.text ∧ n.location = n'.location ∧
      n.isDeferred = n'.isDeferred := by
  obtain ⟨kind, selected, bare, -⟩ := stands.kind
  refine ⟨p.node kind, by rw [node?, selected]; rfl, ?_, stands.location, ?_⟩
  · subst bare
    simp only [Node.text, Node.instanceType, Provider.node]
    cases n.kind <;> rfl
  · subst bare
    simp only [Node.isDeferred, Provider.node]
    cases n.kind <;> rfl

/-- The requests of a node are the demands of its provider. -/
theorem StandsFor.met {n : Node} (stands : StandsFor r t tab n p) :
    List.Forall₂ (Demand.IsMet r tab) (r.demands t p) n.kind.requests := by
  obtain ⟨kind, selected, -, met⟩ := stands.kind
  rwa [demands, selected]

/-! ## Later states -/

/-- A state that comes after another one: ids, nodes and selections stay what they are. -/
structure Later (r : Resolver) (st st' : Resolution) : Prop where
  keeps : st.table.Keeps r st'.table
  nodes : ∀ (i : NodeId) (n : Node), st.nodes[i]? = some n → st'.nodes[i]? = some n
  selected : ∀ id x, st.selected.lookup id = some x → st'.selected.lookup id = some x

theorem Later.refl (r : Resolver) (st : Resolution) : Later r st st :=
  ⟨.refl r st.table, fun _ _ => id, fun _ _ => id⟩

/-- Later than later is later. -/
theorem Later.trans (first : Later r st st') (second : Later r st' st'') : Later r st st'' :=
  ⟨first.keeps.trans second.keeps, fun i n found => second.nodes i n (first.nodes i n found),
    fun id x found => second.selected id x (first.selected id x found)⟩

/-- The choice that a resolution made for a provider: a node, or none as it cannot be built. -/
def Selected (r : Resolver) (st : Resolution) (p : Provider) (x : Option NodeId) : Prop :=
  ∃ id, st.table.idOf r p = some id ∧ st.selected.lookup id = some x

/-- A selection is remembered ... -/
theorem Selected.mono {x : Option NodeId} (selected : Selected r st p x) (later : Later r st st') :
    Selected r st' p x := by
  obtain ⟨id, named, found⟩ := selected
  exact ⟨id, later.keeps p id named, later.selected id x found⟩

/-- ... and made once. -/
theorem Selected.unique {x x' : Option NodeId} (selected : Selected r st p x)
    (selected' : Selected r st p x') : x = x' := by
  obtain ⟨id, named, found⟩ := selected
  obtain ⟨id', named', found'⟩ := selected'
  rw [named] at named'
  cases named'
  exact Option.some.inj (found.symm.trans found')

/-- The right choice for a provider. -/
def Chosen (r : Resolver) (t : BindingTable) (st : Resolution) (p : Provider) :
    Option NodeId → Prop
  | none => r.node? t p = none
  | some i => ∃ n, st.nodes[i]? = some n ∧ StandsFor r t st.table n p

theorem Chosen.mono {x : Option NodeId} (chosen : Chosen r t st p x) (later : Later r st st') :
    Chosen r t st' p x := by
  cases x with
  | none => exact chosen
  | some i =>
    obtain ⟨n, found, stands⟩ := chosen
    exact ⟨n, later.nodes i n found, stands.mono later.keeps⟩

/-! ## The books of a resolution -/

/-- The selections of a resolution are those of the providers `asked`, latest first, and its faults
    are those of building them, besides the ones `told` of. -/
structure Books (r : Resolver) (t : BindingTable) (st : Resolution) (asked : List Provider)
    (told : List Fault) : Prop where
  naming : BindingTable.Naming r t st.table
  numbered : ∀ (i : NodeId) (n : Node), st.nodes[i]? = some n → n.id = i
  selected : List.Forall₂ (fun p e => st.table.idOf r p = some e.1 ∧ Chosen r t st p e.2) asked
    st.selected
  nodup : asked.Nodup
  faults : st.faults.Perm (told ++ asked.flatMap (r.buildFaults t))

variable {asked : List Provider} {told told' : List Fault}

/-- What is selected is booked, with the choice that was made ... -/
theorem Books.mem_asked (books : Books r t st asked told) {x : Option NodeId}
    (selected : Selected r st p x) : p ∈ asked ∧ Chosen r t st p x := by
  obtain ⟨id, named, found⟩ := selected
  obtain ⟨before, after, split, -⟩ := List.lookup_eq_some_iff.mp found
  have mem : (id, x) ∈ st.selected := by simp [split]
  obtain ⟨i, lt, at_i⟩ := List.mem_iff_getElem.mp mem
  have lt' : i < asked.length := books.selected.length_eq ▸ lt
  obtain ⟨named', chosen⟩ := books.selected.get lt' lt
  simp only [List.get_eq_getElem, at_i] at named' chosen
  have same := books.naming.distinct _ _ id named' named
  exact ⟨same ▸ List.getElem_mem lt', same ▸ chosen⟩

/-- ... and what is booked is selected. -/
theorem Books.exists_selected (books : Books r t st asked told) (mem : p ∈ asked) :
    ∃ x, Selected r st p x ∧ Chosen r t st p x := by
  obtain ⟨i, lt, rfl⟩ := List.mem_iff_getElem.mp mem
  have lt' : i < st.selected.length := books.selected.length_eq ▸ lt
  obtain ⟨named, -⟩ := books.selected.get lt lt'
  simp only [List.get_eq_getElem] at named
  have some : (st.selected.lookup st.selected[i].1).isSome = true := by
    rw [List.lookup_isSome_iff]
    exact ⟨_, List.getElem_mem lt', by simp⟩
  obtain ⟨x, found⟩ := Option.isSome_iff_exists.mp some
  have selected : Selected r st asked[i] x := ⟨_, named, found⟩
  exact ⟨x, selected, (books.mem_asked selected).2⟩

/-- A node was selected for one provider only. -/
theorem Books.provider_unique (books : Books r t st asked told) {p' : Provider} {i : NodeId}
    (selected : Selected r st p (some i)) (selected' : Selected r st p' (some i)) : p = p' := by
  obtain ⟨n, found, stands⟩ := (books.mem_asked selected).2
  obtain ⟨n', found', stands'⟩ := (books.mem_asked selected').2
  rw [found] at found'
  cases found'
  exact books.naming.distinct p p' _ stands.binding stands'.binding

theorem Books.told_perm (books : Books r t st asked told) (perm : told.Perm told') :
    Books r t st asked told' :=
  { books with faults := books.faults.trans (perm.append_right _) }

/-- A change of the table and the journal only. -/
structure Renamed (r : Resolver) (t : BindingTable) (st st' : Resolution) : Prop where
  naming : BindingTable.Naming r t st'.table
  keeps : st.table.Keeps r st'.table
  nodes : st'.nodes = st.nodes
  selected : st'.selected = st.selected
  faults : st'.faults = st.faults

theorem Renamed.refl (naming : BindingTable.Naming r t st.table) (journal : Journal) :
    Renamed r t st { st with journal } :=
  ⟨naming, .refl r st.table, rfl, rfl, rfl⟩

theorem Renamed.trans (first : Renamed r t st st') (second : Renamed r t st' st'') :
    Renamed r t st st'' :=
  ⟨second.naming, first.keeps.trans second.keeps, second.nodes.trans first.nodes,
    second.selected.trans first.selected, second.faults.trans first.faults⟩

theorem Renamed.later (renamed : Renamed r t st st') : Later r st st' :=
  ⟨renamed.keeps, fun _ _ found => renamed.nodes ▸ found, fun _ _ found => renamed.selected ▸ found⟩

/-- What gives bindings ids leaves the books alone. -/
theorem Books.renamed (books : Books r t st asked told) (renamed : Renamed r t st st') :
    Books r t st' asked told where
  naming := renamed.naming
  numbered i n found := books.numbered i n (renamed.nodes ▸ found)
  selected := by
    rw [renamed.selected]
    exact books.selected.imp fun p e ⟨named, chosen⟩ =>
      ⟨renamed.keeps p _ named, chosen.mono renamed.later⟩
  nodup := books.nodup
  faults := renamed.faults ▸ books.faults

/-! ## Building the nodes of a provider -/

/-- The declared binding or its specialization is enrolled in the table. -/
theorem instantiate_renamed (naming : BindingTable.Naming r t st.table) (numbered : t.Numbered)
    {b : Binding} (declared : b ∈ t.declared) (s : Substitution) :
    Renamed r t st (instantiate st b.id (r.types.isOpen b.contract) s).2 ∧
      (instantiate st b.id (r.types.isOpen b.contract) s).2.table.idOf r (.of r.types b s) =
        some (instantiate st b.id (r.types.isOpen b.contract) s).1 := by
  unfold instantiate Provider.of
  cases generic : r.types.isOpen b.contract with
  | true =>
    have enrolled := naming.specialize numbered declared s
    exact ⟨⟨enrolled.naming, enrolled.keeps, rfl, rfl, rfl⟩, enrolled.named⟩
  | false =>
    have at_id : st.table.declared[b.id]? = some b :=
      naming.declared ▸ numbered.getElem?_id declared
    exact ⟨.refl naming st.journal, by simp [BindingTable.idOf, at_id]⟩

/-- The items of a collection, each with the id of its provider. -/
theorem items_renamed (numbered : t.Numbered) (element : TypeTerm)
    (found : List (Binding × Substitution)) :
    ∀ {st}, BindingTable.Naming r t st.table → (∀ m ∈ found, m.1 ∈ t.declared) →
      Renamed r t st (items st r element found).2 ∧
        List.Forall₂ (fun m item => item.1 = ⟨element, m.1.tags.head?.getD .untagged⟩ ∧
            (items st r element found).2.table.idOf r (.of r.types m.1 m.2) = some item.2)
          found (items st r element found).1 := by
  induction found with
  | nil => intro st naming _; exact ⟨.refl naming st.journal, .nil⟩
  | cons m rest ih =>
    intro st naming declared
    obtain ⟨first, named⟩ :=
      instantiate_renamed naming numbered (declared m List.mem_cons_self) m.2
    obtain ⟨others, all⟩ := ih first.naming fun m' mem => declared m' (List.mem_cons_of_mem m mem)
    exact ⟨first.trans others, .cons ⟨rfl, others.keeps _ _ named⟩ all⟩

/-- A node that is no collection demands what its requests ask for. -/
theorem collected_self (tab : BindingTable) {kind : Node.Kind} (bare : kind.IsBare)
    (plain : ∀ p, kind = .provide p → p.kind.isCollection = false ∨ p.type.element? = none) :
    Collected r t tab kind kind := by
  refine ⟨bare.bare_eq, ?_⟩
  cases kind with
  | provide p =>
    have none : r.demandsOf t (.provide p) = [] := by
      unfold demandsOf
      split
      · rename_i p' provides
        cases provides
        split
        · rename_i collection element
          rcases plain p rfl with other | other
          · rw [other] at collection; cases collection
          · rw [other] at element; cases element
        · rfl
      · rename_i other
        exact absurd rfl (other p)
    rw [none, Node.Kind.requests, bare p rfl]
    exact .nil
  | construct c =>
    refine List.forall₂_map_left_iff.mpr (List.forall₂_same.mpr fun request mem => ?_)
    refine ⟨rfl, rfl, ?_⟩
    simp only [Node.Kind.requests, List.mem_append, List.mem_map] at mem
    rcases mem with ((⟨_, _, rfl⟩ | ⟨_, _, rfl⟩) | ⟨_, _, rfl⟩) | ⟨_, _, rfl⟩ <;> rfl
  | factory f =>
    refine List.forall₂_map_left_iff.mpr (List.forall₂_same.mpr fun request mem => ?_)
    obtain ⟨_, _, rfl⟩ := List.mem_map.mp mem
    exact ⟨rfl, rfl, rfl⟩
  | outside o => exact .nil

/-- Filling in items gives ids to the bindings of the items. -/
theorem collect_renamed (naming : BindingTable.Naming r t st.table) (numbered : t.Numbered)
    {n : Node} (bare : n.kind.IsBare) :
    Renamed r t st (r.collect st n).2 ∧
      Collected r t (r.collect st n).2.table n.kind (r.collect st n).1.kind ∧
      (r.collect st n).1 = { n with kind := (r.collect st n).1.kind } := by
  unfold collect
  split
  · rename_i p provides
    split
    · rename_i element collection at_element
      rw [itemMatches_congr naming.declared]
      obtain ⟨renamed, all⟩ := items_renamed numbered element (t.itemMatches r.types element)
        naming fun m mem => mem_declared_of_itemMatches mem
      refine ⟨renamed.trans (.refl renamed.naming _), ⟨?_, ?_⟩, rfl⟩
      · rw [← bare.bare_eq, provides]
        rfl
      · have demands : r.demandsOf t n.kind = (t.itemMatches r.types element).map fun m =>
            ⟨⟨element, m.1.tags.head?.getD .untagged⟩, false, some (.of r.types m.1 m.2)⟩ := by
          rw [provides]
          simp only [demandsOf, collection, at_element]
        rw [demands]
        refine List.forall₂_map_left_iff.mpr (List.forall₂_map_right_iff.mpr (all.imp ?_))
        rintro ⟨b, s⟩ item ⟨request, named⟩
        exact ⟨request, rfl, by rw [Option.map_some, Option.map_some, ← named]⟩
    · rename_i other
      refine ⟨.refl naming st.journal, collected_self _ bare fun p' provides' => ?_, rfl⟩
      rw [provides] at provides'
      cases provides'
      cases collection : p.kind.isCollection with
      | false => exact .inl rfl
      | true =>
        cases element : p.type.element? with
        | none => exact .inr rfl
        | some found => exact (other found collection element).elim
  · rename_i other
    exact ⟨.refl naming st.journal,
      collected_self _ bare fun p provides => absurd provides (other p), rfl⟩

theorem collectAll_renamed (numbered : t.Numbered) (nodes : List Node) :
    ∀ {st}, BindingTable.Naming r t st.table → (∀ n ∈ nodes, n.kind.IsBare) →
      Renamed r t st (r.collectAll st nodes).2 ∧
        List.Forall₂ (fun n n' => Collected r t (r.collectAll st nodes).2.table n.kind n'.kind ∧
            n' = { n with kind := n'.kind }) nodes (r.collectAll st nodes).1 := by
  induction nodes with
  | nil => intro st naming _; exact ⟨.refl naming st.journal, .nil⟩
  | cons n rest ih =>
    intro st naming bare
    obtain ⟨first, collected, same⟩ :=
      collect_renamed naming numbered (bare n List.mem_cons_self)
    obtain ⟨others, all⟩ := ih first.naming fun m mem => bare m (List.mem_cons_of_mem n mem)
    exact ⟨first.trans others, .cons ⟨collected.mono others.keeps, same⟩ all⟩

/-! ## The choice among the nodes -/

/-- A variant can be satisfied if its kind can be served. -/
theorem isSatisfiable_eq {n : Node} {kind : Node.Kind} (declared : tab.declared = t.declared)
    (collected : Collected r t tab kind n.kind) : r.isSatisfiable tab n = r.isServable t kind := by
  have all : ∀ {ds : List Demand} {requests : List (Request × Bool × Option BindingId)},
      List.Forall₂ (Demand.IsMet r tab) ds requests →
      (requests.all fun request =>
        request.2.1 || request.2.2.isSome || r.canAnswer tab request.1) =
      ds.all fun d => d.isOptional || d.pinned.isSome || r.canAnswer t d.request := by
    intro ds requests met
    induction met with
    | nil => rfl
    | @cons d request _ _ head _ ih =>
      obtain ⟨same, optional, pinned⟩ := head
      have pins : request.2.2.isSome = d.pinned.isSome := by
        have := congrArg Option.isSome pinned
        simpa using this
      have first : (request.2.1 || request.2.2.isSome || r.canAnswer tab request.1) =
          (d.isOptional || d.pinned.isSome || r.canAnswer t d.request) := by
        rw [same, optional, pins, canAnswer_congr r declared]
      rw [List.all_cons, List.all_cons, ih]
      exact congrArg (· && _) first
  unfold isSatisfiable isServable
  rw [← all collected.met, ← n.map_slots, List.all_map]
  rfl

/-- What building the nodes of a provider comes to. -/
structure Built (r : Resolver) (t : BindingTable) (st : Resolution) (p : Provider)
    (result : Option NodeId × Resolution) : Prop where
  naming : BindingTable.Naming r t result.2.table
  later : Later r st result.2
  numbered : ∀ (i : NodeId) (n : Node), result.2.nodes[i]? = some n → n.id = i
  chosen : Chosen r t result.2 p result.1
  selected : result.2.selected = st.selected
  faults : result.2.faults = st.faults ++ r.buildFaults t p

/-- Bindings that are alike give nodes of the same kinds. -/
theorem kinds_congr {rules : List AttributeRule} {canAnswer : Request → Bool} {b b' : Binding}
    (alike : b.Alike b') : Node.kinds rules canAnswer b = Node.kinds rules canAnswer b' := by
  unfold Node.kinds
  rw [alike.recipe, alike.location, alike.contract]

/-- The node that a binding gives for a kind, with the items of a collection filled in. -/
structure Made (r : Resolver) (t tab : BindingTable) (b : Binding) (id : NodeId)
    (kind : Node.Kind) (n : Node) : Prop where
  collected : Collected r t tab kind n.kind
  id : n.id = id
  binding : n.binding = b.id
  contract : n.contract = b.contract
  location : n.location = b.location

/-- The nodes of a binding: one for each kind, numbered from `first` on. -/
def MadeAll (r : Resolver) (t tab : BindingTable) (b : Binding) (first : NodeId)
    (ks : List Node.Kind) (nodes : List Node) : Prop :=
  nodes.length = ks.length ∧ ∀ (i : Nat) (kind : Node.Kind) (n : Node), ks[i]? = some kind →
    nodes[i]? = some n → Made r t tab b (first + i) kind n

theorem MadeAll.id_eq {b : Binding} {first : NodeId} {ks : List Node.Kind} {nodes : List Node}
    (made : MadeAll r t tab b first ks nodes) {i : Nat} {n : Node} (found : nodes[i]? = some n) :
    n.id = first + i := by
  have lt : i < ks.length := made.1 ▸ (List.getElem?_eq_some_iff.mp found).1
  exact (made.2 i ks[i] n (List.getElem?_eq_getElem lt) found).id

/-- The nodes are built without the items, which are filled in afterwards. -/
theorem collectAll_made (numbered : t.Numbered) (naming : BindingTable.Naming r t st.table)
    {rules : List AttributeRule} {canAnswer : Request → Bool} {b : Binding} {ks : List Node.Kind}
    (kinds : Node.kinds rules canAnswer b = .ok ks) {first : NodeId} {built : List Node}
    (ended : Node.build rules canAnswer first b = .ok built) :
    Renamed r t st (r.collectAll st built).2 ∧
      MadeAll r t (r.collectAll st built).2.table b first ks (r.collectAll st built).1 := by
  unfold Node.build at ended
  rw [kinds] at ended
  have bare : ∀ n ∈ built, n.kind.IsBare := by
    cases ended
    intro n mem
    obtain ⟨i, lt, rfl⟩ := List.mem_mapIdx.mp mem
    exact Node.isBare_of_mem_kinds kinds (List.getElem_mem lt)
  obtain ⟨renamed, all⟩ := collectAll_renamed numbered built naming bare
  cases ended
  have length := all.length_eq
  rw [List.length_mapIdx] at length
  refine ⟨renamed, length.symm, ?_⟩
  intro i kind n at_kinds at_nodes
  obtain ⟨lt_ks, rfl⟩ := List.getElem?_eq_some_iff.mp at_kinds
  obtain ⟨lt, rfl⟩ := List.getElem?_eq_some_iff.mp at_nodes
  have at_i := all.get (by rw [List.length_mapIdx]; exact lt_ks) lt
  simp only [List.get_eq_getElem, List.getElem_mapIdx] at at_i
  obtain ⟨collected, same⟩ := at_i
  rw [same]
  exact ⟨collected, rfl, rfl, rfl, rfl⟩

/-- Which of the nodes is preferred depends on what can be answered only, so it is the one for the
    kind that is selected. -/
theorem MadeAll.chosen {b : Binding} {first : NodeId} {ks : List Node.Kind} {nodes : List Node}
    (made : MadeAll r t st.table b first ks nodes) (kinds : r.kinds t p = .ok ks)
    (naming : BindingTable.Naming r t st.table) (named : st.table.idOf r p = some b.id)
    (alike : b.Alike p.binding)
    (placed : ∀ (i : Nat) (n : Node), nodes[i]? = some n → st.nodes[n.id]? = some n) :
    Chosen r t st p ((r.preferred st.table nodes).map (·.id)) := by
  obtain ⟨length, each⟩ := made
  have all : List.Forall₂ (fun kind n => Collected r t st.table kind n.kind ∧
      st.nodes[n.id]? = some n ∧ n.binding = b.id ∧ n.contract = b.contract ∧
      n.location = b.location) ks nodes := by
    refine List.forall₂_iff_get.mpr ⟨length.symm, fun i lt lt' => ?_⟩
    have at_i := each i ks[i] nodes[i] (List.getElem?_eq_getElem lt) (List.getElem?_eq_getElem lt')
    exact ⟨at_i.collected, placed i _ (List.getElem?_eq_getElem lt'), at_i.binding, at_i.contract,
      at_i.location⟩
  have chosen := rel_preferred all fun kind n same =>
    (isSatisfiable_eq naming.declared same.1).symm
  have kind_eq : r.kind? t p = (ks.find? (r.isServable t)).or ks.head? := by rw [kind?, kinds]
  rw [← kind_eq] at chosen
  change Option.Rel _ _ (r.preferred st.table nodes) at chosen
  generalize r.preferred st.table nodes = preferred at chosen
  cases selected : r.kind? t p with
  | none =>
    rw [selected] at chosen
    cases chosen
    show r.node? t p = none
    rw [node?, selected]
    rfl
  | some kind =>
    rw [selected] at chosen
    cases chosen with
    | some found =>
      obtain ⟨collected, at_id, binding, contract, location⟩ := found
      exact ⟨_, at_id, binding ▸ named, contract.trans alike.contract,
        location.trans alike.location, kind, selected, collected⟩

/-- Building a binding books its provider, with its nodes or with its faults. -/
theorem build_built (naming : BindingTable.Naming r t st.table) (numbered : t.Numbered)
    (ids : ∀ (i : NodeId) (n : Node), st.nodes[i]? = some n → n.id = i) {b : Binding}
    (named : st.table.idOf r p = some b.id) (alike : b.Alike p.binding) :
    Built r t st p (r.build st b) := by
  have kinds_eq : Node.kinds r.rules (r.canAnswer st.table) b = r.kinds t p := by
    rw [canAnswer_congr r naming.declared, kinds_congr alike, kinds]
  unfold build
  cases kinds : r.kinds t p with
  | error faults =>
    have ended : Node.build r.rules (r.canAnswer st.table) st.nodes.size b = .error faults := by
      rw [Node.build, kinds_eq, kinds]
      rfl
    rw [ended]
    refine ⟨naming, ⟨.refl r _, fun _ _ => id, fun _ _ => id⟩, ids, ?_, rfl, ?_⟩
    · show r.node? t p = none
      rw [node?, kind?, kinds]
      rfl
    · rw [buildFaults, kinds]
  | ok ks =>
    obtain ⟨built, ended⟩ : ∃ built,
        Node.build r.rules (r.canAnswer st.table) st.nodes.size b = .ok built := by
      rw [Node.build, kinds_eq, kinds]
      exact ⟨_, rfl⟩
    rw [ended]
    let st₁ : Resolution :=
      { st with journal := st.journal ++ Node.buildJournal b (.ok built) }
    have naming₁ : BindingTable.Naming r t st₁.table := naming
    obtain ⟨renamed, made⟩ := collectAll_made numbered naming₁ (kinds_eq.trans kinds) ended
    set nodes := (r.collectAll st₁ built).1
    set st₂ := (r.collectAll st₁ built).2
    have size : st₂.nodes.size = st.nodes.size := by rw [renamed.nodes]
    have placed : ∀ (i : Nat) (n : Node), nodes[i]? = some n →
        (st₂.nodes ++ nodes.toArray)[n.id]? = some n := by
      intro i n found
      rw [made.id_eq found, Array.getElem?_append_right (by omega), size, Nat.add_sub_cancel_left]
      simpa using found
    show Built r t st p ((r.preferred st₂.table nodes).map (·.id),
      { st₂ with nodes := st₂.nodes ++ nodes.toArray, journal := _ })
    refine ⟨renamed.naming, ⟨renamed.keeps, ?_, ?_⟩, ?_, ?_, renamed.selected, ?_⟩
    · intro i n found
      have lt := (Array.getElem?_eq_some_iff.mp found).1
      rw [renamed.nodes, Array.getElem?_append_left lt, found]
    · exact fun _ _ found => renamed.selected ▸ found
    · intro i n found
      rcases Nat.lt_or_ge i st.nodes.size with lt | ge
      · rw [renamed.nodes, Array.getElem?_append_left lt] at found
        exact ids i n found
      · rw [Array.getElem?_append_right (by omega), size] at found
        rw [made.id_eq (i := i - st.nodes.size) (by simpa using found)]
        exact Nat.add_sub_cancel' ge
    · exact MadeAll.chosen made kinds renamed.naming (renamed.keeps p _ named) alike placed
    · show st₂.faults = st.faults ++ r.buildFaults t p
      rw [renamed.faults, buildFaults, kinds]
      exact (List.append_nil st.faults).symm

/-! ## The selection -/

/-- The node that an answer names. -/
def choice : Answer → Option NodeId
  | .node id => some id
  | _ => none

/-- What a call achieves that asks for providers: the books are right again, with some of the
    providers `news` asked for besides the ones before. -/
structure Asks (r : Resolver) (t : BindingTable) (news : Provider → Prop) (st : Resolution)
    (asked : List Provider) (told : List Fault) (st' : Resolution) : Prop where
  later : Later r st st'
  books : ∃ asked', Books r t st' asked' told ∧ ∀ p ∈ asked', p ∈ asked ∨ news p

theorem Asks.of_renamed {news : Provider → Prop} (books : Books r t st asked told)
    (renamed : Renamed r t st st') : Asks r t news st asked told st' :=
  ⟨renamed.later, asked, books.renamed renamed, fun _ => .inl⟩

/-- Selecting the node of a binding that belongs to a provider. -/
theorem select_asks (numbered : t.Numbered) (books : Books r t st asked told) {id : BindingId}
    (named : st.table.idOf r p = some id) :
    Asks r t (· = p) st asked told (r.select st id).2 ∧
      Selected r (r.select st id).2 p (choice (r.select st id).1) ∧
      (r.select st id).1 ≠ .missing := by
  unfold select
  cases found : st.selected.lookup id with
  | some x =>
    have asks : Asks r t (· = p) st asked told st := ⟨.refl r st, asked, books, fun _ => .inl⟩
    cases x with
    | none => exact ⟨asks, ⟨id, named, found⟩, nofun⟩
    | some node => exact ⟨asks, ⟨id, named, found⟩, nofun⟩
  | none =>
    obtain ⟨b, at_id, rfl, alike⟩ := books.naming.named p id named
    have built := build_built books.naming numbered books.numbered named alike
    have unasked : p ∉ asked := by
      intro mem
      obtain ⟨x, ⟨id, named', selected⟩, -⟩ := books.exists_selected mem
      rw [named] at named'
      cases named'
      rw [found] at selected
      cases selected
    rw [at_id]
    dsimp only
    generalize r.build st b = result at built
    obtain ⟨x, st₁⟩ := result
    have later : Later r st { st₁ with selected := (b.id, x) :: st₁.selected } := by
      refine ⟨built.later.keeps, built.later.nodes, fun id' x' found' => ?_⟩
      show ((b.id, x) :: st₁.selected).lookup id' = some x'
      rw [List.lookup_cons]
      split
      · rename_i same
        rw [beq_iff_eq.mp same, found] at found'
        cases found'
      · exact built.later.selected id' x' found'
    have named' : st₁.table.idOf r p = some b.id := built.later.keeps p _ named
    have selected : Selected r { st₁ with selected := (b.id, x) :: st₁.selected } p x :=
      ⟨b.id, named', by simp⟩
    refine ⟨⟨later, p :: asked, ?_, fun p' mem => (List.mem_cons.mp mem).symm⟩, ?_, ?_⟩
    · have faults : st₁.faults.Perm (told ++ (p :: asked).flatMap (r.buildFaults t)) := by
        rw [built.faults, List.flatMap_cons]
        refine (books.faults.append_right _).trans ?_
        rw [List.append_assoc]
        exact List.perm_append_comm.append_left told
      exact {
        naming := built.naming
        numbered := built.numbered
        selected := by
          refine .cons ⟨named', built.chosen⟩ ?_
          show List.Forall₂ (fun p e => st₁.table.idOf r p = some e.1 ∧ Chosen r t st₁ p e.2)
            asked st₁.selected
          rw [show st₁.selected = st.selected from built.selected]
          exact books.selected.imp fun p' e ⟨named, chosen⟩ =>
            ⟨built.later.keeps p' _ named, chosen.mono built.later⟩
        nodup := List.nodup_cons.mpr ⟨unasked, books.nodup⟩
        faults := faults }
    · cases x with
      | none => exact selected
      | some node => exact selected
    · cases x <;> nofun

end Resolver

end ObjectGraph
