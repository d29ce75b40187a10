import ObjectGraph.Proofs.Graph.Keys
import ObjectGraph.Proofs.Graph.Provider
import ObjectGraph.Proofs.Graph.Transpose

/-
  What a resolution leaves behind: a well-formed graph.

  A resolution in progress changes in five ways only: something is told or reported, the table gains
  a specialization or a fallback binding, nodes are appended, a selection is remembered.  `Step`
  lists them, and each function of the resolver is a chain of such steps (`Grows`).  So a fact about
  the state is proved once for each kind of step (`Step.sound`) and then holds after every call.

  The result is `Graph.Uniform`: edges and roots lead to nodes of the graph, and nodes that share a
  storage key agree in lifetime and in whether they come from outside.
-/

namespace ObjectGraph

/-- The lifetime of a node, and whether its instances come from outside. -/
def Node.profile (n : Node) : Lifetime × Bool := (n.lifetime, n.isOutside)

/-- What the compiler provides by the recipe. -/
def Recipe.builtin? : Recipe → Option Builtin
  | .builtin b => some b
  | _ => none

/-- A node that was built for a binding, as far as the binding alone tells. -/
structure Node.Represents (n : Node) (b : Binding) : Prop where
  binding : n.binding = b.id
  key : n.key = b.key
  profile : n.profile = b.profile
  contract : n.contract = b.contract
  instanceType : n.instanceType = b.instanceType
  builtin : n.builtin? = b.recipe.builtin?

/-- A node that was built for a binding of the table. -/
def Node.StemsFrom (n : Node) (t : BindingTable) : Prop := ∃ b ∈ t.bindings, n.Represents b

namespace Resolver

variable {r : Resolver} {s : Setup} {st st' : Resolution}

/-! ## The steps of a resolution -/

/-- One change to a resolution in progress. -/
inductive Step : Resolution → Resolution → Prop where
  | tell (st : Resolution) (faults : List Fault) (journal : Journal) :
      Step st { st with faults, journal }
  | specialize (st : Resolution) {b : Binding} (declared : b ∈ st.table.declared)
      (sub : Substitution) : Step st { st with table := (st.table.specialize b.id sub).2 }
  | addFallback (st : Resolution) (h : Handler) (q : Request) :
      Step st { st with table := (st.table.addFallback h q).2 }
  | build (st : Resolution) (nodes : List Node) (stems : ∀ n ∈ nodes, n.StemsFrom st.table) :
      Step st { st with nodes := st.nodes ++ nodes.toArray }
  | select (st : Resolution) (id : BindingId) (node : Option NodeId)
      (known : ∀ n, node = some n → n < st.nodes.size) :
      Step st { st with selected := (id, node) :: st.selected }

/-- Any number of changes. -/
abbrev Grows : Resolution → Resolution → Prop := Relation.ReflTransGen Step

/-- No step removes a node ... -/
theorem Step.size_le (step : Step st st') : st.nodes.size ≤ st'.nodes.size := by
  cases step <;> simp

/-- ... and no number of them does. -/
theorem Grows.size_le (grows : Grows st st') : st.nodes.size ≤ st'.nodes.size := by
  induction grows with
  | refl => exact Nat.le_refl _
  | tail _ step ih => exact Nat.le_trans ih step.size_le

theorem Step.node_eq (step : Step st st') {i : Nat} (lt : i < st.nodes.size) :
    st'.nodes.getD i default = st.nodes.getD i default := by
  cases step with
  | build nodes stems =>
    simp only [Array.getD_eq_getD_getElem?]
    rw [Array.getElem?_append_left lt]
  | tell | specialize | addFallback | select => rfl

/-- What was built stays where it is. -/
theorem Grows.node_eq (grows : Grows st st') {i : Nat} (lt : i < st.nodes.size) :
    st'.nodes.getD i default = st.nodes.getD i default := by
  induction grows with
  | refl => rfl
  | tail grows step ih =>
    rw [step.node_eq (Nat.lt_of_lt_of_le lt (Grows.size_le grows)), ih]

/-- A step enrolls specializations and fallback bindings, but declares nothing. -/
theorem Step.declared_eq (step : Step st st') : st'.table.declared = st.table.declared := by
  cases step with
  | specialize declared sub => exact BindingTable.declared_specialize st.table _ sub
  | addFallback h q => exact BindingTable.declared_addFallback st.table h q
  | tell | build | select => rfl

/-- The declared bindings stay what they are. -/
theorem Grows.declared_eq (grows : Grows st st') : st'.table.declared = st.table.declared := by
  induction grows with
  | refl => rfl
  | tail _ step ih => rw [step.declared_eq, ih]

/-- What a step enrolls is put behind the bindings that are there. -/
theorem Step.bindings_prefix (step : Step st st') :
    ∃ added, st'.table.bindings = st.table.bindings ++ added := by
  cases step with
  | specialize declared sub => exact BindingTable.bindings_specialize st.table _ sub
  | addFallback h q => exact BindingTable.bindings_addFallback st.table h q
  | tell | build | select => exact ⟨[], by simp⟩

theorem Grows.bindings_prefix (grows : Grows st st') :
    ∃ added, st'.table.bindings = st.table.bindings ++ added := by
  induction grows with
  | refl => exact ⟨[], by simp⟩
  | tail _ step ih =>
    obtain ⟨added, grown⟩ := ih
    obtain ⟨more, grown'⟩ := step.bindings_prefix
    exact ⟨added ++ more, by rw [grown', grown, List.append_assoc]⟩

/-! ## What every step keeps -/

/-- Keys determine profiles, nodes stem from bindings, and what was selected is there. -/
structure Sound (s : Setup) (st : Resolution) : Prop where
  keyed : st.table.Keyed s
  stems : ∀ n ∈ st.nodes, n.StemsFrom st.table
  selected_lt : ∀ id n, st.selected.lookup id = some (some n) → n < st.nodes.size

/-- Each kind of step keeps what a resolution relies on. -/
theorem Step.sound (sound : Sound s st) (step : Step st st') : Sound s st' where
  keyed := by
    cases step with
    | specialize declared sub => exact sound.keyed.specialize _ sub
    | addFallback h q => exact sound.keyed.addFallback h q
    | tell | build | select => exact sound.keyed
  stems n mem := by
    obtain ⟨added, grown⟩ := step.bindings_prefix
    have old : n ∈ st.nodes → n.StemsFrom st'.table := by
      intro mem
      obtain ⟨b, known, same⟩ := sound.stems n mem
      exact ⟨b, by rw [grown]; exact List.mem_append_left _ known, same⟩
    cases step with
    | build nodes stems =>
      rcases Array.mem_append.mp mem with mem | mem
      · exact old mem
      · exact stems n (by simpa using mem)
    | specialize | addFallback | tell | select => exact old mem
  selected_lt id n found := by
    cases step with
    | select other node known =>
      rw [List.lookup_cons] at found
      split at found
      · exact known n (by simpa using found)
      · exact sound.selected_lt id n found
    | build nodes stems =>
      exact Nat.lt_of_lt_of_le (sound.selected_lt id n found) (by simp)
    | specialize | addFallback | tell => exact sound.selected_lt id n found

/-- So any number of them does. -/
theorem Grows.sound (sound : Sound s st) (grows : Grows st st') : Sound s st' := by
  induction grows with
  | refl => exact sound
  | tail _ step ih => exact step.sound ih

/-- Before the first step nothing is built or selected. -/
theorem sound_register (s : Setup) : Sound s { table := BindingTable.register s } where
  keyed := BindingTable.keyed_register s
  stems n mem := by simp at mem
  selected_lt id n found := by simp at found

/-! ## Building nodes -/

/-- To instantiate a declared binding is one step or none. -/
theorem instantiate_grows {st : Resolution} {b : Binding} (declared : b ∈ st.table.declared)
    (isGeneric : Bool) (sub : Substitution) : Grows st (instantiate st b.id isGeneric sub).2 := by
  cases isGeneric
  · exact .refl
  · exact .tail (.single (.specialize st declared sub)) (.tell _ _ _)

/-- The items of a collection are instantiated one after the other. -/
theorem items_grows (element : TypeTerm) (found : List (Binding × Substitution)) :
    ∀ st, (∀ m ∈ found, m.1 ∈ st.table.declared) → Grows st (items st r element found).2 := by
  induction found with
  | nil => intro st _; exact .refl
  | cons m rest ih =>
    intro st declared
    have first := instantiate_grows (declared m List.mem_cons_self)
      (r.types.isOpen m.1.contract) m.2
    refine first.trans (ih _ fun m' mem => ?_)
    rw [first.declared_eq]
    exact declared m' (List.mem_cons_of_mem m mem)

/-- Only a collection has items to instantiate. -/
theorem collect_grows (r : Resolver) (st : Resolution) (n : Node) :
    Grows st (r.collect st n).2 := by
  unfold collect
  split
  · split
    · exact .tail (items_grows _ _ st fun m mem => mem_declared_of_itemMatches mem) (.tell _ _ _)
    · exact .refl
  · exact .refl

/-- Filling in the items of a collection keeps what the binding says about the node. -/
theorem collect_represents (r : Resolver) (st : Resolution) (n : Node) :
    (r.collect st n).1.id = n.id ∧
      ∀ b : Binding, n.Represents b → (r.collect st n).1.Represents b := by
  unfold collect
  split
  · rename_i p provided
    split
    · refine ⟨rfl, fun b represents => ?_⟩
      obtain ⟨binding, key, profile, contract, instanceType, builtin⟩ := represents
      simp only [Node.profile, Node.isOutside, Node.instanceType, Node.builtin?, provided]
        at profile instanceType builtin
      exact ⟨binding, key, profile, contract, instanceType, builtin⟩
    · exact ⟨rfl, fun b => id⟩
  · exact ⟨rfl, fun b => id⟩

/-- The collections among some nodes are filled in one after the other. -/
theorem collectAll_grows (nodes : List Node) : ∀ st, Grows st (r.collectAll st nodes).2 := by
  induction nodes with
  | nil => intro st; exact .refl
  | cons n rest ih =>
    intro st
    exact (collect_grows r st n).trans (ih _)

/-- A node with its items stands for the binding that it was built for. -/
theorem collectAll_represents (nodes : List Node) :
    ∀ st, ∀ n ∈ (r.collectAll st nodes).1, ∃ m ∈ nodes, n.id = m.id ∧
      ∀ b : Binding, m.Represents b → n.Represents b := by
  induction nodes with
  | nil => intro st n mem; cases mem
  | cons m rest ih =>
    intro st n mem
    rcases List.mem_cons.mp mem with rfl | mem
    · exact ⟨m, List.mem_cons_self, collect_represents r st m⟩
    · obtain ⟨m', known, same⟩ := ih _ n mem
      exact ⟨m', List.mem_cons_of_mem _ known, same⟩

theorem nodes_instantiate (st : Resolution) (id : BindingId) (isGeneric : Bool)
    (sub : Substitution) : (instantiate st id isGeneric sub).2.nodes = st.nodes := by
  cases isGeneric <;> rfl

theorem nodes_items (element : TypeTerm) (found : List (Binding × Substitution)) :
    ∀ st, (items st r element found).2.nodes = st.nodes := by
  induction found with
  | nil => intro st; rfl
  | cons m rest ih =>
    intro st
    exact (ih _).trans (nodes_instantiate st m.1.id _ m.2)

/-- Filling in items builds no nodes. -/
theorem nodes_collect (r : Resolver) (st : Resolution) (n : Node) :
    (r.collect st n).2.nodes = st.nodes := by
  unfold collect
  split
  · split
    · exact nodes_items _ _ st
    · rfl
  · rfl

/-- Filling in items appends no nodes, so the ids that nodes were given stay their places. -/
theorem nodes_collectAll (nodes : List Node) :
    ∀ st, (r.collectAll st nodes).2.nodes = st.nodes := by
  induction nodes with
  | nil => intro st; rfl
  | cons n rest ih =>
    intro st
    exact (ih _).trans (nodes_collect r st n)

/-- Filling in items loses no nodes. -/
theorem length_collectAll (nodes : List Node) :
    ∀ st, (r.collectAll st nodes).1.length = nodes.length := by
  induction nodes with
  | nil => intro st; rfl
  | cons n rest ih =>
    intro st
    simpa [collectAll] using ih _

/-- All constructions of a class are of its type. -/
theorem type_of_mem_constructions {rules : List AttributeRule} {location : Location}
    {canAnswer : Request → Bool} {c : Class} {cs : List Construction}
    (made : Node.constructions rules location canAnswer c = .ok cs) {c' : Construction}
    (mem : c' ∈ cs) : c'.type = c.type := by
  unfold Node.constructions at made
  split at made
  · cases made
  · dsimp only at made
    split at made
    · cases made
    · split at made
      · cases made
      · cases made
        obtain ⟨constructor, -, rfl⟩ := List.mem_map.mp mem
        rfl

/-- The kinds of node of a recipe are what the recipe says. -/
theorem represents_of_kinds {rules : List AttributeRule} {canAnswer : Request → Bool} {b : Binding}
    {kinds : List Node.Kind} (built : Node.kinds rules canAnswer b = .ok kinds) {n : Node}
    (mem : n.kind ∈ kinds) (binding : n.binding = b.id) (key : n.key = b.key)
    (lifetime : n.lifetime = b.lifetime) (contract : n.contract = b.contract) : n.Represents b := by
  have kind : n.isOutside = b.recipe.isOutside ∧ n.instanceType = b.instanceType ∧
      n.builtin? = b.recipe.builtin? := by
    unfold Node.isOutside Node.instanceType Node.builtin? Binding.instanceType
    unfold Node.kinds at built
    split at built
    · rename_i c recipe
      cases made : Node.constructions rules b.location canAnswer c with
      | error faults => rw [made] at built; cases built
      | ok cs =>
        rw [made] at built
        cases built
        obtain ⟨c', known, kind⟩ := List.mem_map.mp mem
        rw [← kind, recipe]
        exact ⟨rfl, type_of_mem_constructions made known, rfl⟩
    all_goals
      rename_i recipe
      cases built
      rw [List.mem_singleton.mp mem, recipe]
      exact ⟨rfl, rfl, rfl⟩
  exact ⟨binding, key, Prod.ext lifetime kind.1, contract, kind.2.1, kind.2.2⟩

/-- What `Node.build` gives: nodes of the binding, numbered on from `first`. -/
theorem build_ok {rules : List AttributeRule} {canAnswer : Request → Bool} {first : NodeId}
    {b : Binding} {nodes : List Node} (built : Node.build rules canAnswer first b = .ok nodes) :
    ∀ n ∈ nodes, n.Represents b ∧ n.id < first + nodes.length := by
  unfold Node.build at built
  cases made : Node.kinds rules canAnswer b with
  | error faults => rw [made] at built; cases built
  | ok kinds =>
    rw [made] at built
    cases built
    intro n mem
    obtain ⟨variant, lt, rfl⟩ := List.mem_mapIdx.mp mem
    refine ⟨?_, by simpa using lt⟩
    exact represents_of_kinds made (List.getElem_mem (h := lt)) rfl rfl rfl rfl

/-- The node that is preferred is one of those to choose from. -/
theorem mem_of_preferred {t : BindingTable} {nodes : List Node} {n : Node}
    (preferred : r.preferred t nodes = some n) : n ∈ nodes := by
  unfold Resolver.preferred at preferred
  rcases Option.or_eq_some_iff.mp preferred with found | ⟨-, first⟩
  · exact List.mem_of_find?_eq_some found
  · exact List.mem_of_head? first

/-- Building a binding is a chain of steps, and the node that it selects is there afterwards. -/
theorem build_grows (r : Resolver) (st : Resolution) {b : Binding} (known : b ∈ st.table.bindings) :
    Grows st (r.build st b).2 ∧
      ∀ n, (r.build st b).1 = some n → n < (r.build st b).2.nodes.size := by
  simp only [build]
  split
  · refine ⟨.tail (.single (.tell st st.faults _)) (.tell _ _ _), ?_⟩
    intro n none
    cases none
  · rename_i nodes built
    set st₁ : Resolution := { st with journal := st.journal ++ Node.buildJournal b _ } with told
    have numbered := build_ok built
    have same := collectAll_represents (r := r) nodes st₁
    have collected : Grows st (r.collectAll st₁ nodes).2 :=
      .head (.tell st st.faults _) (collectAll_grows nodes st₁)
    have same_nodes : (r.collectAll st₁ nodes).2.nodes = st.nodes := nodes_collectAll nodes st₁
    constructor
    · refine .tail (.tail collected (.build _ _ ?_)) (.tell _ _ _)
      intro n mem
      obtain ⟨m, mem, -, represents⟩ := same n mem
      obtain ⟨added, grown⟩ := collected.bindings_prefix
      exact ⟨b, by rw [grown]; exact List.mem_append_left _ known, represents b (numbered m mem).1⟩
    · intro id selected
      obtain ⟨n, preferred, rfl⟩ := Option.map_eq_some_iff.mp selected
      obtain ⟨m, mem, id_eq, -⟩ := same n (mem_of_preferred preferred)
      obtain ⟨-, lt⟩ := numbered m mem
      rw [id_eq]
      refine Nat.lt_of_lt_of_le lt (Nat.le_of_eq ?_)
      simp [same_nodes, length_collectAll]

/-! ## Answering requests -/

/-- The outcome of a call that continues the resolution `st`: it is reached by steps, and the node
    that it answers with, if any, is there. -/
structure Delivers (st : Resolution) (result : Answer × Resolution) : Prop where
  grows : Grows st result.2
  node_lt : ∀ n, result.1 = .node n → n < result.2.nodes.size

/-- An answer without a node delivers whatever state was reached. -/
theorem Delivers.of_grows (grows : Grows st st') {a : Answer} (noNode : ∀ n, a ≠ .node n) :
    Delivers st (a, st') := ⟨grows, fun n answer => absurd answer (noNode n)⟩

/-- What is delivered after some steps is delivered. -/
theorem Delivers.of_trans {result : Answer × Resolution} (grows : Grows st st')
    (delivers : Delivers st' result) : Delivers st result :=
  ⟨grows.trans delivers.grows, delivers.node_lt⟩

/-- A selected node belongs to the graph and to the binding. -/
theorem select_delivers (r : Resolver) (sound : Sound s st) (id : BindingId) :
    Delivers st (r.select st id) := by
  unfold select
  split
  · rename_i node found
    refine ⟨.refl, fun n answer => ?_⟩
    cases answer
    exact sound.selected_lt id node found
  · exact .of_grows .refl nofun
  · split
    rename_i node st₁ built
    have grows : Grows st st₁ ∧ ∀ n, node = some n → n < st₁.nodes.size := by
      split at built
      · rename_i b found
        have := build_grows r st (List.mem_of_getElem? found)
        rwa [built] at this
      · cases built
        exact ⟨.refl, nofun⟩
    refine ⟨.tail grows.1 (.select st₁ id node grows.2), fun n answer => ?_⟩
    cases node with
    | none => cases answer
    | some selected => cases answer; exact grows.2 n rfl

theorem findBinding_grows (r : Resolver) (st : Resolution) (lastResort : Bool) (q : Request) :
    Grows st (r.findBinding st lastResort q).2 := by
  unfold findBinding
  split
  · exact .refl
  · rename_i m best
    obtain ⟨b, declared, id, -⟩ := bestMatch?_eq_some best
    rw [id]
    exact instantiate_grows declared m.isGeneric m.substitution

/-- Selecting what a search for a binding found. -/
theorem select_found_delivers (sound : Sound s st) {lastResort : Bool} {q : Request}
    {found : Option BindingId} (search : r.findBinding st lastResort q = (found, st'))
    (id : BindingId) : Delivers st (r.select st' id) := by
  have grows := findBinding_grows r st lastResort q
  rw [search] at grows
  exact .of_trans grows (select_delivers r (grows.sound sound) id)

/-- So does a node that answers a request. -/
theorem answer_delivers (r : Resolver) (sound : Sound s st) (q : Request) (isOptional : Bool) :
    Delivers st (r.answer st q isOptional) := by
  unfold answer
  split
  · rename_i id st₁ search
    exact select_found_delivers sound search id
  · rename_i st₁ search
    have grows : Grows st st₁ := by
      have := findBinding_grows r st false q
      rwa [search] at this
    have sound₁ := grows.sound sound
    split
    · exact .of_grows grows nofun
    · split
      · rename_i h _
        have added : Step st₁ _ := .addFallback st₁ h q
        exact .of_trans (.tail grows added) (select_delivers r (added.sound sound₁) _)
      · split
        · rename_i id st₂ resort
          exact .of_trans grows (select_found_delivers sound₁ resort id)
        · rename_i st₂ resort
          have := findBinding_grows r st₁ true q
          rw [resort] at this
          exact .of_grows (grows.trans this) nofun

/-! ## Edges and roots -/

/-- Edges that lead to nodes of the resolution. -/
def EdgesInside (st : Resolution) (edges : List Edge) : Prop :=
  ∀ e ∈ edges, e.source < st.nodes.size

theorem EdgesInside.mono {edges : List Edge} (inside : EdgesInside st edges)
    (grows : Grows st st') : EdgesInside st' edges :=
  fun e mem => Nat.lt_of_lt_of_le (inside e mem) grows.size_le

/-- Filling a slot gives an edge from a node of the graph, if any ... -/
theorem fill_grows (r : Resolver) (sound : Sound s st) (n : Node) (slot : Slot) :
    Grows st (r.fill st n slot).2 ∧
      EdgesInside (r.fill st n slot).2 (r.fill st n slot).1.toList := by
  unfold fill
  split
  rename_i a st₁ answered
  have delivers : Delivers st (a, st₁) := by
    split at answered
    · exact answered ▸ select_delivers r sound _
    · exact answered ▸ answer_delivers r sound _ _
  split
  · rename_i source
    refine ⟨.tail delivers.grows (.tell _ _ _), fun e mem => ?_⟩
    obtain rfl := Option.mem_some.mp (Option.mem_toList.mp mem)
    exact delivers.node_lt source rfl
  · exact ⟨delivers.grows, nofun⟩
  · split
    · exact ⟨.tail delivers.grows (.tell _ _ _), nofun⟩
    · exact ⟨.tail delivers.grows (.tell _ _ _), nofun⟩

/-- ... and filling all slots of a node gives edges from nodes of the graph. -/
theorem fillAll_grows (r : Resolver) (n : Node) (slots : List Slot) :
    ∀ {st}, Sound s st → Grows st (r.fillAll st n slots).2 ∧
      EdgesInside (r.fillAll st n slots).2 (r.fillAll st n slots).1 := by
  induction slots with
  | nil => intro st _; exact ⟨.refl, nofun⟩
  | cons slot rest ih =>
    intro st sound
    obtain ⟨first, inside⟩ := fill_grows r sound n slot
    obtain ⟨others, inside'⟩ := ih (first.sound sound)
    refine ⟨first.trans others, fun e mem => ?_⟩
    rcases List.mem_append.mp mem with mem | mem
    · exact inside.mono others e mem
    · exact inside' e mem

/-- The roots lead to nodes of the graph. -/
theorem resolveRoots_grows (r : Resolver) (declared : List RootDeclaration) :
    ∀ {st} (index : Nat), Sound s st → Grows st (r.resolveRoots st index declared).2 ∧
      ∀ root ∈ (r.resolveRoots st index declared).1,
        root.node < (r.resolveRoots st index declared).2.nodes.size := by
  induction declared with
  | nil => intro st index _; exact ⟨.refl, nofun⟩
  | cons d rest ih =>
    intro st index sound
    have delivers := answer_delivers r sound d.request false
    unfold resolveRoots
    cases answered : r.answer st d.request false with
    | mk a st₁ =>
    rw [answered] at delivers
    cases a with
    | node node =>
      obtain ⟨others, inside⟩ := ih (index + 1) (delivers.grows.sound sound)
      refine ⟨delivers.grows.trans others, fun root mem => ?_⟩
      rcases List.mem_cons.mp mem with rfl | mem
      · exact Nat.lt_of_lt_of_le (delivers.node_lt node rfl) others.size_le
      · exact inside root mem
    | failed =>
      obtain ⟨others, inside⟩ := ih (index + 1) (delivers.grows.sound sound)
      exact ⟨delivers.grows.trans others, inside⟩
    | missing =>
      have told : Step st₁ { st₁ with faults := st₁.faults ++
          [.missingBinding d.request s!"the composition root {d.name}" d.location] } :=
        .tell st₁ _ st₁.journal
      have reported : Grows st _ := delivers.grows.tail told
      obtain ⟨others, inside⟩ := ih (index + 1) (reported.sound sound)
      exact ⟨reported.trans others, inside⟩

/-! ## The queue -/

/-- What was taken so far are nodes of the resolution, and so are the nodes that their edges lead
    to.  A value from outside has no edges. -/
def TakenInside (st : Resolution) (taken : Taken) : Prop :=
  ∀ entry ∈ taken, entry.1 < st.nodes.size ∧ EdgesInside st entry.2 ∧
    ((st.nodes.getD entry.1 default).isOutside = true → entry.2 = [])

theorem TakenInside.mono {taken : Taken} (inside : TakenInside st taken) (grows : Grows st st') :
    TakenInside st' taken := by
  intro entry mem
  obtain ⟨lt, edges, outside⟩ := inside entry mem
  refine ⟨Nat.lt_of_lt_of_le lt grows.size_le, edges.mono grows, ?_⟩
  rw [grows.node_eq lt]
  exact outside

/-- A value from outside asks for nothing. -/
theorem slots_of_isOutside {n : Node} (outside : n.isOutside = true) : n.slots = [] := by
  unfold Node.isOutside at outside
  unfold Node.slots
  cases kind : n.kind <;> rw [kind] at outside
  case outside => rfl
  all_goals cases outside

/-- The edges that are taken from the queue are those of nodes of the graph. -/
theorem drain_grows (r : Resolver) (turns : Nat) :
    ∀ {st taken queue taken' st'}, Sound s st → TakenInside st taken →
      (∀ id ∈ queue, id < st.nodes.size) → r.drain turns st taken queue = some (taken', st') →
      Grows st st' ∧ TakenInside st' taken' := by
  induction turns with
  | zero =>
    intro st taken queue taken' st' sound inside known drained
    cases queue with
    | nil => cases drained; exact ⟨.refl, inside⟩
    | cons id queue => cases drained
  | succ turns ih =>
    intro st taken queue taken' st' sound inside known drained
    cases queue with
    | nil => cases drained; exact ⟨.refl, inside⟩
    | cons id queue =>
      simp only [drain] at drained
      have known' : ∀ id ∈ queue, id < st.nodes.size := fun i mem =>
        known i (List.mem_cons_of_mem id mem)
      split at drained
      · exact ih sound inside known' drained
      · set n := st.nodes.getD id default with n_eq
        have lt := known id List.mem_cons_self
        obtain ⟨grows, edges⟩ := fillAll_grows r n n.slots sound
        have inside₁ : TakenInside (r.fillAll st n n.slots).2
            ((id, (r.fillAll st n n.slots).1) :: taken) := by
          intro entry mem
          rcases List.mem_cons.mp mem with rfl | mem
          · refine ⟨Nat.lt_of_lt_of_le lt grows.size_le, edges, fun outside => ?_⟩
            rw [grows.node_eq lt, ← n_eq] at outside
            rw [slots_of_isOutside outside]
            rfl
          · exact inside.mono grows entry mem
        have known₁ : ∀ i ∈ queue ++ (r.fillAll st n n.slots).1.map (·.source),
            i < (r.fillAll st n n.slots).2.nodes.size := by
          intro i mem
          rcases List.mem_append.mp mem with mem | mem
          · exact Nat.lt_of_lt_of_le (known' i mem) grows.size_le
          · obtain ⟨e, edge, rfl⟩ := List.mem_map.mp mem
            exact edges e edge
        obtain ⟨rest, inside'⟩ := ih (grows.sound sound) inside₁ known₁ drained
        exact ⟨grows.trans rest, inside'⟩

end Resolver

/-! ## The graph -/

namespace Graph

/-- A well-formed graph as the walk needs it: edges and roots lead to nodes of the graph, where they
    are entered, values from outside have no edges, and nodes that share a storage key share their
    profile. -/
structure Uniform (g : Graph) : Prop where
  source_lt : ∀ id, ∀ e ∈ g.dependencies id, e.source < g.nodes.size
  dependents_perm : ∀ i, (g.dependents i).Perm (g.allEdges.filter (·.source == i))
  root_lt : ∀ root ∈ g.roots, root.node < g.nodes.size
  outside : ∀ id, (g.node id).isOutside = true → g.dependencies id = []
  profile_eq : ∀ i j, i < g.nodes.size → j < g.nodes.size → (g.node i).key = (g.node j).key →
    (g.node i).profile = (g.node j).profile

/-- A graph that a resolver accepted: the result for some setup, whatever the number of turns
    allowed. -/
def IsResolvedBy (g : Graph) (r : Resolver) : Prop :=
  ∃ (turns : Nat) (s : Setup) (o : Resolver.Outcome),
    r.resolve turns (BindingTable.register s) s = some o ∧ o.result = .ok g

/-- A graph that resolution accepted, whatever the types, the attribute rules and the fallback
    handlers. -/
def IsResolved (g : Graph) : Prop := ∃ r : Resolver, g.IsResolvedBy r

end Graph

/-- The edges of a node of a finished resolution are those that were taken for it. -/
theorem Resolver.mem_dependencies {s : Setup} {st : Resolution} {roots : List Root} {taken : Taken}
    {id : NodeId} {e : Edge} (mem : e ∈ (graph s roots taken st).dependencies id) :
    ∃ edges, (id, edges) ∈ taken ∧ e ∈ edges := by
  simp only [Graph.dependencies, graph, Array.getD_eq_getD_getElem?, List.getElem?_toArray,
    List.getElem?_map] at mem
  cases found : taken.lookup id with
  | none =>
    by_cases lt : id < st.nodes.size <;> simp [lt, found] at mem
  | some edges =>
    obtain ⟨before, after, split, -⟩ := List.lookup_eq_some_iff.mp found
    by_cases lt : id < st.nodes.size
    · exact ⟨edges, by simp [split], by simpa [lt, found] using mem⟩
    · simp [lt] at mem

/-- So the graph of a resolution is well-formed, whether it is accepted or not. -/
theorem Resolver.graph_uniform {s : Setup} {st : Resolution} {roots : List Root} {taken : Taken}
    (sound : Sound s st) (rootsInside : ∀ root ∈ roots, root.node < st.nodes.size)
    (inside : TakenInside st taken) : (graph s roots taken st).Uniform where
  source_lt id e mem := by
    obtain ⟨edges, known, mem⟩ := mem_dependencies mem
    exact (inside _ known).2.1 e mem
  dependents_perm := dependents_perm fun e mem => by
    obtain ⟨id, mem⟩ := Graph.mem_allEdges_iff.mp mem
    obtain ⟨edges, known, mem⟩ := mem_dependencies mem
    exact (inside _ known).2.1 e mem
  root_lt := rootsInside
  outside id outside := by
    refine List.eq_nil_iff_forall_not_mem.mpr fun e mem => ?_
    obtain ⟨edges, known, mem⟩ := mem_dependencies mem
    have none : edges = [] := (inside _ known).2.2 outside
    rw [none] at mem
    cases mem
  profile_eq i j lt lt' key := by
    have stems : ∀ k < st.nodes.size, ((graph s roots taken st).node k).StemsFrom st.table := by
      intro k h
      rw [show (graph s roots taken st).node k = st.nodes[k] by simp [Graph.node, graph, h]]
      exact sound.stems _ (Array.getElem_mem h)
    obtain ⟨b, known, represents⟩ := stems i lt
    obtain ⟨b', known', represents'⟩ := stems j lt'
    rw [represents.profile, represents'.profile]
    exact sound.keyed.profile_eq known known' (by rw [← represents.key, ← represents'.key, key])

/-- A resolution, from the registered table to the end of the queue, is a chain of steps, and what it
    took is inside. -/
theorem Resolver.resolve_inside {r : Resolver} {s : Setup} {turns : Nat} {taken : Taken}
    {st : Resolution}
    (drained : r.drain turns (r.resolveRoots { table := BindingTable.register s } 0 s.roots).2 []
      ((r.resolveRoots { table := BindingTable.register s } 0 s.roots).1.map (·.node)) =
        some (taken, st)) :
    Grows { table := BindingTable.register s } st ∧ TakenInside st taken ∧
      ∀ root ∈ (r.resolveRoots { table := BindingTable.register s } 0 s.roots).1,
        root.node < st.nodes.size := by
  obtain ⟨toRoots, rootsInside⟩ := resolveRoots_grows r s.roots 0 (sound_register s)
  have nothing : TakenInside
      (r.resolveRoots { table := BindingTable.register s } 0 s.roots).2 [] := nofun
  have known :
      ∀ id ∈ (r.resolveRoots { table := BindingTable.register s } 0 s.roots).1.map (·.node),
      id < (r.resolveRoots { table := BindingTable.register s } 0 s.roots).2.nodes.size := by
    intro id mem
    obtain ⟨root, declared, rfl⟩ := List.mem_map.mp mem
    exact rootsInside root declared
  obtain ⟨toEnd, inside⟩ :=
    drain_grows r turns (toRoots.sound (sound_register s)) nothing known drained
  exact ⟨toRoots.trans toEnd, inside, fun root mem =>
    Nat.lt_of_lt_of_le (rootsInside root mem) toEnd.size_le⟩

/-- Every graph that resolution accepts is well formed. -/
theorem Graph.IsResolved.uniform {g : Graph} (resolved : g.IsResolved) : g.Uniform := by
  obtain ⟨r, turns, s, o, resolve, ok⟩ := resolved
  unfold Resolver.resolve at resolve
  obtain ⟨⟨taken, st⟩, drained, made⟩ := Option.bind_eq_some_iff.mp resolve
  obtain ⟨grows, inside, rootsInside⟩ := Resolver.resolve_inside drained
  cases made
  simp only at ok
  split at ok
  · cases ok
    exact Resolver.graph_uniform (grows.sound (Resolver.sound_register s)) rootsInside inside
  · cases ok

end ObjectGraph
