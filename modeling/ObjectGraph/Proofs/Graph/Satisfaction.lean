import Mathlib.Computability.Primrec.List
import Mathlib.Data.List.Permutation
import ObjectGraph.Proofs.Compiler.Stages
import ObjectGraph.Proofs.Graph.Encounter
import ObjectGraph.Proofs.Graph.Relevance

/-
  A variant that can be served is found, and stays one.

  The variants of a class are judged once, when its binding is selected, and the slots of the
  selected one are filled when its turn comes.  Both go by the declared bindings, by the fallback
  handlers and by the last resort.  What is enrolled in between are specializations and fallback
  bindings, and neither is matched against requests, so the judgement stands
  (`fillAll_faults`).

  `Picks` is the invariant of the first half: each selection of a class is the preferred one of its
  variants, and these stand side by side among the nodes.  Only `select` has to establish it
  (`select_picks`); all else that a resolution does leaves the selections alone.
-/

namespace ObjectGraph

namespace Resolver

variable {r : Resolver} {s : Setup} {st st' st'' : Resolution} {t : BindingTable} {b : Binding}
  {c : Class} {id : BindingId} {i : NodeId} {n : Node} {vs : List Node}

/-- Something answers each request of the node that does not have a default value. -/
def CanServe (r : Resolver) (t : BindingTable) (n : Node) : Prop :=
  ∀ slot ∈ n.slots, slot.isOptional = false → ∃ p, r.provider? t slot.request false = some p

/-! ## Nodes of classes -/

/-- A variant of a class is satisfiable if it can be served. -/
theorem isSatisfiable_iff (numbered : t.Numbered) {made : Construction}
    (kind : n.kind = .construct made) : r.isSatisfiable t n = true ↔ r.CanServe t n := by
  rw [isSatisfiable, List.all_eq_true]
  refine forall₂_congr fun slot mem => ?_
  rw [n.pinned_of_construct kind slot mem, Option.isSome_none, Bool.or_false, Bool.or_eq_true,
    canAnswer_iff numbered]
  cases slot.isOptional <;> simp

/-- The variants of a class are built by its constructors. -/
theorem construct_of_build (recipe : b.recipe = .construct c) {canAnswer : Request → Bool}
    {first : NodeId} (built : Node.build r.rules canAnswer first b = .ok vs) :
    ∀ v ∈ vs, ∃ made, v.kind = .construct made := by
  unfold Node.build Node.kinds at built
  rw [recipe] at built
  dsimp only at built
  cases constructed : Node.constructions r.rules b.location canAnswer c with
  | error faults => rw [constructed] at built; cases built
  | ok cs =>
    rw [constructed] at built
    cases built
    intro v mem
    obtain ⟨place, lt, rfl⟩ := List.mem_mapIdx.mp mem
    exact ⟨cs.get ⟨place, by simpa using lt⟩, by simp⟩

/-- And they are numbered in their order. -/
theorem id_of_build {canAnswer : Request → Bool} {first : NodeId}
    (built : Node.build r.rules canAnswer first b = .ok vs) {k : Nat} {v : Node}
    (at_k : vs[k]? = some v) : v.id = first + k := by
  unfold Node.build at built
  cases kinds : Node.kinds r.rules canAnswer b with
  | error faults => rw [kinds] at built; cases built
  | ok ks =>
    rw [kinds] at built
    cases built
    rw [List.getElem?_mapIdx] at at_k
    obtain ⟨kind, -, rfl⟩ := Option.map_eq_some_iff.mp at_k
    rfl

/-- Classes have no items to fill in. -/
theorem collectAll_construct (nodes : List Node)
    (all : ∀ v ∈ nodes, ∃ made, v.kind = .construct made) :
    ∀ st, r.collectAll st nodes = (nodes, st) := by
  induction nodes with
  | nil => exact fun _ => rfl
  | cons n rest ih =>
    intro st
    obtain ⟨made, kind⟩ := all n List.mem_cons_self
    have one : r.collect st n = (n, st) := by rw [collect, kind]
    rw [collectAll, one]
    dsimp only
    rw [ih (fun v mem => all v (List.mem_cons_of_mem n mem))]

/-- The preferred one of some nodes is the first that can be served, or the first of all. -/
theorem exists_preferred (preferred : r.preferred t vs = some n) :
    ∃ k, vs[k]? = some n ∧
      ((r.isSatisfiable t n = true ∧ ∀ j < k, ∀ v, vs[j]? = some v → r.isSatisfiable t v ≠ true) ∨
        (k = 0 ∧ ∀ v ∈ vs, r.isSatisfiable t v ≠ true)) := by
  rcases Option.or_eq_some_iff.mp preferred with found | ⟨none, head⟩
  · obtain ⟨serves, k, lt, at_k, before⟩ := List.find?_eq_some_iff_getElem.mp found
    refine ⟨k, List.getElem?_eq_some_iff.mpr ⟨lt, at_k⟩, .inl ⟨serves, fun j less v at_j => ?_⟩⟩
    obtain ⟨lt', rfl⟩ := List.getElem?_eq_some_iff.mp at_j
    simpa using before j less
  · refine ⟨0, by rwa [← List.head?_eq_getElem?], .inr ⟨rfl, List.find?_eq_none.mp none⟩⟩

/-! ## What leaves the selections alone -/

/-- Only the table and what is told change. -/
structure Enrolls (st st' : Resolution) : Prop where
  nodes : st'.nodes = st.nodes
  selected : st'.selected = st.selected
  faults : st'.faults = st.faults

theorem Enrolls.refl (st : Resolution) : Enrolls st st := ⟨rfl, rfl, rfl⟩

theorem Enrolls.trans (first : Enrolls st st') (second : Enrolls st' st'') : Enrolls st st'' :=
  ⟨second.nodes.trans first.nodes, second.selected.trans first.selected,
    second.faults.trans first.faults⟩

theorem instantiate_enrolls (st : Resolution) (id : BindingId) (isGeneric : Bool)
    (sub : Substitution) : Enrolls st (instantiate st id isGeneric sub).2 := by
  cases isGeneric <;> exact ⟨rfl, rfl, rfl⟩

theorem items_enrolls (r : Resolver) (element : TypeTerm) (found : List (Binding × Substitution)) :
    ∀ st, Enrolls st (items st r element found).2 := by
  induction found with
  | nil => exact .refl
  | cons m rest ih => exact fun st => (instantiate_enrolls st m.1.id _ m.2).trans (ih _)

theorem collect_enrolls (r : Resolver) (st : Resolution) (n : Node) :
    Enrolls st (r.collect st n).2 := by
  unfold collect
  split
  · split
    · rename_i element _ _
      have items := items_enrolls r element (st.table.itemMatches r.types element) st
      exact ⟨items.nodes, items.selected, items.faults⟩
    · exact .refl st
  · exact .refl st

theorem collectAll_enrolls (r : Resolver) (nodes : List Node) :
    ∀ st, Enrolls st (r.collectAll st nodes).2 := by
  induction nodes with
  | nil => exact .refl
  | cons n rest ih => exact fun st => (collect_enrolls r st n).trans (ih _)

theorem findBinding_enrolls (r : Resolver) (st : Resolution) (lastResort : Bool) (q : Request) :
    Enrolls st (r.findBinding st lastResort q).2 := by
  unfold findBinding
  split
  · exact .refl st
  · exact instantiate_enrolls ..

/-- Building nodes selects none. -/
theorem build_selected (r : Resolver) (st : Resolution) (b : Binding) :
    (r.build st b).2.selected = st.selected := by
  simp only [build]
  split
  · rfl
  · exact (collectAll_enrolls r _ _).selected

/-- A node that was built stays where it is. -/
theorem Grows.getElem?_eq (grows : Grows st st') (found : st.nodes[i]? = some n) :
    st'.nodes[i]? = some n := by
  obtain ⟨lt, rfl⟩ := Array.getElem?_eq_some_iff.mp found
  have lt' := Nat.lt_of_lt_of_le lt grows.size_le
  have same := grows.node_eq lt
  simp only [Array.getD_eq_getD_getElem?, Array.getElem?_eq_getElem, lt, lt', Option.getD_some]
    at same
  rw [Array.getElem?_eq_getElem lt', same]

/-- A binding that is known stays the same. -/
theorem Grows.binding?_eq (grows : Grows st st') (known : st.table.binding? id = some b) :
    st'.table.binding? id = some b := by
  obtain ⟨added, grown⟩ := grows.bindings_prefix
  rw [BindingTable.binding?] at known ⊢
  rw [grown, List.getElem?_append_left (List.getElem?_eq_some_iff.mp known).1, known]

/-! ## What is selected -/

/-- The variants of a binding were built side by side, from `first` on, and `i` is the preferred
    one. -/
structure Picked (r : Resolver) (t : BindingTable) (nodes : Array Node) (b : Binding)
    (first : NodeId) (vs : List Node) (i : NodeId) : Prop where
  built : Node.build r.rules (r.canAnswer t) first b = .ok vs
  located : ∀ k v, vs[k]? = some v → nodes[first + k]? = some v
  preferred : (r.preferred t vs).map (·.id) = some i

theorem preferred_congr {t' : BindingTable} (same : t'.declared = t.declared) (nodes : List Node) :
    r.preferred t' nodes = r.preferred t nodes := by
  have satisfiable : r.isSatisfiable t' = r.isSatisfiable t := by
    funext n
    rw [isSatisfiable, canAnswer_congr r same]
    rfl
  rw [Resolver.preferred, satisfiable]
  rfl

/-- A pick stands, whatever is enrolled later. -/
theorem Picked.mono {first : NodeId} (picked : Picked r st.table st.nodes b first vs i)
    (grows : Grows st st') : Picked r st'.table st'.nodes b first vs i where
  built := by rw [canAnswer_congr r grows.declared_eq]; exact picked.built
  located k v at_k := grows.getElem?_eq (picked.located k v at_k)
  preferred := by rw [preferred_congr grows.declared_eq]; exact picked.preferred

/-- All nodes selected so far were selected for a binding, and those of classes are the preferred
    ones. -/
def Picks (r : Resolver) (st : Resolution) : Prop :=
  ∀ id i, (id, some i) ∈ st.selected → ∃ b, st.table.binding? id = some b ∧
    ∀ c, b.recipe = .construct c → ∃ first vs, Picked r st.table st.nodes b first vs i

theorem Picks.mono (picks : Picks r st) (grows : Grows st st')
    (same : st'.selected = st.selected) : Picks r st' := by
  intro id i mem
  obtain ⟨b, known, picked⟩ := picks id i (same ▸ mem)
  refine ⟨b, grows.binding?_eq known, fun c recipe => ?_⟩
  obtain ⟨first, vs, picked⟩ := picked c recipe
  exact ⟨first, vs, picked.mono grows⟩

/-- What building a class appends, and what it selects. -/
theorem build_construct (recipe : b.recipe = .construct c)
    (built : Node.build r.rules (r.canAnswer st.table) st.nodes.size b = .ok vs) :
    (r.build st b).1 = (r.preferred st.table vs).map (·.id) ∧
      (r.build st b).2.nodes = st.nodes ++ vs.toArray := by
  have plain := collectAll_construct (r := r) vs (construct_of_build recipe built)
  simp only [build]
  rw [built]
  dsimp only
  rw [plain]
  exact ⟨rfl, rfl⟩

/-- Building a class picks one of its variants, unless there is something wrong with it. -/
theorem build_picked (known : st.table.binding? id = some b) (recipe : b.recipe = .construct c)
    (selected : (r.build st b).1 = some i) :
    ∃ first vs, Picked r (r.build st b).2.table (r.build st b).2.nodes b first vs i := by
  have grows := (build_grows r st (List.mem_of_getElem? known)).1
  cases built : Node.build r.rules (r.canAnswer st.table) st.nodes.size b with
  | error faults =>
    simp only [build] at selected
    rw [built] at selected
    cases selected
  | ok vs =>
    obtain ⟨preferred, nodes⟩ := build_construct recipe built
    refine ⟨st.nodes.size, vs, ?_, fun k v at_k => ?_, ?_⟩
    · rw [canAnswer_congr r grows.declared_eq, built]
    · rw [nodes, Array.getElem?_append_right (Nat.le_add_right _ k), Nat.add_sub_cancel_left,
        List.getElem?_toArray, at_k]
    · rw [preferred_congr grows.declared_eq, ← preferred, selected]

/-- Only here a pick is made: of the nodes just built the preferred one is selected. -/
theorem select_picks (r : Resolver) (picks : Picks r st) (id : BindingId) :
    Picks r (r.select st id).2 := by
  unfold select
  split
  · exact picks
  · exact picks
  · cases known : st.table.binding? id with
    | none =>
      intro id' i mem
      rcases List.mem_cons.mp mem with same | mem
      · cases same
      · exact picks id' i mem
    | some b =>
      have grows := (build_grows r st (List.mem_of_getElem? known)).1
      intro id' i mem
      rcases List.mem_cons.mp mem with same | mem
      · obtain ⟨rfl, selected⟩ := Prod.mk.inj same
        exact ⟨b, grows.binding?_eq known, fun c recipe =>
          build_picked known recipe selected.symm⟩
      · exact picks.mono grows (build_selected r st b) id' i mem

/-- Looking for a binding and selecting it. -/
theorem found_picks (picks : Picks r st) {lastResort : Bool} {q : Request}
    {found : Option BindingId} (search : r.findBinding st lastResort q = (found, st')) :
    Picks r st' := by
  have grows := findBinding_grows r st lastResort q
  have enrolls := findBinding_enrolls r st lastResort q
  rw [search] at grows enrolls
  exact picks.mono grows enrolls.selected

/-- An answer selects what it found and nothing else. -/
theorem answer_picks (r : Resolver) (picks : Picks r st) (q : Request) (isOptional : Bool) :
    Picks r (r.answer st q isOptional).2 := by
  unfold answer
  split
  · rename_i id st₁ search
    exact select_picks r (found_picks picks search) id
  · rename_i st₁ search
    have picks₁ := found_picks picks search
    split
    · exact picks₁
    · split
      · rename_i h _
        have added : Grows st₁ { st₁ with table := (st₁.table.addFallback h q).2 } :=
          .single (.addFallback st₁ h q)
        exact select_picks r (picks₁.mono added rfl) _
      · split
        · rename_i id st₂ resort
          exact select_picks r (found_picks picks₁ resort) id
        · rename_i st₂ resort
          exact found_picks picks₁ resort

theorem fill_picks (r : Resolver) (picks : Picks r st) (n : Node) (slot : Slot) :
    Picks r (r.fill st n slot).2 := by
  unfold fill
  split
  rename_i a st₁ answered
  have picks₁ : Picks r st₁ := by
    split at answered
    · rename_i id _
      have picks₁ := select_picks r picks id
      rwa [answered] at picks₁
    · have picks₁ := answer_picks r picks slot.request slot.isOptional
      rwa [answered] at picks₁
  split
  · exact picks₁
  · exact picks₁
  · split
    · exact picks₁
    · exact picks₁

/-- Slots are filled by answers ... -/
theorem fillAll_picks (r : Resolver) (n : Node) (slots : List Slot) :
    ∀ {st}, Picks r st → Picks r (r.fillAll st n slots).2 := by
  induction slots with
  | nil => exact id
  | cons slot rest ih => exact fun picks => ih (fill_picks r picks n slot)

/-- ... and so are roots. -/
theorem resolveRoots_picks (r : Resolver) (declared : List RootDeclaration) :
    ∀ {st} (index : Nat), Picks r st → Picks r (r.resolveRoots st index declared).2 := by
  induction declared with
  | nil => exact fun _ => id
  | cons d rest ih =>
    intro st index picks
    have picks₁ := answer_picks r picks d.request false
    unfold resolveRoots
    cases answered : r.answer st d.request false with
    | mk a st₁ =>
    rw [answered] at picks₁
    cases a with
    | node node => exact ih (index + 1) picks₁
    | failed => exact ih (index + 1) picks₁
    | missing =>
      have told : Picks r { st₁ with faults := st₁.faults ++
          [.missingBinding d.request s!"the composition root {d.name}" d.location] } := picks₁
      exact ih (index + 1) told

variable {taken : Taken} {queue : List NodeId}

/-- In every state of a resolution, the selections are the preferred ones. -/
theorem Stage.picks (stage : Stage r s st taken queue) : Picks r st := by
  induction stage with
  | start rooted =>
    have empty : Picks r { table := .register s } := nofun
    have picks := resolveRoots_picks r s.roots 0 empty
    rwa [rooted] at picks
  | drop _ _ ih => exact ih
  | @take _ _ _ _ _ n _ _ _ _ filled ih =>
    have picks := fillAll_picks r n n.slots ih
    rwa [filled] at picks

theorem Stage.grows (stage : Stage r s st taken queue) : Grows { table := .register s } st := by
  induction stage with
  | start rooted =>
    have grows := (resolveRoots_grows r s.roots 0 (sound_register s)).1
    rwa [rooted] at grows
  | drop _ _ ih => exact ih
  | @take _ _ _ _ _ n _ _ _ _ filled ih =>
    have grows := (fillAll_grows r n n.slots (ih.sound (sound_register s))).1
    rw [filled] at grows
    exact ih.trans grows

/-! ## The slots of a node that can be served -/

/-- What was reported since: nothing but faults of building nodes. -/
def OnlyBuilds (st st' : Resolution) : Prop :=
  ∃ added, st'.faults = st.faults ++ added ∧ ∀ f ∈ added, f.stage = .building

theorem OnlyBuilds.of_eq (same : st'.faults = st.faults) : OnlyBuilds st st' :=
  ⟨[], by rw [same, List.append_nil], nofun⟩

theorem OnlyBuilds.trans (first : OnlyBuilds st st') (second : OnlyBuilds st' st'') :
    OnlyBuilds st st'' := by
  obtain ⟨added, faults, builds⟩ := first
  obtain ⟨added', faults', builds'⟩ := second
  exact ⟨added ++ added', by rw [faults', faults, List.append_assoc],
    List.forall_mem_append.mpr ⟨builds, builds'⟩⟩

/-- Building reports nothing but faults of building. -/
theorem build_onlyBuilds (r : Resolver) (st : Resolution) (b : Binding) :
    OnlyBuilds st (r.build st b).2 := by
  simp only [build]
  cases kinds : Node.kinds r.rules (r.canAnswer st.table) b with
  | error faults =>
    have failed : Node.build r.rules (r.canAnswer st.table) st.nodes.size b = .error faults := by
      rw [Node.build, kinds]
      rfl
    rw [failed]
    exact ⟨faults, rfl, Node.stage_of_kinds kinds⟩
  | ok ks =>
    obtain ⟨vs, built⟩ : ∃ vs,
        Node.build r.rules (r.canAnswer st.table) st.nodes.size b = .ok vs := by
      rw [Node.build, kinds]
      exact ⟨_, rfl⟩
    rw [built]
    exact .of_eq (collectAll_enrolls r vs _).faults

/-- A binding is an answer, even if it cannot be built. -/
theorem select_onlyBuilds (r : Resolver) (st : Resolution) (id : BindingId) :
    OnlyBuilds st (r.select st id).2 ∧ (r.select st id).1 ≠ .missing := by
  unfold select
  split
  · exact ⟨.of_eq rfl, nofun⟩
  · exact ⟨.of_eq rfl, nofun⟩
  · refine ⟨?_, by dsimp only; split <;> exact nofun⟩
    cases st.table.binding? id with
    | none => exact .of_eq rfl
    | some b => exact build_onlyBuilds r st b

/-- Nothing is found if nothing matches. -/
theorem findBinding_none {lastResort : Bool} {q : Request}
    (search : r.findBinding st lastResort q = (none, st')) :
    st.table.bestMatch? r.types lastResort q = none ∧ st' = st := by
  unfold findBinding at search
  split at search
  · rename_i none
    cases search
    exact ⟨none, rfl⟩
  · cases search

/-- A request stays unanswered only if it may, or if there was nothing to answer it. -/
theorem answer_onlyBuilds (r : Resolver) (st : Resolution) (q : Request) (isOptional : Bool) :
    OnlyBuilds st (r.answer st q isOptional).2 ∧
      ((r.answer st q isOptional).1 = .missing →
        isOptional = true ∨ r.canAnswer st.table q = false) := by
  -- whatever was found and enrolled: selecting it gives an answer
  have selects (st₁ : Resolution) (same : st₁.faults = st.faults) (id : BindingId) :
      OnlyBuilds st (r.select st₁ id).2 ∧ ((r.select st₁ id).1 = .missing →
        isOptional = true ∨ r.canAnswer st.table q = false) := by
    obtain ⟨builds, answered⟩ := select_onlyBuilds r st₁ id
    exact ⟨(OnlyBuilds.of_eq same).trans builds, fun missing => absurd missing answered⟩
  unfold answer
  split
  · rename_i id st₁ search
    have enrolls := findBinding_enrolls r st false q
    rw [search] at enrolls
    exact selects st₁ enrolls.faults id
  · rename_i st₁ search
    obtain ⟨none, rfl⟩ := findBinding_none search
    split
    · rename_i optional
      exact ⟨.of_eq rfl, fun _ => .inl optional⟩
    · split
      · rename_i h _
        exact selects { st₁ with table := (st₁.table.addFallback h q).2 } rfl
          (st₁.table.addFallback h q).1
      · rename_i unhandled
        split
        · rename_i id st₂ resort
          have enrolls := findBinding_enrolls r st₁ true q
          rw [resort] at enrolls
          exact selects st₂ enrolls.faults id
        · rename_i st₂ resort
          obtain ⟨none', rfl⟩ := findBinding_none resort
          refine ⟨.of_eq rfl, fun _ => .inr ?_⟩
          rw [canAnswer, none, unhandled, none']
          rfl

/-- A slot that can be served is not reported as missing. -/
theorem fill_onlyBuilds (r : Resolver) (st : Resolution) (n : Node) {slot : Slot}
    (served : slot.isOptional = false → slot.pinned = none →
      r.canAnswer st.table slot.request = true) :
    OnlyBuilds st (r.fill st n slot).2 := by
  unfold fill
  split
  rename_i a st₁ answered
  have builds : OnlyBuilds st st₁ ∧ (a = .missing → slot.isOptional = true) := by
    split at answered
    · rename_i id _
      obtain ⟨builds, there⟩ := select_onlyBuilds r st id
      rw [answered] at builds there
      exact ⟨builds, fun missing => absurd missing there⟩
    · rename_i unpinned
      obtain ⟨builds, missing⟩ := answer_onlyBuilds r st slot.request slot.isOptional
      rw [answered] at builds missing
      refine ⟨builds, fun none => ?_⟩
      rcases missing none with optional | unanswered
      · exact optional
      · by_contra required
        rw [served (by simpa using required) unpinned] at unanswered
        cases unanswered
  split
  · exact builds.1
  · exact builds.1
  · rw [if_pos (builds.2 rfl)]
    exact builds.1

/-- Filling the slots of a node that can be served leaves none of them out, whatever was enrolled
    before and is enrolled meanwhile. -/
theorem fillAll_onlyBuilds (r : Resolver) (n : Node) (slots : List Slot) :
    ∀ {st}, Sound s st →
      (∀ slot ∈ slots, slot.isOptional = false → slot.pinned = none →
        r.canAnswer st.table slot.request = true) →
      OnlyBuilds st (r.fillAll st n slots).2 := by
  induction slots with
  | nil => exact fun _ _ => .of_eq rfl
  | cons slot rest ih =>
    intro st sound served
    have grows := (fill_grows r sound n slot).1
    have first := fill_onlyBuilds r st n (served slot List.mem_cons_self)
    refine first.trans (ih (grows.sound sound) fun slot' mem => ?_)
    rw [canAnswer_congr r grows.declared_eq]
    exact served slot' (List.mem_cons_of_mem slot mem)

/-- In every state of a resolution, the node that is selected for a class is the first one of its
    variants whose required slots can all be answered, or the first of all variants if there is
    none.  If there is one, then filling the slots of the selected node misses no binding, whatever
    happens to the resolution before. -/
theorem satisfiable_variant_found (stage : Stage r s st taken queue)
    (selected : st.selected.lookup id = some (some i)) (known : st.table.binding? id = some b)
    (recipe : b.recipe = .construct c) :
    ∃ first vs k n, Node.build r.rules (r.canAnswer st.table) first b = .ok vs ∧
      (∀ j v, vs[j]? = some v → st.nodes[first + j]? = some v) ∧
      vs[k]? = some n ∧ i = first + k ∧
      ((r.CanServe (.register s) n ∧
          ∀ j < k, ∀ v, vs[j]? = some v → ¬ r.CanServe (.register s) v) ∨
        (k = 0 ∧ ∀ v ∈ vs, ¬ r.CanServe (.register s) v)) ∧
      ((∃ v ∈ vs, r.CanServe (.register s) v) → ∀ st', Grows st st' →
        st'.nodes[i]? = some n ∧
          ∃ added, (r.fillAll st' n n.slots).2.faults = st'.faults ++ added ∧
            ∀ q requester location, .missingBinding q requester location ∉ added) := by
  have numbered := BindingTable.numbered_register s
  obtain ⟨before, after, split, -⟩ := List.lookup_eq_some_iff.mp selected
  obtain ⟨b', known', picked⟩ := stage.picks id i (by simp [split])
  obtain rfl := Option.some.inj (known.symm.trans known')
  obtain ⟨first, vs, picked⟩ := picked c recipe
  obtain ⟨n, preferred, number⟩ := Option.map_eq_some_iff.mp picked.preferred
  rw [preferred_congr stage.grows.declared_eq] at preferred
  obtain ⟨k, at_k, choice⟩ := exists_preferred preferred
  have place : i = first + k := number.symm.trans (id_of_build picked.built at_k)
  have serves_iff : ∀ v ∈ vs, r.isSatisfiable (.register s) v = true ↔ r.CanServe (.register s) v :=
    fun v mem => by
      obtain ⟨made, kind⟩ := construct_of_build recipe picked.built v mem
      exact isSatisfiable_iff numbered kind
  have choice' : (r.CanServe (.register s) n ∧
        ∀ j < k, ∀ v, vs[j]? = some v → ¬ r.CanServe (.register s) v) ∨
      (k = 0 ∧ ∀ v ∈ vs, ¬ r.CanServe (.register s) v) := by
    rcases choice with ⟨serves, before⟩ | ⟨zero, none⟩
    · refine .inl ⟨(serves_iff n (List.mem_of_getElem? at_k)).mp serves, fun j lt v at_j => ?_⟩
      rw [← serves_iff v (List.mem_of_getElem? at_j)]
      exact before j lt v at_j
    · refine .inr ⟨zero, fun v mem => ?_⟩
      rw [← serves_iff v mem]
      exact none v mem
  refine ⟨first, vs, k, n, picked.built, picked.located, at_k, place, choice',
    fun ⟨v, v_mem, v_serves⟩ st' grows => ?_⟩
  have serves : r.CanServe (.register s) n := by
    rcases choice' with ⟨serves, -⟩ | ⟨-, none⟩
    · exact serves
    · exact absurd v_serves (none v v_mem)
  have from_start : Grows { table := .register s } st' := stage.grows.trans grows
  have answerable : ∀ slot ∈ n.slots, slot.isOptional = false → slot.pinned = none →
      r.canAnswer st'.table slot.request = true := fun slot mem required _ => by
    rw [canAnswer_congr r from_start.declared_eq]
    exact (canAnswer_iff numbered).mpr (serves slot mem required)
  obtain ⟨added, faults, builds⟩ :=
    fillAll_onlyBuilds r n n.slots (from_start.sound (sound_register s)) answerable
  refine ⟨grows.getElem?_eq (place ▸ picked.located k n at_k), added, faults,
    fun q requester location mem => ?_⟩
  have stage := builds _ mem
  cases stage

end Resolver

namespace Sample

/-- A class with two constructors.  The first one has more parameters that can be answered below,
    but nothing answers its `X`. -/
def twoWays : Class where
  type := .plain "A"
  constructors := [
    { parameters := ["X", "Y", "Z"].map fun n => { name := n, type := .plain n } },
    { parameters := [
        { name := "l", type := applied "L" (.plain "Y") },
        { name := "x", type := .plain "X", hasDefault := true }] }]

/-- What its constructors ask for, but for `X`.  A generic class answers `L<Y>`. -/
def lackingX : Setup := setup [
  { recipe := .construct twoWays },
  service "Y" [] .transient, service "Z" [] .transient,
  { contracts := [applied "L" (.plain "TT")]
    recipe := .construct { type := applied "L" (.plain "TT"), constructors := [{}] } }] ["A"]

end Sample

namespace Resolver

/-- The second constructor is selected, and whatever happens before its turn, its request for `L<Y>`
    is answered then. -/
theorem satisfiable_variant_found_twoWays : ∃ st b,
    Stage { types := .standard } Sample.lackingX st [] [1] ∧
    st.selected.lookup 0 = some (some 1) ∧ st.table.binding? 0 = some b ∧
    b.recipe = .construct Sample.twoWays ∧
    ∃ n, st.nodes[1]? = some n ∧ CanServe { types := .standard } (.register Sample.lackingX) n ∧
      ∀ st', Grows st st' → st'.nodes[1]? = some n ∧
        ∃ added, (fillAll { types := .standard } st' n n.slots).2.faults = st'.faults ++ added ∧
          ∀ q requester location, .missingBinding q requester location ∉ added := by
  have run : (fun rooted : List Root × Resolution =>
        (rooted.1.map (·.node), rooted.2.selected, (rooted.2.table.binding? 0).map (·.recipe),
          rooted.2.nodes[1]?.map (isSatisfiable { types := .standard } (.register Sample.lackingX))))
      (resolveRoots { types := .standard } { table := .register Sample.lackingX } 0
        Sample.lackingX.roots) =
      ([1], [(0, some 1)], some (.construct Sample.twoWays), some true) := by
    -- constructors are sorted, which only `cbv` evaluates; it unfolds `List.lookup` by the equations
    -- of `Primrec.List`
    cbv
  set rooted := resolveRoots { types := .standard } { table := .register Sample.lackingX } 0
    Sample.lackingX.roots with rooted_eq
  simp only [Prod.mk.injEq, Option.map_eq_some_iff] at run
  obtain ⟨queue, selections, ⟨b, known, recipe⟩, ⟨n, at_1, satisfiable⟩⟩ := run
  have stage : Stage { types := .standard } Sample.lackingX rooted.2 [] [1] :=
    queue ▸ .start rooted_eq.symm
  have selected : rooted.2.selected.lookup 0 = some (some 1) := by rw [selections]; rfl
  obtain ⟨first, vs, k, n', built, located, at_k, place, -, served⟩ :=
    satisfiable_variant_found stage selected known recipe
  obtain rfl : n = n' := Option.some.inj (at_1.symm.trans (place ▸ located k n' at_k))
  have mem := List.mem_of_getElem? at_k
  obtain ⟨made, kind⟩ := construct_of_build recipe built n mem
  have serves := (isSatisfiable_iff (BindingTable.numbered_register _) kind).mp satisfiable
  exact ⟨rooted.2, b, stage, selected, known, recipe, n, at_1, serves, served ⟨n, mem, serves⟩⟩

end Resolver

end ObjectGraph
