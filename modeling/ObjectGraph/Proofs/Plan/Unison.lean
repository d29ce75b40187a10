import ObjectGraph.Plan.Annotate
import ObjectGraph.Plan.Event
import ObjectGraph.Proofs.Plan.Mirror

/-
  Walks in unison.

  Graphs that match, walked from one root after another in the same order, do not just make alike what
  each root needs: they make the very same variables at the same time.  Nothing can differ but what
  the graphs themselves number, which is the nodes of the variables and the keys under which they are
  found.  `Arena.Unison` says so of the arenas, and every choice of a walk keeps it (`Placed.Unison`,
  `Walk.Unison`).  So the plans are equal, with their steps (`Plan.annotate_eq`), and so are the calls
  of an emitter (`Call.ofPlans_eq`) but for the numbers of the bindings that the items of collections
  come from.
-/

namespace ObjectGraph

open Arena

/-- A variable without the node that it is an instance of. -/
def Variable.nodeless (v : Variable) : Variable := { v with node := 0 }

variable {g h : Graph} {R : NodeId → NodeId → Prop} {a a' : Arena} {n n' : NodeId} {q : Request}

/-! ## Arenas -/

/-- Keys of nodes that stand for each other, for the same block if for any. -/
inductive StorageKey.Alike (g h : Graph) (R : NodeId → NodeId → Prop) :
    StorageKey → StorageKey → Prop where
  | binding {n n' : NodeId} (pair : R n n') :
      Alike g h R (.binding (g.node n).key) (.binding (h.node n').key)
  | hoisted {n n' : NodeId} (pair : R n n') (block : VariableId) :
      Alike g h R (.hoisted (g.node n).key block) (.hoisted (h.node n').key block)

/-- Keys that are alike are told apart alike. -/
theorem StorageKey.Alike.eq_iff (corresponds : g.Matches h R) {k k' l l' : StorageKey}
    (alike : Alike g h R k k') (alike' : Alike g h R l l') : k = l ↔ k' = l' := by
  cases alike with
  | binding pair =>
    cases alike' with
    | binding pair' => simp only [StorageKey.binding.injEq, corresponds.key pair pair']
    | hoisted => exact ⟨nofun, nofun⟩
  | hoisted pair block =>
    cases alike' with
    | binding => exact ⟨nofun, nofun⟩
    | hoisted pair' block' => simp only [StorageKey.hoisted.injEq, corresponds.key pair pair']

/-- Arenas that are the same but for the nodes of the variables and the keys under which they are
    found. -/
structure Arena.Unison (g h : Graph) (R : NodeId → NodeId → Prop) (a a' : Arena) : Prop where
  size : a.vars.size = a'.vars.size
  same : ∀ v, (a.var v).nodeless = (a'.var v).nodeless
  node : ∀ v : Nat, v < a.vars.size → R (a.var v).node (a'.var v).node
  stored : List.Forall₂ (fun x y => StorageKey.Alike g h R x.1 y.1 ∧ x.2 = y.2) a.stored a'.stored
  inside : ∀ entry ∈ a.stored, entry.2 < a.vars.size

namespace Arena.Unison

theorem empty (g h : Graph) (R : NodeId → NodeId → Prop) : Unison g h R {} {} :=
  ⟨rfl, fun _ => rfl, nofun, .nil, nofun⟩

variable (unison : Unison g h R a a')
include unison

/-- The same variables are marked ... -/
theorem isCreated (v : VariableId) : (a.var v).isCreated = (a'.var v).isCreated :=
  (congrArg Variable.isCreated (unison.same v) :)

/-- ... linked to the same ... -/
theorem storage_eq : a.storage = a'.storage :=
  funext fun v => (congrArg Variable.storage (unison.same v) :)

/-- ... and equal but for their nodes. -/
theorem vars_eq : a.vars.map Variable.nodeless = a'.vars.map Variable.nodeless := by
  have size : (a.vars.map Variable.nodeless).size = (a'.vars.map Variable.nodeless).size := by
    rw [Array.size_map, Array.size_map, unison.size]
  refine Array.ext size fun v lt lt' => ?_
  rw [Array.size_map] at lt lt'
  have same := unison.same v
  rw [var, var, Array.getD_eq_getD_getElem?, Array.getD_eq_getD_getElem?,
    Array.getElem?_eq_getElem lt, Array.getElem?_eq_getElem lt'] at same
  rw [Array.getElem_map, Array.getElem_map]
  exact same

/-- The same is found under keys that are alike. -/
theorem lookup_eq (corresponds : g.Matches h R) {k k' : StorageKey}
    (alike : StorageKey.Alike g h R k k') : a.lookup k = a'.lookup k' :=
  lookup_eq_of_rel unison.stored fun _ _ => alike.eq_iff corresponds

theorem lookup_lt {k : StorageKey} {v : Nat} (found : a.lookup k = some v) : v < a.vars.size := by
  obtain ⟨before, after, eq, -⟩ := List.lookup_eq_some_iff.mp found
  exact unison.inside (k, v) (eq ▸ List.mem_append_right _ List.mem_cons_self)

/-- A new variable gets the same id. -/
theorem allocate (pair : R n n') (q : Request) (link : Option VariableId) :
    Unison g h R (a.allocate n q link).2 (a'.allocate n' q link).2 := by
  refine ⟨?_, fun v => ?_, fun v lt => ?_, unison.stored, fun entry mem => ?_⟩
  · rw [size_allocate, size_allocate, unison.size]
  · by_cases new : v = a.vars.size
    · rw [new, var_allocate_self, unison.size, var_allocate_self]
      rfl
    · rw [var_allocate_of_ne _ _ _ _ new, var_allocate_of_ne _ _ _ _ (unison.size ▸ new)]
      exact unison.same v
  · rcases lt_or_eq_of_lt_allocate lt with old | rfl
    · have ne := Nat.ne_of_lt old
      rw [var_allocate_of_ne _ _ _ _ ne, var_allocate_of_ne _ _ _ _ (unison.size ▸ ne)]
      exact unison.node v old
    · rw [var_allocate_self, unison.size, var_allocate_self]
      exact pair
  · rw [size_allocate]
    exact Nat.lt_succ_of_lt (unison.inside entry mem)

/-- What is done to a variable whatever its node is done in unison. -/
theorem update {id id' : VariableId} (eq : id = id') {f : Variable → Variable}
    (node : ∀ v, (f v).node = v.node) (nodeless : ∀ v, (f v).nodeless = f v.nodeless) :
    Unison g h R (a.update id f) (a'.update id' f) := by
  subst eq
  have var (b : Arena) (v : Nat) : (b.update id f).var v =
      if v = id ∧ v < b.vars.size then f (b.var v) else b.var v := by
    by_cases eq : v = id
    · subst eq
      by_cases lt : v < b.vars.size
      · rw [if_pos ⟨rfl, lt⟩, var_update_self b lt]
      · rw [if_neg fun inside => lt inside.2]
        simp [Arena.var, Arena.update, Array.getD_eq_getD_getElem?, lt]
    · rw [if_neg fun inside => eq inside.1, var_update_of_ne b eq]
  refine ⟨?_, fun v => ?_, fun v lt => ?_, unison.stored, fun entry mem => ?_⟩
  · rw [size_update, size_update, unison.size]
  · rw [var, var, unison.size]
    split
    · rw [nodeless, nodeless, unison.same]
    · exact unison.same v
  · rw [size_update] at lt
    rw [var, var, unison.size]
    split
    · rw [node, node]
      exact unison.node v lt
    · exact unison.node v lt
  · rw [size_update]
    exact unison.inside entry mem

theorem setCreated {v v' : VariableId} (eq : v = v') (created : Bool) :
    Unison g h R (a.setCreated v created) (a'.setCreated v' created) :=
  unison.update eq (fun _ => rfl) fun _ => rfl

theorem setDeclared {v v' : VariableId} (eq : v = v') :
    Unison g h R (a.setDeclared v) (a'.setDeclared v') :=
  unison.update eq (fun _ => rfl) fun _ => rfl

theorem setBlockRoot {v v' : VariableId} (eq : v = v') :
    Unison g h R (a.setBlockRoot v) (a'.setBlockRoot v') :=
  unison.update eq (fun _ => rfl) fun _ => rfl

theorem store (corresponds : g.Matches h R) {k k' : StorageKey}
    (alike : StorageKey.Alike g h R k k') {v v' : Nat} (eq : v = v') (lt : v < a.vars.size) :
    Unison g h R (a.store k v) (a'.store k' v') := by
  subst eq
  refine ⟨unison.size, unison.same, unison.node, .cons ⟨alike, rfl⟩ ?_, fun entry mem => ?_⟩
  · refine forall₂_filter unison.stored fun x _ y _ pair => ?_
    simp only [ne_eq, pair.1.eq_iff corresponds alike]
  · rcases List.mem_cons.mp mem with rfl | old
    · exact lt
    · exact unison.inside entry (List.mem_of_mem_filter old)

/-- The same variables stay when a root is done. -/
theorem outlivesRoot (corresponds : g.Matches h R) {v : Nat} (lt : v < a.vars.size) :
    Tour.outlivesRoot g (a.var v) = Tour.outlivesRoot h (a'.var v) := by
  have agrees := corresponds.agrees (unison.node v lt)
  rw [Tour.outlivesRoot, Tour.outlivesRoot, agrees.lifetime, agrees.isOutside]

/-- What outlives a root is kept in unison. -/
theorem evict (corresponds : g.Matches h R) :
    Unison g h R (a.evict (Tour.outlivesRoot g)) (a'.evict (Tour.outlivesRoot h)) := by
  have unmark {entries entries' : List (StorageKey × VariableId)}
      (all : List.Forall₂ (fun x y => StorageKey.Alike g h R x.1 y.1 ∧ x.2 = y.2) entries entries') :
      ∀ {b b' : Arena}, Unison g h R b b' →
        Unison g h R (b.unmark entries) (b'.unmark entries') := by
    induction all with
    | nil => exact id
    | @cons x y _ _ alike _ ih =>
      intro b b' unison
      exact ih (unison.setCreated alike.2 false)
  have kept : List.Forall₂ (fun x y => StorageKey.Alike g h R x.1 y.1 ∧ x.2 = y.2)
      (a.stored.filter fun entry => Tour.outlivesRoot g (a.var entry.2))
      (a'.stored.filter fun entry => Tour.outlivesRoot h (a'.var entry.2)) := by
    refine forall₂_filter unison.stored fun x mem y _ alike => ?_
    rw [unison.outlivesRoot corresponds (unison.inside x mem), alike.2]
  exact unmark kept ⟨unison.size, unison.same, unison.node, kept,
    fun entry mem => unison.inside entry (List.mem_of_mem_filter mem)⟩

end Arena.Unison

/-! ## Placing a use -/

/-- One variable is chosen for one place, in arenas that are in unison. -/
structure Placed.Unison (g h : Graph) (R : NodeId → NodeId → Prop) (p p' : Placed) : Prop where
  var : p.var = p'.var
  lt : p.var < p.arena.vars.size
  placement : p.placement = p'.placement
  arena : p.arena.Unison g h R p'.arena

namespace Arena

theorem lt_allocate (a : Arena) (n : NodeId) (q : Request) (link : Option VariableId) :
    a.vars.size < (a.allocate n q link).2.vars.size := by
  rw [size_allocate]
  exact Nat.lt_succ_self _

theorem lt_declare (a : Arena) (n : NodeId) (q : Request) :
    a.vars.size < ((a.allocate n q none).2.setDeclared a.vars.size).vars.size := by
  rw [setDeclared, size_update]
  exact lt_allocate ..

namespace Unison

variable (unison : Unison g h R a a')
include unison

theorem schedule {v v' : Nat} (eq : v = v') (lt : v < a.vars.size) (placement : Placement) :
    (Placed.schedule a v placement).Unison g h R (Placed.schedule a' v' placement) := by
  subst eq
  rw [Placed.schedule, Placed.schedule, unison.isCreated]
  split
  · exact ⟨rfl, lt, rfl, unison⟩
  · exact ⟨rfl, (size_update a v _).symm ▸ lt, rfl, unison.setCreated rfl true⟩

theorem promote {v v' : Nat} (eq : v = v') (lt : v < a.vars.size) :
    (Placed.promote a v).Unison g h R (Placed.promote a' v') :=
  (unison.setBlockRoot eq).schedule eq ((size_update a v _).symm ▸ lt) .block

section Use

variable (corresponds : g.Matches h R) (pair : R n n') (q : Request)
include pair

theorem refer {s s' : VariableId} (eq : s = s') :
    (Placed.refer a ⟨n, (g.node n).key, q⟩ s).Unison g h R
      (Placed.refer a' ⟨n', (h.node n').key, q⟩ s') := by
  subst eq
  exact ⟨unison.size, lt_allocate .., rfl, unison.allocate pair q (some s)⟩

theorem fresh : (Placed.fresh a ⟨n, (g.node n).key, q⟩).Unison g h R
    (Placed.fresh a' ⟨n', (h.node n').key, q⟩) :=
  (unison.allocate pair q none).schedule unison.size (lt_allocate ..) .inline

include corresponds

theorem outside : (Placed.outside a ⟨n, (g.node n).key, q⟩).Unison g h R
    (Placed.outside a' ⟨n', (h.node n').key, q⟩) := by
  have same := unison.lookup_eq corresponds (.binding pair)
  unfold Placed.outside
  dsimp only
  rw [← same]
  cases found : a.lookup (.binding (g.node n).key) with
  | some s => exact unison.schedule rfl (unison.lookup_lt found) .inline
  | none =>
    have lt := lt_declare a n q
    exact (((unison.allocate pair q none).setDeclared unison.size).store corresponds
      (.binding pair) unison.size lt).schedule unison.size lt .inline

/-- What is kept for the composition is found or made in both. -/
theorem compositionWide : (Placed.compositionWide a ⟨n, (g.node n).key, q⟩).Unison g h R
    (Placed.compositionWide a' ⟨n', (h.node n').key, q⟩) := by
  have same := unison.lookup_eq corresponds (.binding pair)
  unfold Placed.compositionWide
  dsimp only
  rw [← same]
  cases found : a.lookup (.binding (g.node n).key) with
  | some s =>
    dsimp only
    rw [unison.isCreated]
    split
    · exact unison.refer pair q rfl
    · have created := unison.setCreated (rfl : s = s) true
      exact (created.allocate pair q (some s)).promote created.size (lt_allocate ..)
  | none =>
    have lt := lt_declare a n q
    exact (((unison.allocate pair q none).setDeclared unison.size).store corresponds
      (.binding pair) unison.size lt).promote unison.size lt

/-- What is kept for a root is found or made in both. -/
theorem perResolve (isReused : Bool) :
    (Placed.perResolve a ⟨n, (g.node n).key, q⟩ isReused).Unison g h R
      (Placed.perResolve a' ⟨n', (h.node n').key, q⟩ isReused) := by
  have same := unison.lookup_eq corresponds (.binding pair)
  unfold Placed.perResolve
  dsimp only
  rw [← same]
  cases found : a.lookup (.binding (g.node n).key) with
  | some s => exact unison.refer pair q rfl
  | none =>
    have lt := lt_allocate a n q none
    have stored := (unison.allocate pair q none).store corresponds (.binding pair) unison.size lt
    cases isReused with
    | true => exact stored.promote unison.size lt
    | false => exact stored.schedule unison.size lt .inline

/-- What is kept for a block is found or made in both. -/
theorem hoisted (block : VariableId) :
    (Placed.hoisted a ⟨n, (g.node n).key, q⟩ block).Unison g h R
      (Placed.hoisted a' ⟨n', (h.node n').key, q⟩ block) := by
  have same := unison.lookup_eq corresponds (.hoisted pair block)
  unfold Placed.hoisted
  dsimp only
  rw [← same]
  cases found : a.lookup (.hoisted (g.node n).key block) with
  | some s => exact unison.refer pair q rfl
  | none =>
    have lt := lt_allocate a n q none
    exact ((unison.allocate pair q none).store corresponds (.hoisted pair block) unison.size
      lt).promote unison.size lt

/-- Whatever the lifetime, a use is placed in unison. -/
theorem of (block : Option VariableId) :
    (Placed.of g a n q block).Unison g h R (Placed.of h a' n' q block) := by
  have agrees := corresponds.agrees pair
  unfold Placed.of
  dsimp only
  rw [← agrees.isOutside, ← agrees.lifetime, ← corresponds.weight pair]
  split
  · exact unison.outside corresponds pair q
  · split
    · exact unison.compositionWide corresponds pair q
    · exact unison.compositionWide corresponds pair q
    · exact unison.perResolve corresponds pair q _
    all_goals
      split
      · split
        · exact unison.hoisted corresponds pair q _
        · exact unison.fresh pair q
      · exact unison.fresh pair q

end Use

end Unison

end Arena

/-! ## Supplying a slot -/

/-- Walks whose variables are in unison, those for deferred uses included. -/
structure Walk.Unison (g h : Graph) (R : NodeId → NodeId → Prop) (w w' : Walk) : Prop where
  arena : w.arena.Unison g h R w'.arena
  shared : List.Forall₂ (fun x y => R x.1 y.1 ∧ x.2 = y.2) w.shared w'.shared

namespace Walk

theorem supply_arena (g : Graph) (block : VariableId) (n : Node) (w : Walk) (e : Edge) :
    let p := w.place g block (isDeferredUse g n e) e
    (w.supply g block n e).2.arena =
      if n.isEnumerable && isLazyItem (g.node e.source) then p.arena.setCreated p.var false
      else p.arena := by
  unfold isDeferredUse supply
  simp only
  split <;> simp only [enqueue_arena]

namespace Unison

variable {w w' : Walk} {e e' : Edge} (unison : Unison g h R w w') (corresponds : g.Matches h R)
  (edge : e.Alike R e')
include unison corresponds edge

/-- The choice for an edge is the same, whether its use is deferred or not. -/
theorem place (block : VariableId) (isDeferred : Bool) :
    (w.place g block isDeferred e).Unison g h R (w'.place h block isDeferred e') := by
  have found : w.shared.lookup e.source = w'.shared.lookup e'.source :=
    lookup_eq_of_rel unison.shared fun x y pair => corresponds.unique edge.source pair
  have placed := unison.arena.of corresponds edge.source e.request (some block)
  unfold Walk.place
  rw [← edge.request, ← found]
  split
  · exact unison.arena.refer edge.source e.request rfl
  · dsimp only
    rw [← placed.placement]
    split
    · exact ⟨placed.var, (size_update _ _ _).symm ▸ placed.lt, rfl,
        placed.arena.setBlockRoot placed.var⟩
    · exact placed

/-- A slot is supplied in unison. -/
theorem supply (block : VariableId) (pair : R n n') :
    let next := w.supply g block (g.node n) e
    let next' := w'.supply h block (h.node n') e'
    ((w.place g block (isDeferredUse g (g.node n) e) e).Unison g h R
      (w'.place h block (isDeferredUse h (h.node n') e') e')) ∧ next.2.Unison g h R next'.2 := by
  have placed := unison.place corresponds edge block (isDeferredUse g (g.node n) e)
  rw [corresponds.isDeferredUse_eq pair edge]
  refine ⟨placed, ?_, ?_⟩
  · have agrees := corresponds.agrees edge.source
    rw [supply_arena, supply_arena, corresponds.isDeferredUse_eq pair edge,
      ← (corresponds.agrees pair).isEnumerable, isLazyItem, isLazyItem, ← agrees.lifetime,
      ← agrees.isOutside]
    split
    · exact placed.arena.setCreated placed.var false
    · exact placed.arena
  · have effect := supply_effect g block (g.node n) w e
    have effect' := supply_effect h block (h.node n') w' e'
    rw [effect.shared, effect'.shared, corresponds.isDeferredUse_eq pair edge, placed.placement]
    split
    · exact .cons ⟨edge.source, placed.var⟩ unison.shared
    · exact unison.shared

end Unison

end Walk

/-! ## In lockstep -/

/-- The pairing of the variables of two arenas of one size with themselves. -/
def Pairing.upTo (size : Nat) : Pairing := fun x y => x = y ∧ x < size

/-- What is alike by such a pairing is equal. -/
theorem Block.Alike.eq {size : Nat} {b b' : Block} (alike : b.Alike (.upTo size) b') : b = b' := by
  have supplies (s s' : Supply) (alike : s.Alike (.upTo size) s') : s = s' :=
    Supply.mk.injEq .. |>.mpr ⟨alike.slot, alike.request, alike.var.1⟩
  have made (i i' : Instantiation) (alike : i.Alike (.upTo size) i') : i = i' :=
    Instantiation.mk.injEq .. |>.mpr ⟨alike.target.1, eq_of_forall₂ alike.supplies supplies⟩
  exact Block.mk.injEq .. |>.mpr
    ⟨alike.root.1, eq_of_forall₂ alike.instantiations made, alike.steps⟩

/-- The tie between walks in unison: every variable stands for itself. -/
structure Stage.Unison (g h : Graph) (R : NodeId → NodeId → Prop) (m : Pairing) (st st' : Stage) :
    Prop where
  pairing : m = .upTo st.arena.vars.size
  walk : st.walk.Unison g h R st'.walk

/-- Walks in unison stay so. -/
theorem Graph.Matches.unison (corresponds : g.Matches h R) :
    Stage.Lockstep g h R R (fun _ => True) (fun _ => True) (Stage.Unison g h R) where
  keeps _ _ := trivial
  keeps' _ _ := trivial
  node := by
    rintro _ st st' x y ⟨rfl, unison⟩ ⟨rfl, lt⟩
    exact unison.arena.node x lt
  edges pair := corresponds.edges pair
  passes := by
    rintro _ st st' st₁ st₁' - - ⟨rfl, unison⟩ - step step' nothing nothing'
    have passes := step.passes nothing
    have passes' := step'.passes nothing'
    have arena : st₁.arena = st.arena := passes.arena
    refine ⟨by rw [arena], ?_, ?_⟩
    · rw [passes.arena, passes'.arena]
      exact unison.arena
    · rw [passes.shared, passes'.shared]
      exact unison.shared
  supply := by
    intro m w w' found found' root root' made made' target target' n n' supplies supplies' e e' rest
      rest' st st' next next' _ _ tied alike
    obtain ⟨rfl, tied⟩ := tied
    have unison : w.Unison g h R w' := tied
    change Stage.Alike _ _ (.upTo w.arena.vars.size)
      (.supplying w found root made target n supplies (e :: rest))
      (.supplying w' found' root' made' target' n' supplies' (e' :: rest')) at alike
    cases alike with
    | supplying stacked _ roots _ _ pair _ edges =>
      cases edges with
      | cons edge _ =>
        obtain rfl := roots.1
        obtain ⟨placed, supplied⟩ := unison.supply corresponds edge root pair
        have effect := Walk.supply_effect g root (g.node n) w e
        have effect' := Walk.supply_effect h root (h.node n') w' e'
        have size : next.2.arena.vars.size = _ := effect.same.size_eq
        have more : Pairing.Within (.upTo w.arena.vars.size) (.upTo next.2.arena.vars.size) :=
          fun x y pair =>
            ⟨pair.1, Nat.lt_of_lt_of_le pair.2 (Walk.extends_supply g root _ w e).size_le⟩
        have new : Pairing.upTo next.2.arena.vars.size (w.place g root _ e).var _ :=
          ⟨placed.var, size ▸ placed.lt⟩
        have old {as bs : List VariableId}
            (all : List.Forall₂ (Pairing.upTo w.arena.vars.size) as bs) :
            List.Forall₂ (Pairing.upTo next.2.arena.vars.size) as bs := all.imp more
        refine ⟨_, more, ⟨rfl, supplied⟩, ⟨?_, ?_⟩, ?_⟩
        · rw [effect.targets, effect'.targets, ← placed.placement]
          split
          · exact .cons new (old stacked.targets)
          · exact old stacked.targets
        · have pending : next.2.pending = _ := Walk.supply_pending g root (g.node n) w e
          have pending' : next'.2.pending = _ := Walk.supply_pending h root (h.node n') w' e'
          rw [pending, pending', ← placed.placement]
          split
          · exact .cons new (old stacked.pending)
          · exact old stacked.pending
        · rw [effect.var, effect'.var]
          exact new

/-! ## Roots -/

/-- Roots of one name and request, answered by nodes that stand for each other. -/
structure Root.Alike (R : NodeId → NodeId → Prop) (root root' : Root) : Prop where
  name : root.name = root'.name
  request : root.request = root'.request
  node : R root.node root'.node

/-- One root is walked in unison. -/
theorem Graph.Matches.tour_unison (corresponds : g.Matches h R) (unison : a.Unison g h R a')
    {root root' : Root} (alike : root.Alike R root') {limit limit' : Nat} {t t' : Tour}
    (ends : g.tour limit a root = some t) (ends' : h.tour limit' a' root' = some t') :
    t.var = t'.var ∧ t.blocks = t'.blocks ∧ t.arena.Unison g h R t'.arena := by
  obtain ⟨last, run, arena, drained⟩ := Graph.tour_run ends
  obtain ⟨last', run', arena', drained'⟩ := Graph.tour_run ends'
  rw [Graph.tour_var ends, Graph.tour_var ends', ← arena, ← arena']
  rw [← alike.request] at run' ⊢
  have placed := unison.of corresponds alike.node root.request none
  generalize Placed.of g a root.node root.request none = p at placed run ⊢
  generalize Placed.of h a' root'.node root.request none = p' at placed run' ⊢
  have first : Walk.Unison g h R (.start p) (.start p') :=
    ⟨(placed.arena.setBlockRoot placed.var).setCreated placed.var true, .nil⟩
  have lt : p.var < (Walk.start p).arena.vars.size := by
    rw [Walk.start, setCreated, size_update, setBlockRoot, size_update]
    exact placed.lt
  have alike : Stage.Alike R R (.upTo (Walk.start p).arena.vars.size) (.between (.start p) [])
      (.between (.start p') []) :=
    .between ⟨.nil, .cons ⟨placed.var, lt⟩ .nil⟩ .nil
  have tied : Stage.Unison g h R (.upTo (Walk.start p).arena.vars.size) (.between (.start p) [])
      (.between (.start p') []) := ⟨rfl, first⟩
  obtain ⟨m, -, -, ⟨rfl, walked⟩, blocks⟩ :=
    corresponds.unison.run trivial trivial tied alike run run' drained drained'
  have same := eq_of_forall₂ blocks fun _ _ => Block.Alike.eq
  exact ⟨placed.var, List.reverse_inj.mp same, walked.arena⟩

/-- The order of the blocks depends on what the variables refer to. -/
theorem Block.inOrder_congr (same : a.storage = a'.storage) (blocks : List Block) :
    inOrder a blocks = inOrder a' blocks := by
  have note : noteMaker a = noteMaker a' := by
    funext index makers i
    simp only [noteMaker, same]
  have makersFrom : ∀ (blocks : List Block) index found,
      makersFrom a index found blocks = makersFrom a' index found blocks := by
    intro blocks
    induction blocks with
    | nil => intro _ _; rfl
    | cons b rest ih =>
      intro index found
      rw [Block.makersFrom, Block.makersFrom, note, ih]
  have requires : requires a = requires a' := by
    funext makers index b
    simp only [Block.requires, same]
  simp only [inOrder, makers, makersFrom, requires]

/-- All roots are walked in unison, and have the same plans. -/
theorem Graph.Matches.tours_unison (corresponds : g.Matches h R) {limit limit' : Nat}
    {roots roots' : List Root} (alike : List.Forall₂ (Root.Alike R) roots roots') :
    ∀ {a a' b b' : Arena} {tours tours' : List Tour}, a.Unison g h R a' →
      g.tours limit a roots = some (tours, b) → h.tours limit' a' roots' = some (tours', b') →
      tours.map Tour.plan = tours'.map Tour.plan ∧ b.Unison g h R b' := by
  induction alike with
  | nil =>
    intro a a' b b' tours tours' unison ends ends'
    cases ends
    cases ends'
    exact ⟨rfl, unison⟩
  | @cons root root' rest rest' alike _ ih =>
    intro a a' b b' tours tours' unison ends ends'
    obtain ⟨t, walked, others⟩ := Option.bind_eq_some_iff.mp ends
    obtain ⟨⟨later, _⟩, others, eq⟩ := Option.bind_eq_some_iff.mp others
    cases eq
    obtain ⟨t', walked', others'⟩ := Option.bind_eq_some_iff.mp ends'
    obtain ⟨⟨later', _⟩, others', eq'⟩ := Option.bind_eq_some_iff.mp others'
    cases eq'
    obtain ⟨var, blocks, arena⟩ := corresponds.tour_unison unison alike walked walked'
    obtain ⟨plans, final⟩ := ih (arena.evict corresponds) others others'
    have plan : t.plan = t'.plan := by
      rw [Tour.plan, Tour.plan, Graph.tour_root walked, Graph.tour_root walked', alike.name, var,
        blocks, Block.inOrder_congr arena.storage_eq]
    exact ⟨by rw [List.map_cons, List.map_cons, plan, plans], final⟩

/-! ## Steps -/

/-- The generated code does the same around the same block. -/
theorem Block.stepsOf_congr (corresponds : g.Matches h R) (unison : a.Unison g h R a')
    (accumulators : g.accumulators = h.accumulators) (ts : TypeOracle) (threadSafe : Bool)
    {b : Block} (root : b.root < a.vars.size)
    (targets : ∀ i ∈ b.instantiations, i.target < a.vars.size) :
    b.stepsOf ts threadSafe g a = b.stepsOf ts threadSafe h a' := by
  have fills : b.fillsStorage g a = b.fillsStorage h a' := by
    have agrees := corresponds.agrees (unison.node b.root root)
    rw [fillsStorage, fillsStorage, agrees.lifetime, agrees.isOutside]
  have feeds : b.accumulations ts g a = b.accumulations ts h a' := by
    refine List.flatMap_congr fun i mem => ?_
    have agrees := corresponds.agrees (unison.node i.target (targets i mem))
    simp only [accumulationsOf, accumulators, captures, agrees.lifetime, agrees.isOutside,
      agrees.instanceType]
  rw [stepsOf, stepsOf, fills, feeds]

/-- So plans are annotated with the same steps. -/
theorem Plan.annotate_eq (corresponds : g.Matches h R) (unison : a.Unison g h R a')
    (accumulators : g.accumulators = h.accumulators) (ts : TypeOracle) (threadSafe : Bool)
    {p : Plan} (roots : ∀ b ∈ p.blocks, b.root < a.vars.size)
    (targets : ∀ v ∈ p.targets, v < a.vars.size) :
    p.annotate ts threadSafe g a = p.annotate ts threadSafe h a' := by
  have blocks : p.blocks.map (·.annotate ts threadSafe g a) =
      p.blocks.map (·.annotate ts threadSafe h a') := by
    refine List.map_congr_left fun b mem => ?_
    have made : ∀ i ∈ b.instantiations, i.target < a.vars.size := fun i i_mem =>
      targets _ (List.mem_map_of_mem (List.mem_flatMap.mpr ⟨b, mem, i_mem⟩))
    rw [Block.annotate, Block.annotate,
      Block.stepsOf_congr corresponds unison accumulators ts threadSafe (roots b mem) made]
  rw [Plan.annotate, Plan.annotate, blocks]

/-! ## Calls -/

namespace Call

/-- What is to be rendered, without the bindings that the items of a collection come from. -/
def Subject.unpinned : Subject → Subject
  | .provide i p => .provide i p.unpinned
  | subject => subject

/-- A call without these bindings. -/
def unpinned (c : Call) : Call := { c with subject := c.subject.unpinned }

/-- The bindings of the items are not told in brief. -/
theorem event_unpinned (c : Call) : c.unpinned.event = c.event := by
  obtain ⟨p, b, subject⟩ := c
  cases subject with
  | provide i p => simp [unpinned, Subject.unpinned, event, Provision.unpinned]
  | block | construct | setField | setProperty | callMethod | factory | outside => rfl

/-- The same is to be rendered of the same instantiation. -/
theorem Subject.ofInstantiation_eq (corresponds : g.Matches h R) (unison : a.Unison g h R a')
    {i : Instantiation} (lt : i.target < a.vars.size) :
    (ofInstantiation g a i).map unpinned = (ofInstantiation h a' i).map unpinned := by
  have kind := (corresponds.agrees (unison.node i.target lt)).kind
  unfold ofInstantiation
  generalize (g.node (a.var i.target).node).kind = k at kind ⊢
  generalize (h.node (a'.var i.target).node).kind = k' at kind ⊢
  cases k with
  | provide p =>
    cases k' with
    | provide p' =>
      -- the items may come from other bindings
      have same : p.unpinned = p'.unpinned := Node.Kind.provide.inj kind
      simp only [List.map_cons, List.map_nil, unpinned, same]
    | construct | factory | outside => cases kind
  | construct | factory | outside =>
    cases k' <;> cases kind
    rfl

/-- An emitter is called alike for the same plans. -/
theorem ofPlans_eq (corresponds : g.Matches h R) (unison : a.Unison g h R a') {plans : List Plan}
    (targets : ∀ p ∈ plans, ∀ v ∈ p.targets, v < a.vars.size) :
    (ofPlans g a plans).map unpinned = (ofPlans h a' plans).map unpinned := by
  simp only [ofPlans, List.map_flatMap, List.map_map]
  refine List.flatMap_congr fun p mem => List.flatMap_congr fun b b_mem => ?_
  have subjects : (Subject.ofBlock g a b).map Subject.unpinned =
      (Subject.ofBlock h a' b).map Subject.unpinned := by
    simp only [Subject.ofBlock, List.map_cons, List.map_flatMap]
    refine congrArg (List.cons _) (List.flatMap_congr fun i i_mem => ?_)
    exact Subject.ofInstantiation_eq corresponds unison
      (targets p mem _ (List.mem_map_of_mem (List.mem_flatMap.mpr ⟨b, b_mem, i_mem⟩)))
  have calls (g : Graph) (a : Arena) : (Subject.ofBlock g a b).map (unpinned ∘ (⟨p, b, ·⟩)) =
      ((Subject.ofBlock g a b).map Subject.unpinned).map (⟨p, b, ·⟩) := by
    rw [List.map_map]
    rfl
  rw [calls, calls, subjects]

/-- The steps of the generated code are not told in brief. -/
theorem events_annotate (ts : TypeOracle) (threadSafe : Bool) (plans : List Plan) :
    (ofPlans g a (plans.map (·.annotate ts threadSafe g a))).map event =
      (ofPlans g a plans).map event := by
  simp only [ofPlans, List.flatMap_map, List.map_flatMap, Plan.annotate, List.map_map]
  rfl

end Call

end ObjectGraph
