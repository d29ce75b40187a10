import Mathlib.Computability.Primrec.List
import Mathlib.Data.List.Permutation
import ObjectGraph.Proofs.Graph.Identity
import ObjectGraph.Proofs.Graph.Relevance
import ObjectGraph.Proofs.Graph.Specialization
import ObjectGraph.Proofs.Sample

/-
  What the ranking of constructors counts, and what is delivered in the end.

  Without ordinals the constructor comes first that has the most parameters that can be answered.
  Resolution delivers to all of these but the idle ones: parameters with default values that only a
  fallback handler or the last resort could answer, which an optional request never turns to
  (`countP_canAnswer`).

  So among the constructions that have all they require, the selected one is the best if the idle
  parameters are counted with the arguments that are delivered.  By the arguments alone it is the
  best if none of its parameters is idle (`selected_delivers`), and need not be otherwise
  (`not_always_most_delivered`).
-/

namespace ObjectGraph

/-- No constructor that can be called carries an ordinal. -/
def Class.IsUnmarked (c : Class) (rules : List AttributeRule) (location : Location) : Prop :=
  ∀ m ∈ c.constructors, m.isInjectable = true → ∀ k,
    AttributeReader.ordinal? ⟨rules, c.type, location⟩ m.name m.attributes ≠ .ok (some k)

namespace Resolver

/-- Something supplies each demand of a kind of node that has to be met. -/
def CanSupply (r : Resolver) (t : BindingTable) (kind : Node.Kind) : Prop :=
  ∀ d ∈ r.demandsOf t kind, d.isOptional = false → (r.supplier? t d).isSome = true

instance (r : Resolver) (t : BindingTable) (kind : Node.Kind) : Decidable (r.CanSupply t kind) :=
  inferInstanceAs <| Decidable <|
    ∀ d ∈ r.demandsOf t kind, d.isOptional = false → (r.supplier? t d).isSome = true

/-- Tells if there is a node that a parameter gets as its argument. -/
def delivers (r : Resolver) (t : BindingTable) (q : InjectedParameter) : Bool :=
  ((r.provider? t q.request q.hasDefault).bind (r.node? t)).isSome

/-- Tells if a parameter is left to its default value although something could answer it: a fallback
    handler or the last resort. -/
def isIdle (r : Resolver) (t : BindingTable) (q : InjectedParameter) : Bool :=
  q.hasDefault && (t.bestMatch? r.types false q.request).isNone && r.canAnswer t q.request

/-- The number of arguments that a constructor gets. -/
def delivered (r : Resolver) (t : BindingTable) (c : Construction) : Nat :=
  c.constructor.parameters.countP (r.delivers t)

/-- The number of its idle parameters. -/
def idle (r : Resolver) (t : BindingTable) (c : Construction) : Nat :=
  c.constructor.parameters.countP (r.isIdle t)

end Resolver

/-! ## The order without ordinals -/

namespace AttributeReader

/-- A call that was read has the ordinal that its attributes give. -/
theorem ordinal_of_call {reader : AttributeReader} {m : Method} {made : InjectedCall}
    (ok : reader.call m = .ok made) : reader.ordinal? m.name m.attributes = .ok made.ordinal := by
  unfold call at ok
  cases ordinal : reader.ordinal? m.name m.attributes with
  | error => rw [ordinal] at ok; cases ok
  | ok o =>
    cases parameters : m.parameters.mapM reader.parameter with
    | error => rw [ordinal, parameters] at ok; cases ok
    | ok ps =>
      rw [ordinal, parameters] at ok
      cases ok
      rfl

theorem ordinal?_nil (reader : AttributeReader) (member : String) :
    reader.ordinal? member [] = .ok none := by
  have none : reader.uses .ordinal [] = [] := List.flatMap_eq_nil_iff.mpr fun _ _ => rfl
  rw [ordinal?, constant?, none]
  rfl

end AttributeReader

theorem Class.IsUnmarked.ordinal_eq_none {c : Class} {rules : List AttributeRule}
    {location : Location} (unmarked : c.IsUnmarked rules location) :
    ∀ call ∈ Node.successes (AttributeReader.constructors ⟨rules, c.type, location⟩ c),
      call.ordinal = none := by
  intro call mem
  obtain ⟨m, known, ok⟩ := List.mem_map.mp (Node.mem_successes.mp mem)
  obtain ⟨declared, injectable⟩ := List.mem_filter.mp known
  rw [Option.eq_none_iff_forall_ne_some]
  intro k ordinal
  exact unmarked m declared injectable k (ordinal ▸ AttributeReader.ordinal_of_call ok)

namespace ConstructorCandidate

variable {canAnswer : Request → Bool} {calls : List InjectedCall} {call other : InjectedCall}

theorem answerable_le_of_byAnswerable {a b : ConstructorCandidate}
    (ahead : byAnswerable a b = true) : b.answerable ≤ a.answerable := by
  unfold byAnswerable at ahead
  rw [ne_gt_eq_isLE, Ordering.isLE_then_iff_or, Nat.compare_eq_lt, Nat.compare_eq_eq] at ahead
  exact ahead.elim Nat.le_of_lt fun same => Nat.le_of_eq same.1

/-- Without ordinals, the first of the suitable constructors has the most answerable parameters. -/
theorem answerable_le_of_find?_rank {P : InjectedCall → Bool}
    (unmarked : ∀ call ∈ calls, call.ordinal = none)
    (found : (rank canAnswer calls).find? P = some call) (mem : other ∈ calls)
    (suits : P other = true) :
    other.parameters.countP (canAnswer ·.request) ≤
      call.parameters.countP (canAnswer ·.request) := by
  have none : ((calls.map (of canAnswer)).filter (·.call.ordinal.isSome)).isEmpty = true := by
    rw [List.isEmpty_iff, List.filter_eq_nil_iff, List.forall_mem_map]
    intro call mem
    rw [of, unmarked call mem]
    exact Bool.false_ne_true
  unfold rank at found
  dsimp only at found
  rw [none, if_pos rfl, List.find?_map] at found
  obtain ⟨a, first, rfl⟩ := Option.map_eq_some_iff.mp found
  obtain ⟨i, at_i, -, leads⟩ :=
    exists_of_find?_mergeSort favours_byAnswerable.trans favours_byAnswerable.total first
  obtain ⟨call, -, rfl⟩ := List.mem_map.mp (List.mem_of_getElem? at_i)
  obtain ⟨j, at_j⟩ := List.mem_iff_getElem?.mp (List.mem_map_of_mem (f := of canAnswer) mem)
  exact answerable_le_of_byAnswerable (leads j _ at_j suits).1

end ConstructorCandidate

/-! ## What the ranking counts -/

namespace Resolver

variable {r : Resolver} {t : BindingTable} {s : Setup} {st : Resolution} {p : Provider}
  {done : List Provider} {taken : Taken} {xs : List (Option NodeId)} {i : NodeId} {n : Node}
  {c : Class} {made : Construction} {kind : Node.Kind} {q : InjectedParameter}

/-- A parameter has an answer exactly if it can be answered and is not idle. -/
theorem isSome_provider?_eq (numbered : t.Numbered) (q : InjectedParameter) :
    (r.provider? t q.request q.hasDefault).isSome =
      (r.canAnswer t q.request && !r.isIdle t q) := by
  cases default : q.hasDefault with
  | false =>
    rw [isIdle, default, Bool.false_and, Bool.false_and, Bool.not_false, Bool.and_true,
      Bool.eq_iff_iff, canAnswer_iff numbered, Option.isSome_iff_exists]
  | true =>
    rw [isIdle, default, Bool.true_and, provider?, if_pos rfl, Option.or_none,
      isSome_matched? numbered, canAnswer]
    cases t.bestMatch? r.types false q.request with
    | none => simp only [Option.isSome_none, Option.isNone_none, Bool.true_and, Bool.and_not_self]
    | some m => rfl

/-- The parameters that can be answered are those that have an answer and the idle ones. -/
theorem countP_canAnswer (numbered : t.Numbered) (qs : List InjectedParameter) :
    qs.countP (r.canAnswer t ·.request) =
      qs.countP (fun q => (r.provider? t q.request q.hasDefault).isSome) +
        qs.countP (r.isIdle t) := by
  rw [List.countP_eq_countP_filter_add _ _ (r.isIdle t), List.countP_filter, List.countP_filter,
    Nat.add_comm]
  congr 1
  · refine List.countP_congr fun q _ => ?_
    rw [isSome_provider?_eq numbered]
  · refine List.countP_congr fun q _ => ?_
    rw [isIdle]
    simp only [Bool.and_eq_true]
    exact ⟨fun both => both.2, fun idle => ⟨idle.2, idle⟩⟩

theorem delivers_iff : r.delivers t q = true ↔
    ∃ p, r.provider? t q.request q.hasDefault = some p ∧ ∃ n, r.node? t p = some n := by
  rw [delivers, Option.isSome_iff_exists]
  simp only [Option.bind_eq_some_iff]
  exact ⟨fun ⟨n, p, provider, node⟩ => ⟨p, provider, n, node⟩,
    fun ⟨p, provider, n, node⟩ => ⟨n, p, provider, node⟩⟩

/-- The ranking counts no less than what is delivered. -/
theorem delivered_add_idle_le (numbered : t.Numbered) (made : Construction) :
    r.delivered t made + r.idle t made ≤
      made.constructor.parameters.countP (r.canAnswer t ·.request) := by
  rw [countP_canAnswer numbered]
  refine Nat.add_le_add_right (List.countP_mono_left fun q _ delivers => ?_) _
  obtain ⟨p, provider, -⟩ := delivers_iff.mp delivers
  rw [provider]
  rfl

/-- And no more, if all that answers its parameters can be built. -/
theorem le_delivered_add_idle (numbered : t.Numbered)
    (built : ∀ q ∈ made.constructor.parameters, ∀ p,
      r.provider? t q.request q.hasDefault = some p → ∃ n, r.node? t p = some n) :
    made.constructor.parameters.countP (r.canAnswer t ·.request) ≤
      r.delivered t made + r.idle t made := by
  rw [countP_canAnswer numbered]
  refine Nat.add_le_add_right (List.countP_mono_left fun q mem answered => ?_) _
  obtain ⟨p, provider⟩ := Option.isSome_iff_exists.mp answered
  exact delivers_iff.mpr ⟨p, provider, built q mem p provider⟩

/-! ## What is selected -/

theorem CanSupply.isServable (numbered : t.Numbered) (supplied : r.CanSupply t kind) :
    r.isServable t kind = true :=
  isServable_of_supplied numbered fun d mem required =>
    Option.isSome_iff_exists.mp (supplied d mem required)

/-- A class gives a construction for each of its constructors, and the first that is servable is
    selected. -/
theorem exists_construction (recipe : p.binding.recipe = .construct c)
    (chosen : r.kind? t p = some kind) (servable : r.isServable t kind = true) :
    ∃ (calls : List InjectedCall) (make : InjectedCall → Construction) (call : InjectedCall),
      calls = Node.successes
        (AttributeReader.constructors ⟨r.rules, c.type, p.binding.location⟩ c) ∧
      (∀ call, (make call).constructor = call) ∧
      Node.constructions r.rules p.binding.location (r.canAnswer t) c =
        .ok ((ConstructorCandidate.rank (r.canAnswer t) calls).map make) ∧
      (ConstructorCandidate.rank (r.canAnswer t) calls).find?
        (r.isServable t ∘ Node.Kind.construct ∘ make) = some call ∧
      kind = .construct (make call) := by
  unfold kind? kinds Node.kinds at chosen
  simp only [recipe] at chosen
  obtain ⟨faults, failed⟩ | ⟨make, constructor, ranked⟩ :=
    constructions_cases r.rules p.binding.location c
  · rw [failed] at chosen
    cases chosen
  · rw [ranked, Except.map, List.map_map] at chosen
    have found := find?_of_or_head chosen servable
    rw [List.find?_map] at found
    obtain ⟨call, first, rfl⟩ := Option.map_eq_some_iff.mp found
    exact ⟨_, make, call, rfl, constructor, ranked _, first, rfl⟩

/-- The selected construction is the best one, if the idle parameters are counted. -/
theorem exists_best_construction (numbered : t.Numbered) (recipe : p.binding.recipe = .construct c)
    (unmarked : c.IsUnmarked r.rules p.binding.location) (chosen : r.kind? t p = some kind)
    (supplied : r.CanSupply t kind) :
    ∃ variants made, Node.constructions r.rules p.binding.location (r.canAnswer t) c = .ok variants ∧
      made ∈ variants ∧ kind = .construct made ∧
      ∀ v ∈ variants, r.CanSupply t (.construct v) →
        v.constructor.parameters.countP (r.canAnswer t ·.request) ≤
          made.constructor.parameters.countP (r.canAnswer t ·.request) := by
  obtain ⟨calls, make, call, rfl, constructor, ranked, first, rfl⟩ :=
    exists_construction recipe chosen (supplied.isServable numbered)
  refine ⟨_, make call, ranked, List.mem_map_of_mem (List.mem_of_find?_eq_some first), rfl, ?_⟩
  intro v mem supplied'
  obtain ⟨other, among, rfl⟩ := List.mem_map.mp mem
  rw [constructor, constructor]
  exact ConstructorCandidate.answerable_le_of_find?_rank unmarked.ordinal_eq_none first
    (Node.mem_of_mem_rank among) (supplied'.isServable numbered)

namespace Finished

/-- Without faults, what a provider that was reached requires is supplied, and what supplies it can
    be built. -/
theorem reached_supplied (finished : Finished r t s st done taken xs) (faultless : st.faults = [])
    (reached : r.Reached t s.roots p) (chosen : r.kind? t p = some kind) :
    r.CanSupply t kind ∧ ∀ d ∈ r.demandsOf t kind, ∀ p', r.supplier? t d = some p' →
      ∃ n, r.node? t p' = some n := by
  have demands : r.demands t p = r.demandsOf t kind := by rw [demands, chosen]; rfl
  obtain ⟨-, supplied⟩ := finished.faultless_of_reached faultless reached
  constructor
  · intro d mem required
    exact Option.isSome_iff_exists.mpr (supplied d (demands ▸ mem) required)
  · intro d mem p' supplier
    exact (finished.faultless_of_reached faultless
      (.demand reached (demands ▸ mem) supplier)).1

/-- A parameter of the selected constructor has an edge exactly if it gets an argument. -/
theorem edge_iff_delivers (finished : Finished r t s st done taken xs) (faultless : st.faults = [])
    (roots : List Root) (selected : Selected r st p (some i)) (found : st.nodes[i]? = some n)
    (kind : n.kind = .construct made)
    (built : ∀ q ∈ made.constructor.parameters, ∀ p,
      r.provider? t q.request q.hasDefault = some p → ∃ n, r.node? t p = some n)
    {k : Nat} (at_k : made.constructor.parameters[k]? = some q) :
    (∃ e ∈ (graph s roots taken st).dependencies i, e.slot = k) ↔ r.delivers t q = true := by
  have requested : n.kind.requests[k]? = some (q.request, q.hasDefault, none) := by
    have lt := (List.getElem?_eq_some_iff.mp at_k).1
    simp only [kind, Node.Kind.requests, List.append_assoc]
    rw [List.getElem?_append_left (by rwa [List.length_map]), List.getElem?_map, at_k]
    rfl
  obtain ⟨d, -, ⟨request, optional, pins⟩, filled⟩ :=
    finished.slot_filled_iff faultless roots selected found (n.slot_mem requested)
  have free : d.pinned = none := by simpa using pins.symm
  rw [filled, supplier?, free, Option.none_or, ← request, ← optional, delivers_iff]
  exact exists_congr fun p' =>
    ⟨fun provider => ⟨provider, built q (List.mem_of_getElem? at_k) p' provider⟩, And.left⟩

end Finished

/-- Without ordinals, the selected construction has all that it requires.  Among the constructions of
    its class that have this too it gets the most arguments, if the idle parameters are counted as
    arguments; and even if they are not, as long as it has none itself. -/
theorem selected_delivers {turns : Nat} {o : Outcome} {g : Graph}
    (ended : r.resolve turns (BindingTable.register s) s = some o) (ok : o.result = .ok g)
    (reachable : g.Reachable i) {b : Binding} (known : g.bindings[(g.node i).binding]? = some b)
    (recipe : b.recipe = .construct c) (unmarked : c.IsUnmarked r.rules b.location) :
    let t := BindingTable.register s
    ∃ variants made, Node.constructions r.rules b.location (r.canAnswer t) c = .ok variants ∧
      made ∈ variants ∧ (g.node i).kind = .construct made ∧ r.CanSupply t (.construct made) ∧
      (∀ (k : Nat) (q : InjectedParameter), made.constructor.parameters[k]? = some q →
        ((∃ e ∈ g.dependencies i, e.slot = k) ↔ r.delivers t q = true)) ∧
      ∀ v ∈ variants, r.CanSupply t (.construct v) →
        r.delivered t v + r.idle t v ≤ r.delivered t made + r.idle t made ∧
        (r.idle t made = 0 → r.delivered t v ≤ r.delivered t made) := by
  obtain ⟨st, done, taken, xs, finished, rfl, faultless, -⟩ := resolve_accepted ended ok
  have numbered := BindingTable.numbered_register s
  obtain ⟨p, reached, selected⟩ := finished.reachable_iff.mp reachable
  obtain ⟨n, b', found, stands, known', -, alike⟩ := finished.represents selected
  rw [node_graph found] at known ⊢
  cases known.symm.trans known'
  obtain ⟨kind, chosen, collected⟩ := stands.kind
  obtain ⟨supplied, built⟩ := finished.reached_supplied faultless reached chosen
  obtain ⟨variants, made, constructed, mem, rfl, best⟩ :=
    exists_best_construction numbered (alike.recipe.symm.trans recipe) (alike.location ▸ unmarked)
      chosen supplied
  have kind := collected.eq_construct
  have built' : ∀ q ∈ made.constructor.parameters, ∀ p,
      r.provider? (BindingTable.register s) q.request q.hasDefault = some p →
        ∃ n, r.node? (BindingTable.register s) p = some n := fun q mem p provider =>
    built _ (parameter_mem_demandsOf r _ mem) p (Option.none_or.trans provider)
  refine ⟨variants, made, alike.location ▸ constructed, mem, kind, supplied,
    fun k q => finished.edge_iff_delivers faultless _ selected found kind built',
    fun v v_mem v_supplied => ?_⟩
  have counted := calc
    r.delivered (.register s) v + r.idle (.register s) v
    _ ≤ v.constructor.parameters.countP (r.canAnswer (.register s) ·.request) :=
        delivered_add_idle_le numbered v
    _ ≤ made.constructor.parameters.countP (r.canAnswer (.register s) ·.request) :=
        best v v_mem v_supplied
    _ ≤ r.delivered (.register s) made + r.idle (.register s) made :=
        le_delivered_add_idle numbered built'
  exact ⟨counted, fun none => by omega⟩

end Resolver

/-! ## A class that can do without -/

namespace Sample

/-- A class that is constructed with an `X` and a `Z`, and can do without them, or with a `Y`. -/
def easygoing : Class where
  type := .plain "R"
  constructors := [
    { parameters := ["X", "Z"].map fun n => { name := n, type := .plain n, hasDefault := true } },
    { parameters := [{ name := "Y", type := .plain "Y" }] }]

theorem isUnmarked_easygoing (rules : List AttributeRule) (location : Location) :
    easygoing.IsUnmarked rules location := by
  intro m mem _ k
  have plain : m.attributes = [] := by
    revert m
    decide
  rw [plain, AttributeReader.ordinal?_nil]
  nofun

/-- The class with a declared `Y`, and other declarations. -/
def around (others : List Declaration) : Setup :=
  setup ([{ recipe := .construct easygoing }, service "Y" [] .transient] ++ others) ["R"]

/-- Only the last resort could answer its `X` and its `Z`. -/
def lured : Setup :=
  around <| ["X", "Z"].map fun n =>
    { contracts := [.plain n], recipe := .builtin .onCannotResolve }

/-- Both are declared. -/
def served : Setup := around <| ["X", "Z"].map (service · [] .transient)

/-- A construction in a graph: if it was selected for the root, if it has all that it requires, and
    the numbers of its arguments and of its parameters. -/
def standing (s : Setup) (g : Graph) (v : Construction) : Bool × Bool × Nat × Nat :=
  let r : Resolver := { types := .standard }
  let t := BindingTable.register s
  (decide ((g.node 0).kind = .construct v), decide (r.CanSupply t (.construct v)),
    r.delivered t v, v.constructor.parameters.length)

/-- The root with its binding, and the constructions of the class from the first choice on. -/
def contest (s : Setup) :
    Option (List NodeId × Option (Recipe × Location) × List (Bool × Bool × Nat × Nat)) :=
  (s.graph? 50).bind fun g =>
    (Node.constructions [] default (Resolver.canAnswer { types := .standard } (.register s))
      easygoing).toOption.map fun variants =>
        (g.roots.map (·.node),
          g.bindings[(g.node 0).binding]?.map fun b => (b.recipe, b.location),
          variants.map (standing s g))

/-- What is to be known of a setup in which the class is the root. -/
structure Contested (s : Setup) (o : Resolver.Outcome) (g : Graph) (b : Binding)
    (variants : List Construction) : Prop where
  ended : Resolver.resolve { types := .standard } 50 (BindingTable.register s) s = some o
  ok : o.result = .ok g
  reachable : g.Reachable 0
  known : g.bindings[(g.node 0).binding]? = some b
  recipe : b.recipe = .construct easygoing
  constructed : Node.constructions [] b.location
    (Resolver.canAnswer { types := .standard } (.register s)) easygoing = .ok variants

theorem exists_of_contest {s : Setup} {entries : List (Bool × Bool × Nat × Nat)}
    (run : contest s = some ([0], some (.construct easygoing, default), entries)) :
    ∃ o g b variants, Contested s o g b variants ∧ variants.map (standing s g) = entries := by
  obtain ⟨g, found, run⟩ := Option.bind_eq_some_iff.mp run
  obtain ⟨variants, constructed, run⟩ := Option.map_eq_some_iff.mp run
  simp only [Prod.mk.injEq] at run
  obtain ⟨nodes, binding, entries⟩ := run
  obtain ⟨o, ended, ok⟩ := Setup.exists_outcome_of_graph? found
  obtain ⟨b, known, same⟩ := Option.map_eq_some_iff.mp binding
  obtain ⟨recipe, location⟩ := Prod.mk.inj same
  obtain ⟨root, declared, at_0⟩ := List.mem_map.mp (nodes ▸ List.mem_singleton_self 0)
  refine ⟨o, g, b, variants, ⟨ended, ok, at_0 ▸ .root declared, known, recipe, ?_⟩, entries⟩
  rw [location]
  generalize Node.constructions _ _ _ _ = result at constructed
  cases result with
  | error => cases constructed
  | ok => cases constructed; rfl

end Sample

namespace Resolver

/-- The last resort is counted for both parameters of the first constructor, which gets nothing in the
    end.  The second one would get its `Y`. -/
theorem not_always_most_delivered :
    ¬ ∀ (r : Resolver) (s : Setup) (turns : Nat) (o : Outcome) (g : Graph) (i : NodeId) (b : Binding)
      (c : Class) (variants : List Construction) (made v : Construction),
      r.resolve turns (BindingTable.register s) s = some o → o.result = .ok g → g.Reachable i →
      g.bindings[(g.node i).binding]? = some b → b.recipe = .construct c →
      c.IsUnmarked r.rules b.location →
      Node.constructions r.rules b.location (r.canAnswer (.register s)) c = .ok variants →
      (g.node i).kind = .construct made → v ∈ variants →
      r.CanSupply (.register s) (.construct v) →
      r.delivered (.register s) v ≤ r.delivered (.register s) made := by
  intro all
  have run : Sample.contest Sample.lured =
      some ([0], some (.construct Sample.easygoing, default),
        [(true, true, 0, 2), (false, true, 1, 1)]) := by
    -- constructors are sorted, which only `cbv` evaluates; it unfolds `List.lookup` by the equations
    -- of `Primrec.List`
    cbv
  obtain ⟨o, g, b, variants, contested, entries⟩ := Sample.exists_of_contest run
  obtain ⟨made, rest, rfl, first, others⟩ := List.map_eq_cons_iff.mp entries
  obtain ⟨v, _, rfl, second, -⟩ := List.map_eq_cons_iff.mp others
  simp only [Sample.standing, Prod.mk.injEq, decide_eq_true_eq] at first second
  have most := all _ _ _ o g 0 b Sample.easygoing _ made v contested.ended contested.ok
    contested.reachable contested.known contested.recipe (Sample.isUnmarked_easygoing _ _)
    contested.constructed first.1 (List.mem_cons_of_mem _ List.mem_cons_self) second.2.1
  rw [first.2.2.1, second.2.2.1] at most
  cases most

/-- With all of them declared, the constructor with two parameters is selected and gets both. -/
theorem selected_delivers_served : ∃ o g b variants made,
    Sample.Contested Sample.served o g b variants ∧ made ∈ variants ∧ variants.length = 2 ∧
    (g.node 0).kind = .construct made ∧
    delivered { types := .standard } (.register Sample.served) made = 2 ∧
    ∀ v ∈ variants, CanSupply { types := .standard } (.register Sample.served) (.construct v) →
      delivered { types := .standard } (.register Sample.served) v ≤ 2 := by
  have run : Sample.contest Sample.served =
      some ([0], some (.construct Sample.easygoing, default),
        [(true, true, 2, 2), (false, true, 1, 1)]) := by
    cbv
  obtain ⟨o, g, b, variants, contested, entries⟩ := Sample.exists_of_contest run
  obtain ⟨variants', made, constructed, mem, kind, -, -, most⟩ :=
    selected_delivers contested.ended contested.ok contested.reachable contested.known
      contested.recipe (Sample.isUnmarked_easygoing _ _)
  cases contested.constructed.symm.trans constructed
  obtain ⟨first, rest, rfl, standing, -⟩ := List.map_eq_cons_iff.mp entries
  simp only [Sample.standing, Prod.mk.injEq, decide_eq_true_eq] at standing
  cases kind.symm.trans standing.1
  -- both parameters get an argument, so none is left to be idle
  have none_idle : idle { types := .standard } (.register Sample.served) made = 0 := by
    have counted := (delivered_add_idle_le (r := { types := .standard })
      (BindingTable.numbered_register Sample.served) made).trans List.countP_le_length
    rw [standing.2.2.1, standing.2.2.2] at counted
    omega
  refine ⟨o, g, b, _, made, contested, mem, ?_, kind, standing.2.2.1, fun v mem supplied => ?_⟩
  · exact List.length_map (Sample.standing Sample.served g) ▸ congrArg List.length entries
  · exact standing.2.2.1 ▸ (most v mem supplied).2 none_idle

end Resolver

end ObjectGraph
