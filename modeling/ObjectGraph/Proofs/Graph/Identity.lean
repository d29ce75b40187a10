import ObjectGraph.Proofs.Graph.Table
import ObjectGraph.Proofs.Graph.Typing

/-
  What nodes that share a storage key have in common.

  The key of a node depends on how a table grew, but whether two nodes share it does not: they do
  exactly if their providers have one identity (`Finished.key_eq_iff`), which is a declaration under
  a substitution, or a fallback request.

  Nodes that share a key also share the recipe.  So their instances are of one type, unless it is
  the compiler that provides them: then the type is the one that is bound, and a declaration may
  bind several (`Graph.IsResolved.instanceType_eq_iff`).
-/

namespace ObjectGraph

/-- What decides about the storage key of a provider. -/
inductive Provider.Identity where
  /-- A declaration, under a substitution. -/
  | declaration (source : Binding.Source) (sub : Substitution)
  /-- A handler for a fallback request. -/
  | handler (h : Handler) (q : Request)
  deriving DecidableEq

/-- The identity of a provider: contracts and tags do not count. -/
def Provider.identity : Provider → Provider.Identity
  | declared b => .declaration b.source ∅
  | specialized b s => .declaration b.source s
  | fallback h q => .handler h q

namespace BindingTable

variable {r : Resolver} {s : Setup} {t tab : BindingTable} {p p' : Provider} {id id' : BindingId}
  {b b' : Binding}

/-- The origin that a provider has in a table, where it is known under an id. -/
inductive Originates (tab : BindingTable) (id : BindingId) : Provider → Origin → Prop where
  | declared {b : Binding} (declared : b ∈ tab.declared) :
      Originates tab id (.declared b) ⟨b.source, ∅⟩
  | specialized {b : Binding} (declared : b ∈ tab.declared) (sub : Substitution) :
      Originates tab id (.specialized b sub) ⟨b.source, sub⟩
  | fallback {h : Handler} {q : Request} {number : Nat}
      (found : tab.fallbacks.reverse[number]? = some ((h.name, q), id)) :
      Originates tab id (.fallback h q) ⟨.fallback number, ∅⟩

/-- The binding of a provider bears the key of its origin. -/
theorem Stamped.originates (stamped : Stamped s tab) (named : tab.idOf r p = some id)
    (found : tab.binding? id = some b) :
    ∃ o, tab.KeyedBy b o ∧ tab.Originates id p o := by
  have same {b' : Binding} (mem : b' ∈ tab.bindings) (id_eq : b'.id = id) : b' = b := by
    have found' := stamped.binding?_id mem
    rw [id_eq, found] at found'
    exact (Option.some.inj found').symm
  cases p with
  | declared d =>
    rw [idOf] at named
    split at named
    · rename_i at_id
      have declared := List.mem_of_getElem? at_id
      cases same (List.mem_append_left _ declared) (Option.some.inj named)
      obtain ⟨index, -, -, -, keyed⟩ := stamped.registered b declared
      have source : b.source = .declared index := keyed.source
      rw [← source] at keyed
      exact ⟨_, keyed, .declared declared⟩
    · cases named
  | specialized d sub =>
    rw [idOf] at named
    split at named
    · rename_i at_id
      have declared := List.mem_of_getElem? at_id
      obtain ⟨generic, declared', b', among, entry, -, keyed⟩ :=
        stamped.specialized _ (mem_of_lookup named)
      simp only [Prod.mk.injEq] at entry
      cases same (List.mem_append_right _ among) entry.2.symm
      cases stamped.eq_of_id_eq (List.mem_append_left _ declared) (List.mem_append_left _ declared')
        entry.1.1
      exact ⟨_, keyed, .specialized declared sub⟩
    · cases named
  | fallback h q =>
    rw [idOf] at named
    split at named
    · obtain ⟨number, listed⟩ :=
        List.mem_iff_getElem?.mp (List.mem_reverse.mpr (mem_of_lookup named))
      obtain ⟨b', among, id_eq, keyed⟩ := stamped.fallback number _ listed
      cases same (List.mem_append_right _ among) id_eq
      exact ⟨_, keyed, .fallback listed⟩
    · cases named

/-- Bindings share a key exactly if their providers have one identity. -/
theorem Stamped.key_eq_iff (stamped : Stamped s tab) (naming : Naming r t tab)
    (named : tab.idOf r p = some id) (found : tab.binding? id = some b)
    (named' : tab.idOf r p' = some id') (found' : tab.binding? id' = some b') :
    b.key = b'.key ↔ p.identity = p'.identity := by
  obtain ⟨o, keyed, origin⟩ := stamped.originates named found
  obtain ⟨o', keyed', origin'⟩ := stamped.originates named' found'
  -- declarations and fallback requests never share an origin
  have apart {d : Binding} {number : Nat} (declared : d ∈ tab.declared) :
      d.source ≠ .fallback number := by
    obtain ⟨index, -, -, -, keyed⟩ := stamped.registered d declared
    rw [keyed.source]
    nofun
  rw [keyed.unique keyed']
  cases origin with
  | declared declared | specialized declared sub =>
    cases origin' with
    | declared declared' | specialized declared' sub' => simp [Provider.identity]
    | fallback listed' => simp [Provider.identity, apart declared]
  | fallback listed =>
    cases origin' with
    | declared declared' | specialized declared' sub' =>
      simp [Provider.identity, (apart declared').symm]
    | fallback listed' =>
      constructor
      · intro same
        cases same
        have entry := Option.some.inj (listed.symm.trans listed')
        cases naming.distinct _ _ id named ((Prod.mk.inj entry).2 ▸ named')
        rfl
      · intro same
        cases same
        cases named.symm.trans named'
        cases found.symm.trans found'
        exact (keyed.unique keyed').mp rfl

end BindingTable

namespace Resolver

open BindingTable

variable {r : Resolver} {s : Setup} {st st' : Resolution} {p p' : Provider} {done : List Provider}
  {taken : Taken} {xs : List (Option NodeId)} {i j : NodeId}

theorem Step.grown (grown : Grown s st.table) (step : Step st st') : Grown s st'.table := by
  cases step with
  | specialize declared sub => exact .specialize grown declared sub
  | addFallback h q => exact .addFallback grown h q
  | tell | build | select => exact grown

/-- A resolution works on tables of its setup. -/
theorem Grows.grown (grown : Grown s st.table) (grows : Grows st st') : Grown s st'.table := by
  induction grows with
  | refl => exact grown
  | tail _ step ih => exact step.grown ih

namespace Finished

/-- The table at the end of a resolution. -/
theorem stamped (finished : Finished r (register s) s st done taken xs) : Stamped s st.table :=
  (finished.grown.grown .register).stamped

/-- The node of a provider, with its binding. -/
theorem represents (finished : Finished r (register s) s st done taken xs)
    (selected : Selected r st p (some i)) :
    ∃ n b, st.nodes[i]? = some n ∧ StandsFor r (register s) st.table n p ∧
      st.table.binding? n.binding = some b ∧ n.Represents b ∧ b.Alike p.binding := by
  obtain ⟨asked, books, -⟩ := finished.drains.books
  obtain ⟨-, n, found, stands⟩ := finished.chosen selected
  obtain ⟨b, known, -, alike⟩ := books.naming.named p _ stands.binding
  have sound := finished.grown.sound (sound_register s)
  obtain ⟨b', mem, represents⟩ := sound.stems n (Array.mem_of_getElem? found)
  have known' := finished.stamped.binding?_id mem
  rw [← represents.binding, known] at known'
  cases known'
  exact ⟨n, b, found, stands, known, represents, alike⟩

/-- Nodes share a key exactly if their providers have one identity. -/
theorem key_eq_iff (finished : Finished r (register s) s st done taken xs) {n n' : Node}
    (selected : Selected r st p (some i)) (found : st.nodes[i]? = some n)
    (selected' : Selected r st p' (some j)) (found' : st.nodes[j]? = some n') :
    n.key = n'.key ↔ p.identity = p'.identity := by
  obtain ⟨asked, books, -⟩ := finished.drains.books
  obtain ⟨m, b, at_i, stands, known, represents, -⟩ := finished.represents selected
  obtain ⟨m', b', at_j, stands', known', represents', -⟩ := finished.represents selected'
  cases found.symm.trans at_i
  cases found'.symm.trans at_j
  rw [represents.key, represents'.key]
  exact finished.stamped.key_eq_iff books.naming stands.binding known stands'.binding known'

end Finished

end Resolver

/-! ## Interchangeable instances -/

namespace Graph

/-- Two nodes that share a storage key are provided alike, and their instances are of one type
    exactly if it is no provision of the compiler or the bound types are the same. -/
theorem IsResolved.instanceType_eq_iff {g : Graph} (resolved : g.IsResolved) {i j : NodeId}
    (i_lt : i < g.nodes.size) (j_lt : j < g.nodes.size) (key : (g.node i).key = (g.node j).key) :
    (g.node i).builtin? = (g.node j).builtin? ∧
      ((g.node i).instanceType = (g.node j).instanceType ↔
        (g.node i).builtin? = none ∨ (g.node i).contract = (g.node j).contract) := by
  obtain ⟨r, s, st, done, taken, xs, finished, rfl, -⟩ := resolved.finished
  have sound := finished.grown.sound (Resolver.sound_register s)
  have stems : ∀ k < st.nodes.size,
      ((Resolver.graph s (Resolver.rootsTo 0 s.roots xs) taken st).node k).StemsFrom st.table :=
    fun k lt => by
      rw [Resolver.node_graph (Array.getElem?_eq_getElem lt)]
      exact sound.stems _ (Array.getElem_mem lt)
  obtain ⟨b, known, represents⟩ := stems i i_lt
  obtain ⟨b', known', represents'⟩ := stems j j_lt
  rw [represents.key, represents'.key] at key
  have recipe := finished.stamped.recipe_eq known known' key
  rw [represents.builtin, represents'.builtin, represents.instanceType, represents'.instanceType,
    represents.contract, represents'.contract, Binding.instanceType, Binding.instanceType, ← recipe]
  refine ⟨rfl, ?_⟩
  cases b.recipe with
  | construct | factory | outside => exact iff_of_true rfl (.inl rfl)
  | builtin kind =>
    exact ⟨.inr, fun same => same.resolve_left nofun⟩

end Graph

end ObjectGraph
