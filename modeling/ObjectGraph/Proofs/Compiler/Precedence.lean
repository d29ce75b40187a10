import ObjectGraph.Proofs.Compiler.Merge
import ObjectGraph.Proofs.Compiler.Outcome
import ObjectGraph.Proofs.Graph.Encounter
import ObjectGraph.Proofs.Graph.Precedence
import ObjectGraph.Proofs.Sample
import ObjectGraph.Proofs.Setup.Handlers

/-
  Who wins in a composition of several setups.

  A setup is merged in layers: the declaration of the composition itself, then the globals, then
  what the setup depends on, and then its own.  `Chooses` says what a request gets: the best offer
  of all layers, else the last handler of all contributions, else the best offer of the last resort.
  While a merged setup is resolved, every request that is met gets that and nothing else
  (`answer_by_precedence`), however far the table of bindings has grown by then.
-/

namespace ObjectGraph

namespace Compiler

open BindingTable

variable {c : Compiler} {s m : Setup} {q : Request} {isOptional : Bool} {st : Resolution}
  {supplier : Option Provider}

/-- The declarations of a composition, the weakest layer first. -/
def layers (c : Compiler) (s : Setup) : List (List Declaration) :=
  [ownDeclaration s] :: (c.contributors s).map (·.declarations)

/-- All handlers of a composition, the weakest first. -/
def allHandlers (c : Compiler) (s : Setup) : List Handler :=
  (c.contributors s).flatMap (·.handlers)

theorem merge_layered (merged : c.merge s = .ok m) : m.declarations = (c.layers s).flatten := by
  rw [(merges_of_merge merged).declarations, layers, List.flatten_cons, List.flatMap_def]
  rfl

/-- What answers a request in the composition of `s`, whose merged setup is `m`. -/
inductive Chooses (c : Compiler) (s m : Setup) (q : Request) : Bool → Option Provider → Prop where
  /-- The best offer, by its binding. -/
  | binding {isOptional : Bool} {o : Offer} {b : Binding} {σ : Substitution}
      (best : o.Best (c.layers s) c.types false q) (declared : b ∈ (register m).declared)
      (gives : o.Gives (c.layers s) b)
      (matched : c.types.matchContract o.contract q.type = some σ) :
      Chooses c s m q isOptional (some (.of c.types b σ))
  /-- Nothing, if the request may stay unanswered. -/
  | default (unmatched : ∀ o : Offer, o.Stands (c.layers s) → ¬ o.Suits c.types false q) :
      Chooses c s m q true none
  /-- The last handler that serves it. -/
  | handler {h : Handler}
      (unmatched : ∀ o : Offer, o.Stands (c.layers s) → ¬ o.Suits c.types false q)
      (last : HandlerChain.IsLast c.types q (c.allHandlers s) h) :
      Chooses c s m q false (some (.fallback h q))
  /-- The best offer of the last resort. -/
  | lastResort {o : Offer} {b : Binding} {σ : Substitution}
      (unmatched : ∀ o : Offer, o.Stands (c.layers s) → ¬ o.Suits c.types false q)
      (unserved : ∀ h ∈ c.allHandlers s, HandlerChain.serves c.types q h = false)
      (best : o.Best (c.layers s) c.types true q) (declared : b ∈ (register m).declared)
      (gives : o.Gives (c.layers s) b)
      (matched : c.types.matchContract o.contract q.type = some σ) :
      Chooses c s m q false (some (.of c.types b σ))
  /-- Nothing, as there is nothing. -/
  | missing (unmatched : ∀ o : Offer, o.Stands (c.layers s) → ¬ o.Suits c.types false q)
      (unserved : ∀ h ∈ c.allHandlers s, HandlerChain.serves c.types q h = false)
      (unresorted : ∀ o : Offer, o.Stands (c.layers s) → ¬ o.Suits c.types true q) :
      Chooses c s m q false none

section Merged

variable (merged : c.merge s = .ok m)
include merged

theorem find?_handlers : (c.resolver m).handlers.find? (c.resolver m).types q =
    (HandlerChain.ofList (c.allHandlers s)).find? c.types q := by
  rw [resolver, (merges_of_merge merged).handlers]
  rfl

/-- The resolver chooses the same. -/
theorem chooses_iff : c.Chooses s m q isOptional supplier ↔
    (c.resolver m).provider? (register m) q isOptional = supplier := by
  have layered := merge_layered merged
  rw [Resolver.provider?, find?_handlers merged]
  constructor
  · intro chooses
    cases chooses with
    | binding best declared gives matched =>
      rw [(Offer.matched?_eq_some_iff layered).mpr
        ⟨_, _, _, best, declared, gives, matched, rfl⟩]
      rfl
    | default unmatched =>
      rw [(Offer.matched?_eq_none_iff layered).mpr unmatched]
      rfl
    | handler unmatched last =>
      rw [(Offer.matched?_eq_none_iff layered).mpr unmatched,
        HandlerChain.find?_ofList_eq_some_iff.mpr last]
      rfl
    | lastResort unmatched unserved best declared gives matched =>
      rw [(Offer.matched?_eq_none_iff layered).mpr unmatched,
        HandlerChain.find?_ofList_eq_none_iff.mpr unserved,
        (Offer.matched?_eq_some_iff layered).mpr
          ⟨_, _, _, best, declared, gives, matched, rfl⟩]
      rfl
    | missing unmatched unserved unresorted =>
      rw [(Offer.matched?_eq_none_iff layered).mpr unmatched,
        HandlerChain.find?_ofList_eq_none_iff.mpr unserved,
        (Offer.matched?_eq_none_iff layered).mpr unresorted]
      rfl
  · rintro rfl
    cases matched : (c.resolver m).matched? (register m) false q with
    | some p =>
      obtain ⟨o, b, σ, best, declared, gives, fits, rfl⟩ :=
        (Offer.matched?_eq_some_iff layered).mp matched
      exact .binding best declared gives fits
    | none =>
      have unmatched := (Offer.matched?_eq_none_iff layered).mp matched
      cases isOptional with
      | true => exact .default unmatched
      | false =>
        cases served : (HandlerChain.ofList (c.allHandlers s)).find? c.types q with
        | some h => exact .handler unmatched (HandlerChain.find?_ofList_eq_some_iff.mp served)
        | none =>
          have unserved := HandlerChain.find?_ofList_eq_none_iff.mp served
          cases resorted : (c.resolver m).matched? (register m) true q with
          | some p =>
            obtain ⟨o, b, σ, best, declared, gives, fits, rfl⟩ :=
              (Offer.matched?_eq_some_iff layered).mp resorted
            exact .lastResort unmatched unserved best declared gives fits
          | none =>
            exact .missing unmatched unserved ((Offer.matched?_eq_none_iff layered).mp resorted)

end Merged

/-- Whatever a resolution meets is answered by precedence: the node that is selected stands for what
    `Chooses` says, and nothing is selected if that is nothing.  A request that has to be answered
    can be answered exactly if it does not go missing, whatever was added to the table by then. -/
theorem answer_by_precedence (c : Compiler) {s m : Setup} {st : Resolution} {q : Request}
    {isOptional : Bool} (merged : c.merge s = .ok m)
    (meets : Resolver.Meets (c.resolver m) m st q isOptional) :
    (∃ supplier, (∀ other, c.Chooses s m q isOptional other ↔ other = supplier) ∧
      Resolver.Answered (c.resolver m) ((c.resolver m).answer st q isOptional).2 supplier
        ((c.resolver m).answer st q isOptional).1 ∧
      ∀ i p, ((c.resolver m).answer st q isOptional).1 = .node i → supplier = some p →
        ∃ n, ((c.resolver m).answer st q isOptional).2.nodes[i]? = some n ∧
          Resolver.StandsFor (c.resolver m) (register m)
            ((c.resolver m).answer st q isOptional).2.table n p) ∧
    ((c.resolver m).canAnswer st.table q = true ↔
      ((c.resolver m).answer st q false).1 ≠ .missing) ∧
    ∀ t : BindingTable, t.declared = st.table.declared →
      ((c.resolver m).canAnswer t q = true ↔ ∃ p, c.Chooses s m q false (some p)) := by
  have numbered := numbered_register m
  obtain ⟨asked, told, books⟩ := meets.books
  have declared := books.naming.declared
  -- what is added to the table is never matched, so every table chooses like the first one
  have can_iff (t : BindingTable) (same : t.declared = st.table.declared) :
      (c.resolver m).canAnswer t q = true ↔
        ∃ p, (c.resolver m).provider? (register m) q false = some p := by
    rw [Resolver.canAnswer_congr _ (same.trans declared), Resolver.canAnswer_iff numbered]
  refine ⟨⟨(c.resolver m).provider? (register m) q isOptional, ?_, ?_, ?_⟩, ?_, fun t same => ?_⟩
  · exact fun other => (chooses_iff merged).trans eq_comm
  · exact (Resolver.answer_asks numbered books q isOptional).2
  · intro i p answered chosen
    obtain ⟨⟨-, asked', books', -⟩, supplied⟩ :=
      Resolver.answer_asks numbered books q isOptional
    have selected := supplied.selected p chosen
    rw [answered] at selected
    exact (books'.mem_asked selected).2
  · rw [can_iff st.table rfl, ne_eq,
      (Resolver.answer_asks numbered books q false).2.missing, ← ne_eq, Option.ne_none_iff_exists']
  · rw [can_iff t same]
    simp only [chooses_iff merged]

end Compiler

namespace Sample

/-- The class `X` is bound by a global setup and by one that `S` depends on. -/
def shadowed : Compiler where
  includesStandard := false
  globals := [{ name := "G", declarations := [service "X" [] .transient] }]
  catalog := NameMap.ofList [("D", { name := "D", declarations := [service "X" [] .singleton] })]

/-- The setup `S` binds the class twice and has a root of it. -/
def shadowing : Setup :=
  { setup [service "X" [] .scoped, service "X" [] .perBlock] ["X"] with
    name := "S", dependsOn := ["D"] }

end Sample

namespace Compiler

open Sample

/-- The root gets the second binding of `S`, behind those of the composition itself, of the global
    setup and of the dependency. -/
theorem answer_by_precedence_shadowed : ∃ m b,
    shadowed.merge shadowing = .ok m ∧
    Resolver.Meets (shadowed.resolver m) m { table := .register m } ⟨.plain "X", .untagged⟩ false ∧
    shadowed.Chooses shadowing m ⟨.plain "X", .untagged⟩ false (some (.declared b)) ∧
    b.lifetime = .perBlock ∧ b.source = .declared 4 ∧
    ((shadowed.resolver m).answer { table := .register m } ⟨.plain "X", .untagged⟩ false).1 ≠
      .missing := by
  have merged := merge_ok_iff.mpr
    ⟨(by decide : (shadowed.dependencies shadowing).faults = []), rfl⟩
  set m := (shadowed.contributors shadowing).foldl Setup.append (emptyOf shadowing) with made
  have roots : m.roots = [] ++ { name := "X", type := .plain "X" } :: [] := rfl
  have meets : Resolver.Meets (shadowed.resolver m) m { table := .register m }
      ⟨.plain "X", .untagged⟩ false := .root roots
  have found : (((shadowed.resolver m).provider? (.register m) ⟨.plain "X", .untagged⟩ false).bind
      fun p => match p with
        | .declared b => some (b.lifetime, b.source)
        | _ => none) = some (.perBlock, .declared 4) := by
    decide +kernel
  obtain ⟨p, provider, told⟩ := Option.bind_eq_some_iff.mp found
  cases p with
  | declared b =>
    obtain ⟨lifetime, source⟩ := Prod.mk.inj (Option.some.inj told)
    have chooses := (chooses_iff merged).mpr provider
    have answered := (answer_by_precedence shadowed merged meets).2
    exact ⟨m, b, merged, meets, chooses, lifetime, source,
      answered.1.mp ((answered.2 _ rfl).mpr ⟨_, chooses⟩)⟩
  | specialized | fallback => cases told

end Compiler

end ObjectGraph
