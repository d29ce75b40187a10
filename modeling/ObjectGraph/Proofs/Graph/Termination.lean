import ObjectGraph.Proofs.Graph.Result
import ObjectGraph.Proofs.Sample

/-
  When resolution comes to an end.

  Nothing bounds the specializations that a generic binding can ask for: if its implementation
  requests a larger type of its own kind, each specialization calls for the next one and the queue
  never runs empty (`growing_never_ends`).  That is the only way in which resolution can fail to
  end.  `resolve_ends_iff` says that it ends exactly if the roots need finitely many providers.

  A turn either drops a node that was taken before, which shortens the queue, or takes the node of a
  provider that is new.  So the providers that are left, and then the length of the queue, bound the
  turns.
-/

namespace ObjectGraph

namespace Resolver

variable {r : Resolver} {t : BindingTable} {s : Setup} {st : Resolution}
  {roots : List RootDeclaration}

/-! ## Finitely many providers -/

/-- The providers that are needed are those of a list. -/
def FinitelyReached (r : Resolver) (t : BindingTable) (roots : List RootDeclaration) : Prop :=
  ∃ ps : List Provider, ∀ p, r.Reached t roots p → p ∈ ps

/-- The queue runs empty, when at most `left` of the providers `ps` are not done yet. -/
theorem drain_ends (numbered : t.Numbered) {ps : List Provider}
    (all : ∀ p, r.Reached t roots p → p ∈ ps) (left : Nat) :
    ∀ {st : Resolution} {done : List Provider} {taken : Taken} (queue : List NodeId),
      Drains r t roots st done taken queue → done.Nodup → (∀ p ∈ done, p ∈ ps) →
      ps.length ≤ left + done.length →
      ∃ turns, (r.drain turns st taken queue).isSome = true := by
  induction left using Nat.strongRecOn with
  | _ left ih =>
    intro st done taken queue drains nodup known enough
    induction queue with
    | nil => exact ⟨0, rfl⟩
    | cons id queue shorter =>
      by_cases old : id ∈ taken.map Prod.fst
      · obtain ⟨turns, ends⟩ := shorter (drains.drop old)
        refine ⟨turns + 1, ?_⟩
        rw [drain_cons, if_pos (isSome_lookup.mpr old)]
        exact ends
      · obtain ⟨-, p, new, reached, drains'⟩ := drains.take numbered old
        have nodup' : (p :: done).Nodup := List.nodup_cons.mpr ⟨new, nodup⟩
        have known' : ∀ p' ∈ p :: done, p' ∈ ps := by
          intro p' mem
          rcases List.mem_cons.mp mem with rfl | mem
          · exact all p' reached
          · exact known p' mem
        -- there was room for one more provider
        have le := (nodup'.subperm known').length_le
        rw [List.length_cons] at le
        obtain ⟨turns, ends⟩ := ih (left - 1) (by omega) _ drains' nodup' known'
          (by rw [List.length_cons]; omega)
        refine ⟨turns + 1, ?_⟩
        rw [drain_cons, if_neg fun known => old (isSome_lookup.mp known)]
        exact ends

theorem isSome_resolve {turns : Nat} : (r.resolve turns t s).isSome = true ↔
    (r.drain turns (r.resolveRoots { table := t } 0 s.roots).2 []
      ((r.resolveRoots { table := t } 0 s.roots).1.map (·.node))).isSome = true := by
  rw [Option.isSome_iff_exists, Option.isSome_iff_exists]
  constructor
  · rintro ⟨o, ended⟩
    unfold resolve at ended
    obtain ⟨result, drained, -⟩ := Option.bind_eq_some_iff.mp ended
    exact ⟨result, drained⟩
  · rintro ⟨⟨taken, st⟩, drained⟩
    exact ⟨_, Option.bind_eq_some_iff.mpr ⟨_, drained, rfl⟩⟩

/-- What a finished resolution asked for is all that is needed. -/
theorem finitelyReached_of_resolve {turns : Nat}
    (ends : (r.resolve turns (BindingTable.register s) s).isSome = true) :
    FinitelyReached r (BindingTable.register s) s.roots := by
  obtain ⟨o, ended⟩ := Option.isSome_iff_exists.mp ends
  obtain ⟨st, done, taken, xs, finished, -⟩ := resolve_finished ended
  obtain ⟨asked, books, -⟩ := finished.drains.books
  refine ⟨asked, fun p reached => ?_⟩
  obtain ⟨x, selected⟩ := finished.selected_of_reached reached
  exact (books.mem_asked selected).1

/-- Resolution comes to an end exactly if the roots need finitely many providers. -/
theorem resolve_ends_iff (r : Resolver) (s : Setup) :
    (∃ turns, (r.resolve turns (BindingTable.register s) s).isSome = true) ↔
      FinitelyReached r (BindingTable.register s) s.roots := by
  refine ⟨fun ⟨turns, ends⟩ => finitelyReached_of_resolve ends, fun ⟨ps, all⟩ => ?_⟩
  obtain ⟨xs, -, -, start⟩ := roots_start r s
  obtain ⟨turns, ends⟩ := drain_ends (BindingTable.numbered_register s) all ps.length _ start
    List.nodup_nil (List.forall_mem_nil _) (by simp)
  exact ⟨turns, isSome_resolve.mpr ends⟩

end Resolver

/-! ## A setup without an end -/

namespace Sample

/-- A box within a box, and so on; the innermost one holds a number. -/
def nested : Nat → TypeTerm
  | 0 => .plain "i32"
  | depth + 1 => applied "Box" (nested depth)

/-- To make a box of anything takes a box of boxes of it. -/
def box : Declaration :=
  { contracts := [applied "Box" (.plain "TT")]
    recipe := .factory
      { name := "box", type := applied "Box" (.plain "TT")
        requests := [⟨applied "Box" (applied "Box" (.plain "TT")), .untagged⟩] } }

/-- Some copies of the declaration, and one box to be made. -/
def growing (copies : Nat) : Setup :=
  { declarations := List.replicate copies box
    roots := [{ name := "Box", type := nested 1 }] }

theorem nested_injective {m n : Nat} (same : nested m = nested n) : m = n := by
  induction m generalizing n with
  | zero =>
    cases n with
    | zero => rfl
    | succ n => injection same with _ args; cases args
  | succ m ih =>
    cases n with
    | zero => injection same with _ args; cases args
    | succ n =>
      injection same with _ args
      injection args with inner
      rw [ih inner]

/-- The substitution that puts a type for the marker. -/
def putting (type : TypeTerm) : Substitution := NameMap.insert ∅ "TT" type

theorem matchContract_box (depth : Nat) :
    TypeOracle.standard.matchContract (applied "Box" (.plain "TT")) (nested (depth + 1)) =
      some (putting (nested depth)) := by
  have other : applied "Box" (.plain "TT") ≠ nested (depth + 1) := by
    intro same
    injection same with _ args
    injection args with inner
    cases depth with
    | zero => exact absurd inner (by decide)
    | succ depth => injection inner with _ args; cases args
  rw [TypeOracle.matchContract, if_neg other, if_pos (by decide)]
  rfl

/-- The types are the standard ones. -/
def standard : Resolver := { types := .standard }

variable {copies : Nat} {b : Binding}

theorem renders_box (declared : b ∈ (BindingTable.register (growing copies)).declared) :
    b.Renders box := by
  rcases BindingTable.mem_declared_addDeclarations _ declared with old | ⟨d, mem, renders⟩
  · cases old
  · rwa [List.eq_of_mem_replicate mem] at renders

theorem contract_eq (renders : b.Renders box) : b.contract = applied "Box" (.plain "TT") :=
  List.mem_singleton.mp renders.contract

/-- Every nested box is made by a specialization of the declaration. -/
theorem exists_provider (there : copies ≠ 0) (depth : Nat) :
    ∃ b ∈ (BindingTable.register (growing copies)).declared,
      standard.provider? (BindingTable.register (growing copies))
        ⟨nested (depth + 1), .untagged⟩ false = some (.specialized b (putting (nested depth))) := by
  set t := BindingTable.register (growing copies) with t_eq
  obtain ⟨b₀, declared₀, contract₀, renders₀⟩ :=
    BindingTable.exists_declared_addDeclarations (List.replicate copies box) {} 0 box
      (List.mem_replicate.mpr ⟨there, rfl⟩) (applied "Box" (.plain "TT")) (by decide)
  have match₀ : Match.of? .standard ⟨nested (depth + 1), .untagged⟩ b₀ =
      some ⟨0, true, b₀.id, putting (nested depth)⟩ := by
    rw [Match.of?, Binding.rank?, renders₀.tags, contract₀, matchContract_box]
    rfl
  have candidate : t.candidates .standard false ⟨nested (depth + 1), .untagged⟩ ≠ [] := by
    have listed : b₀ ∈ t.declared.filter (·.recipe.isLastResort == false) :=
      List.mem_filter.mpr ⟨declared₀, by rw [renders₀.recipe]; rfl⟩
    exact List.ne_nil_of_mem (List.mem_filterMap.mpr ⟨b₀, listed, match₀⟩)
  obtain ⟨m, best⟩ : ∃ m, t.bestMatch? standard.types false ⟨nested (depth + 1), .untagged⟩ =
      some m := Match.exists_best? candidate
  obtain ⟨b, declared, id, -, matched, -⟩ := Resolver.bestMatch?_eq_some best
  have contract := contract_eq (renders_box declared)
  rw [contract] at matched
  have substitution : putting (nested depth) = m.substitution :=
    Option.some.inj ((matchContract_box depth).symm.trans matched)
  have answer : standard.matched? t false ⟨nested (depth + 1), .untagged⟩ =
      some (.specialized b (putting (nested depth))) := by
    have at_id := (BindingTable.numbered_register (growing copies)).binding?_id declared
    rw [Resolver.matched?, best, Option.bind_some, id, at_id, Option.map_some, ← substitution,
      Provider.of, contract, if_pos (by decide)]
  exact ⟨b, declared, by rw [Resolver.provider?, answer, Option.some_or]⟩

/-- Its node demands the next larger one. -/
theorem demands_box (t : BindingTable) (renders : b.Renders box) (depth : Nat) :
    standard.demands t (.specialized b (putting (nested depth))) =
      [⟨⟨nested (depth + 2), .untagged⟩, false, none⟩] := by
  have kinds : standard.kinds t (.specialized b (putting (nested depth))) =
      .ok [.factory (Factory.substitute (putting (nested depth))
        { name := "box", type := applied "Box" (.plain "TT")
          requests := [⟨applied "Box" (applied "Box" (.plain "TT")), .untagged⟩] })] := by
    simp only [Resolver.kinds, Node.kinds, Provider.binding, renders.recipe]
    rfl
  rw [Resolver.demands, Resolver.kind?, kinds]
  dsimp only
  rw [List.find?_singleton, List.head?_cons]
  split <;> rfl

theorem reached_box (there : copies ≠ 0) (depth : Nat) :
    ∃ b, standard.Reached (BindingTable.register (growing copies)) (growing copies).roots
      (.specialized b (putting (nested depth))) ∧ b.Renders box := by
  induction depth with
  | zero =>
    obtain ⟨b, declared, answered⟩ := exists_provider there 0
    exact ⟨b, .root List.mem_cons_self answered, renders_box declared⟩
  | succ depth ih =>
    obtain ⟨b, reached, renders⟩ := ih
    obtain ⟨b', declared, answered⟩ := exists_provider there (depth + 1)
    have demanded : (⟨⟨nested (depth + 2), .untagged⟩, false, none⟩ : Demand) ∈
        standard.demands (BindingTable.register (growing copies))
          (.specialized b (putting (nested depth))) := by
      rw [demands_box _ renders depth]
      exact List.mem_cons_self
    exact ⟨b', .demand reached demanded answered, renders_box declared⟩

/-- A binding that asks for larger and larger specializations of itself leaves the queue without an
    end, however many turns it is given. -/
theorem growing_never_ends (there : copies ≠ 0) (turns : Nat) :
    (standard.resolve turns (BindingTable.register (growing copies)) (growing copies)).isSome =
      false := by
  by_contra ends
  obtain ⟨ps, all⟩ := Resolver.finitelyReached_of_resolve ((Bool.not_eq_false _).mp ends)
  -- the types made by the providers of a list are finitely many
  have sub : (List.range (ps.length + 1)).map (fun depth => nested (depth + 1)) ⊆
      ps.map (·.binding.contract) := by
    intro type mem
    obtain ⟨depth, -, rfl⟩ := List.mem_map.mp mem
    obtain ⟨b, reached, renders⟩ := reached_box there depth
    refine List.mem_map.mpr ⟨_, all _ reached, ?_⟩
    rw [Provider.binding, contract_eq renders]
    rfl
  have nodup : ((List.range (ps.length + 1)).map fun depth => nested (depth + 1)).Nodup :=
    List.nodup_range.map fun m n same => Nat.succ.inj (nested_injective same)
  have le := (nodup.subperm sub).length_le
  rw [List.length_map, List.length_map, List.length_range] at le
  omega

end Sample

/-- Resolution does not end for every setup. -/
theorem Resolver.not_always_ends : ¬ ∀ (r : Resolver) (s : Setup),
    ∃ turns, (r.resolve turns (BindingTable.register s) s).isSome = true := by
  intro all
  obtain ⟨turns, ends⟩ := all Sample.standard (Sample.growing 300)
  rw [Sample.growing_never_ends (by decide) turns] at ends
  cases ends

end ObjectGraph
