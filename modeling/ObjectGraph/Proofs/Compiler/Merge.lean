import ObjectGraph.Proofs.Compiler.Dependencies

/-
  What a setup is merged with, and in which order.

  The setups that take part in the composition of a setup `s` form a graph (`Depends`): `s` itself
  and what is reached from it through names of the catalog.  No edge leads into `s` again or to a
  global setup, since neither is entered.  The search finds the setups of this graph, each once, and
  its order is that of the dependencies wherever these are not circular (`merge_once`).  What becomes
  of the setups that are found is the same for all that a setup declares: it is appended, one setup
  after the other (`Merges`).
-/

namespace ObjectGraph

/-! ## Appending one setup after the other -/

/-- A list of a setup that `append` puts together is put together by appending many. -/
theorem Setup.foldl_append {α : Type} {f : Setup → List α}
    (both : ∀ s other, f (Setup.append s other) = f s ++ f other) (all : List Setup) (s : Setup) :
    f (all.foldl Setup.append s) = f s ++ all.flatMap f := by
  induction all generalizing s with
  | nil => exact (List.append_nil _).symm
  | cons other all ih => rw [List.foldl_cons, ih, both, List.flatMap_cons, List.append_assoc]

/-- Of the hints of one name, those of the setup that is appended last count. -/
theorem Setup.get?_hints_foldl_append (all : List Setup) (s : Setup) (name : String) :
    (all.foldl Setup.append s).hints.get? name =
      (all.reverse.findSome? (·.hints.get? name)).or (s.hints.get? name) := by
  induction all generalizing s with
  | nil => rfl
  | cons other all ih =>
    have both : (s.append other).hints.get? name =
        (other.hints.get? name).or (s.hints.get? name) := NameMap.get?_union ..
    rw [List.foldl_cons, ih, both, List.reverse_cons, List.findSome?_append, Option.or_assoc,
      List.findSome?_singleton]

namespace Compiler

open DependencySearch

variable {c : Compiler} {s m d : Setup} {name u v : String} {names : List String} {all : List Setup}

/-- The setup `m` has all that is declared in a list of setups, from the weakest to the strongest, and
    goes by the name of `s`, which it also binds to the composition itself. -/
structure Merges (s : Setup) (all : List Setup) (m : Setup) : Prop where
  name : m.name = s.name
  kind : m.kind = s.kind
  dependsOn : m.dependsOn = s.dependsOn
  location : m.location = s.location
  declarations : m.declarations = ownDeclaration s :: all.flatMap (·.declarations)
  roots : m.roots = all.flatMap (·.roots)
  accumulators : m.accumulators = all.flatMap (·.accumulators)
  handlers : m.handlers = all.flatMap (·.handlers)
  rules : m.rules = all.flatMap (·.rules)
  /-- Of the hints of one name the strongest counts. -/
  hints : ∀ name, m.hints.get? name = all.reverse.findSome? (·.hints.get? name)

/-- All that takes part in a merge is there in the setup that the merge makes. -/
theorem merges_foldl_append (s : Setup) (all : List Setup) :
    Merges s all (all.foldl Setup.append (emptyOf s)) := by
  have kept {α : Type} {f : Setup → α} (same : ∀ s other, f (Setup.append s other) = f s) :
      f (all.foldl Setup.append (emptyOf s)) = f (emptyOf s) := by
    generalize emptyOf s = first
    induction all generalizing first with
    | nil => rfl
    | cons other all ih => rw [List.foldl_cons, ih, same]
  exact {
    name := kept fun _ _ => rfl
    kind := kept fun _ _ => rfl
    dependsOn := kept fun _ _ => rfl
    location := kept fun _ _ => rfl
    declarations := Setup.foldl_append (fun _ _ => rfl) all _
    roots := Setup.foldl_append (fun _ _ => rfl) all _
    accumulators := Setup.foldl_append (fun _ _ => rfl) all _
    handlers := Setup.foldl_append (fun _ _ => rfl) all _
    rules := Setup.foldl_append (fun _ _ => rfl) all _
    hints := fun name =>
      (Setup.get?_hints_foldl_append all _ name).trans (Option.or_none ..) }

/-- All that a setup is merged with, from the weakest to the strongest. -/
def contributors (c : Compiler) (s : Setup) : List Setup :=
  c.allGlobals.filter (·.name ≠ s.name) ++ (c.dependencies s).found ++ [s]

/-- A merge succeeds if the search meets no fault, and then appends all contributors. -/
theorem merge_ok_iff : c.merge s = .ok m ↔
    (c.dependencies s).faults = [] ∧ m = (c.contributors s).foldl Setup.append (emptyOf s) := by
  rw [merge, contributions]
  cases (c.dependencies s).faults with
  | nil => simp [Except.map, contributors, eq_comm]
  | cons => simp [Except.map]

/-- It fails with the faults of the search. -/
theorem merge_error_iff {faults : List Fault} : c.merge s = .error faults ↔
    (c.dependencies s).faults = faults ∧ faults ≠ [] := by
  rw [merge, contributions]
  cases (c.dependencies s).faults with
  | nil => simp +contextual [Except.map, eq_comm]
  | cons fault rest =>
    simp only [List.isEmpty_cons, Bool.false_eq_true, if_false, Except.map, Except.error.injEq]
    exact ⟨fun eq => ⟨eq, eq ▸ List.cons_ne_nil fault rest⟩, And.left⟩

/-- A merge has all that its contributors declare. -/
theorem merges_of_merge (merged : c.merge s = .ok m) : Merges s (c.contributors s) m := by
  rw [(merge_ok_iff.mp merged).2]
  exact merges_foldl_append s _

/-! ## The graph of dependencies -/

/-- The setup of the name `u`, in the composition of `s`: `s` itself, or one of the catalog. -/
def Composed (c : Compiler) (s : Setup) (u : String) (d : Setup) : Prop :=
  u = s.name ∧ d = s ∨ Inner c.catalog s.name u d

/-- In the composition of `s`, the setup of the name `u` depends on the one of the name `v`, which
    is neither global nor `s`. -/
def Depends (c : Compiler) (s : Setup) (u v : String) : Prop :=
  (∃ d, c.Composed s u d ∧ v ∈ d.dependsOn) ∧ ∃ e, Inner c.catalog s.name v e

/-- The name is one of a setup that `s` depends on, directly or not. -/
def Reaches (c : Compiler) (s : Setup) (name : String) : Prop :=
  Relation.TransGen (c.Depends s) s.name name

/-- The setup is part of the composition of `s` and not only as a global one. -/
def Takes (c : Compiler) (s d : Setup) : Prop :=
  d = s ∨ ∃ u, c.Reaches s u ∧ c.catalog.get? u = some d

/-- A setup of the composition depends on the name, which is another one than that of `s`. -/
def Asks (c : Compiler) (s : Setup) (name : String) : Prop :=
  name ≠ s.name ∧ ∃ d, c.Takes s d ∧ name ∈ d.dependsOn

theorem Depends.of_leads (leads : Leads c.catalog s.name u v) : c.Depends s u v := by
  obtain ⟨⟨d, inner, asks⟩, target⟩ := leads
  exact ⟨⟨d, .inr inner, asks⟩, target⟩

/-- No edge leads into `s`, so behind the first edge all is in the catalog. -/
theorem Depends.leads (depends : c.Depends s u v) (ne : u ≠ s.name) :
    Leads c.catalog s.name u v := by
  obtain ⟨⟨d, composed, asks⟩, target⟩ := depends
  exact ⟨⟨d, composed.resolve_left fun same => ne same.1, asks⟩, target⟩

/-- What leads through the catalog leads from setup to setup. -/
theorem reflTransGen_depends (path : Relation.ReflTransGen (Leads c.catalog s.name) u v) :
    Relation.ReflTransGen (c.Depends s) u v :=
  Relation.ReflTransGen.mono (fun _ _ => Depends.of_leads) u v path

theorem Reaches.inner (reaches : c.Reaches s name) : ∃ d, Inner c.catalog s.name name d := by
  obtain ⟨u, -, depends⟩ := Relation.TransGen.tail'_iff.mp reaches
  exact depends.2

theorem Reaches.inner_of_held (reaches : c.Reaches s u) (held : c.catalog.get? u = some d) :
    Inner c.catalog s.name u d := by
  obtain ⟨e, inner⟩ := reaches.inner
  cases held.symm.trans inner.held
  exact inner

/-! ## What the search finds -/

theorem dependencies_follows (c : Compiler) (s : Setup) : ∃ names,
    Follows c.catalog { met := [s.name] } s s.dependsOn names (c.dependencies s) :=
  follow_follows _ _ _ (Nat.lt_succ_of_le (unmet_le_size _ _))

section Explored

variable {st : DependencySearch}
  (explores : Explores c.catalog s.name { met := [s.name] } s.dependsOn names st)
include explores

theorem mem_of_inner (met : name ∈ st.met) (inner : Inner c.catalog s.name name d) : name ∈ names :=
  explores.complete name met (fun old => inner.ne_own (List.mem_singleton.mp old)) d inner

/-- The names found are those that the setup leads to. -/
theorem mem_iff_reaches : name ∈ names ↔ c.Reaches s name := by
  constructor
  · intro mem
    obtain ⟨first, asks, inner, path⟩ := explores.led name mem
    exact .trans_left (.single ⟨⟨s, .inl ⟨rfl, rfl⟩, asks⟩, inner⟩) (reflTransGen_depends path)
  · intro reaches
    induction reaches with
    | single depends =>
      obtain ⟨⟨d, ⟨-, rfl⟩ | inner, asks⟩, e, target⟩ := depends
      · exact mem_of_inner explores (explores.names_met asks) target
      · exact (inner.ne_own rfl).elim
    | @tail u v before depends mem =>
      obtain ⟨⟨d, inner, asks⟩, e, target⟩ :=
        depends.leads fun eq => (explores.put_new u mem).1 (eq ▸ List.mem_cons_self)
      exact mem_of_inner explores (explores.closed u mem d inner asks) target

/-- The names met are those that some setup of the composition depends on. -/
theorem asks_iff_met : c.Asks s name ↔ name ≠ s.name ∧ name ∈ st.met := by
  refine and_congr_right fun ne => ⟨?_, fun met => ?_⟩
  · rintro ⟨d, rfl | ⟨u, reaches, held⟩, asks⟩
    · exact explores.names_met asks
    · exact explores.closed u ((mem_iff_reaches explores).mpr reaches) d
        (reaches.inner_of_held held) asks
  · rcases explores.asked name met with old | asks | ⟨u, mem, d, inner, asks⟩
    · exact (ne (List.mem_singleton.mp old)).elim
    · exact ⟨s, .inl rfl, asks⟩
    · exact ⟨d, .inr ⟨u, (mem_iff_reaches explores).mp mem, inner.held⟩, asks⟩

/-- The setups found are those of the names found. -/
theorem found_eq : st.found = names.filterMap c.catalog.get? := by
  obtain ⟨ds, eq, all⟩ := explores.found
  rw [eq, List.nil_append]
  clear eq explores
  induction all with
  | nil => rfl
  | cons inner _ ih => rw [List.filterMap_cons_some inner.held, ← ih]

/-- Dependencies come first, unless they are circular. -/
theorem precedes_of_depends (part : u = s.name ∨ u ∈ names) (depends : c.Depends s u v)
    (apart : ¬ Relation.ReflTransGen (c.Depends s) v u) : Precedes (names ++ [s.name]) v u := by
  have out : s.name ∉ names := fun mem => (explores.put_new _ mem).1 List.mem_cons_self
  have v_mem : c.Reaches s u ∨ u = s.name → v ∈ names := by
    rintro (reaches | rfl)
    · exact (mem_iff_reaches explores).mpr (reaches.tail depends)
    · exact (mem_iff_reaches explores).mpr (.single depends)
  rw [Precedes.append_iff]
  rcases part with rfl | mem
  · exact .inr (.inl ⟨v_mem (.inr rfl), List.mem_singleton_self _⟩)
  · rcases explores.ordered u mem v (depends.leads fun eq => out (eq ▸ mem)) with old | first | back
    · obtain ⟨e, inner⟩ := depends.2
      exact (inner.ne_own (List.mem_singleton.mp old)).elim
    · exact .inl first
    · exact (apart (reflTransGen_depends back)).elim

end Explored

/-! ## What the search reports -/

/-- A name is reported if a setup of the composition depends on it and the catalog does not hold
    it. -/
theorem mem_faults_dependencies {fault : Fault} : fault ∈ (c.dependencies s).faults →
    ∃ d, c.Takes s d ∧ ∃ name ∈ d.dependsOn, name ≠ s.name ∧ c.catalog.get? name = none ∧
      fault = .unknownDependency d.name name d.location := by
  obtain ⟨names, follows⟩ := c.dependencies_follows s
  have explores := follows.explores List.mem_cons_self
  obtain ⟨missing, misses⟩ := follows.misses (List.mem_cons_self (a := s.name))
  rw [misses.faults, List.nil_append]
  intro reported
  obtain ⟨⟨d, name⟩, mem, rfl⟩ := List.mem_map.mp reported
  obtain ⟨new, -, none⟩ := misses.absent _ mem
  have ne : name ≠ s.name := fun eq => new (List.mem_singleton.mpr eq)
  rcases misses.asked _ mem with ⟨eq, asks⟩ | ⟨u, found, inner, asks⟩
  · obtain rfl : d = s := eq
    exact ⟨d, .inl rfl, name, asks, ne, none, rfl⟩
  · exact ⟨d, .inr ⟨u, (mem_iff_reaches explores).mp found, inner.held⟩, name, asks, ne, none, rfl⟩

/-- A name is reported exactly if a setup asks for it and the catalog does not hold it. -/
theorem exists_mem_faults_iff : (∃ u l, .unknownDependency u name l ∈ (c.dependencies s).faults) ↔
    c.Asks s name ∧ c.catalog.get? name = none := by
  constructor
  · rintro ⟨u, l, mem⟩
    obtain ⟨d, takes, other, asks, ne, none, eq⟩ := mem_faults_dependencies mem
    cases eq
    exact ⟨⟨ne, d, takes, asks⟩, none⟩
  · rintro ⟨asks, none⟩
    obtain ⟨names, follows⟩ := c.dependencies_follows s
    obtain ⟨missing, misses⟩ := follows.misses (List.mem_cons_self (a := s.name))
    obtain ⟨ne, met⟩ := (asks_iff_met (follows.explores List.mem_cons_self)).mp asks
    obtain ⟨e, mem, rfl⟩ := List.mem_map.mp
      (misses.complete name met (fun old => ne (List.mem_singleton.mp old)) none)
    refine ⟨e.1.name, e.1.location, ?_⟩
    rw [misses.faults, List.nil_append]
    exact List.mem_map.mpr ⟨e, mem, rfl⟩

/-- So nothing is reported exactly if the catalog holds all that is asked for. -/
theorem faults_eq_nil_iff : (c.dependencies s).faults = [] ↔
    ∀ name, c.Asks s name → ∃ d, c.catalog.get? name = some d := by
  constructor
  · intro none name asks
    refine Option.ne_none_iff_exists'.mp fun missing => ?_
    obtain ⟨u, l, mem⟩ := exists_mem_faults_iff.mpr ⟨asks, missing⟩
    rw [none] at mem
    cases mem
  · intro resolves
    refine List.eq_nil_iff_forall_not_mem.mpr fun fault mem => ?_
    obtain ⟨d, takes, name, asks, ne, none, -⟩ := mem_faults_dependencies mem
    obtain ⟨e, held⟩ := resolves name ⟨ne, d, takes, asks⟩
    rw [none] at held
    cases held

/-! ## The merge -/

/-- The search for the dependencies of a setup comes to its end, whatever the catalog.  The merge
    succeeds if the catalog holds all names that are asked for, and then it takes all that is declared
    for the composition itself, by the globals, by each setup that `s` depends on and by `s`; a setup
    comes after those that it depends on, unless they depend on it. -/
theorem merge_once (c : Compiler) (s : Setup) : ∃ names,
    (∀ names' st, Follows c.catalog { met := [s.name] } s s.dependsOn names' st ↔
      names' = names ∧ st = c.dependencies s) ∧
    ((∃ m, c.merge s = .ok m) ↔ ∀ name, c.Asks s name → ∃ d, c.catalog.get? name = some d) ∧
    names.Nodup ∧ (∀ name, name ∈ names ↔ c.Reaches s name) ∧
    (∀ m, c.merge s = .ok m → Merges s
      (c.allGlobals.filter (·.name ≠ s.name) ++ names.filterMap c.catalog.get? ++ [s]) m) ∧
    ∀ u v, u = s.name ∨ u ∈ names → c.Depends s u v →
      ¬ Relation.ReflTransGen (c.Depends s) v u → Precedes (names ++ [s.name]) v u := by
  obtain ⟨names, follows⟩ := c.dependencies_follows s
  have explores := follows.explores (List.mem_cons_self (a := s.name))
  refine ⟨names, fun names' st => ?_, ?_, explores.nodup, fun _ => mem_iff_reaches explores,
    fun m merged => ?_, fun u v => precedes_of_depends explores⟩
  · exact ⟨fun other => other.unique follows, fun ⟨eq, eq'⟩ => eq ▸ eq' ▸ follows⟩
  · rw [← faults_eq_nil_iff]
    exact ⟨fun ⟨m, merged⟩ => (merge_ok_iff.mp merged).1,
      fun none => ⟨_, merge_ok_iff.mpr ⟨none, rfl⟩⟩⟩
  · rw [← found_eq explores]
    exact merges_of_merge merged

end Compiler

namespace Sample

/-- A setup that leaves its name in all that it declares. -/
def named (name : String) (needs : List String) : Setup where
  name := name
  declarations := [{ recipe := .outside ⟨name, .plain name⟩ }]
  roots := [{ name := name, type := .plain name }]
  hints := .ofList [("Owner", name)]
  accumulators := [{ name := name, captured := .plain name, type := .plain name }]
  handlers := [{ name := name, type := .plain name }]
  dependsOn := needs

/-- Both `B` and `C` depend on `D`, which depends in turn on `B` and on the setup `S` itself. -/
def diamond : Compiler where
  includesStandard := false
  globals := [named "G" []]
  catalog := .ofList
    [("B", named "B" ["D"]), ("C", named "C" ["D"]), ("D", named "D" ["S", "B"])]

end Sample

namespace Compiler

open Sample

/-- What `D` reaches, `C` is not among. -/
theorem eq_of_path_diamond {v : String}
    (path : Relation.ReflTransGen (diamond.Depends (named "S" ["B", "C"])) "D" v) :
    v = "D" ∨ v = "B" := by
  induction path with
  | refl => exact .inl rfl
  | tail _ depends ih =>
    obtain ⟨⟨d, inner, asks⟩, e, target⟩ := depends.leads (by rcases ih with rfl | rfl <;> decide)
    rcases ih with rfl | rfl
    · obtain rfl : named "D" ["S", "B"] = d := Option.some.inj inner.held
      rcases List.mem_pair.mp asks with rfl | rfl
      · exact (target.ne_own rfl).elim
      · exact .inr rfl
    · obtain rfl : named "B" ["D"] = d := Option.some.inj inner.held
      exact .inl (List.mem_singleton.mp asks)

/-- `D` is merged once, and before `C`, which it does not reach.  All that is declared goes the same
    way, but for the hint, of which that of `S` is left. -/
theorem merge_once_circular : ∃ names m,
    diamond.merge (named "S" ["B", "C"]) = .ok m ∧ names.Nodup ∧
      Precedes (names ++ ["S"]) "D" "C" ∧
      Merges (named "S" ["B", "C"])
        (named "G" [] :: (names.filterMap diamond.catalog.get? ++ [named "S" ["B", "C"]])) m ∧
      m.declarations.map (·.recipe) = .builtin .composition ::
        ["G", "D", "B", "C", "S"].map (fun name => .outside ⟨name, .plain name⟩) ∧
      m.roots.map (·.name) = ["G", "D", "B", "C", "S"] ∧
      m.hints.get? "Owner" = some "S" := by
  obtain ⟨names, -, -, nodup, reached, merges, ordered⟩ :=
    merge_once diamond (named "S" ["B", "C"])
  have merged : diamond.merge (named "S" ["B", "C"]) = .ok _ := merge_ok_iff.mpr ⟨by decide, rfl⟩
  have depends : diamond.Depends (named "S" ["B", "C"]) "S" "C" :=
    ⟨⟨_, .inl ⟨rfl, rfl⟩, by decide⟩, named "C" ["D"], rfl, rfl, by decide⟩
  have depends' : diamond.Depends (named "S" ["B", "C"]) "C" "D" :=
    ⟨⟨named "C" ["D"], .inr ⟨rfl, rfl, by decide⟩, by decide⟩, named "D" ["S", "B"], rfl, rfl,
      by decide⟩
  refine ⟨names, _, merged, nodup, ?_, merges _ merged, by decide, by decide, by decide⟩
  refine ordered "C" "D" (.inr ((reached "C").mpr (.single depends))) depends' fun path => ?_
  have eq := eq_of_path_diamond path
  revert eq
  decide

end Compiler

end ObjectGraph
