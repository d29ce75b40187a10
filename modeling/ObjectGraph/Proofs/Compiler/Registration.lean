import ObjectGraph.Proofs.Compiler.Stages
import ObjectGraph.Proofs.Sample

/-
  Where the setups of a compiler come from, and what becomes of their names.

  Setups reach a compiler by three calls and are kept in two places: a list of globals and a catalog
  by names.  A name is looked up in the catalog alone, and from a global setup no name is followed
  at all.  Hence a name can be reported as unknown though a global setup carries it
  (`reportsUnknown_exact`), and it can be passed over though nothing of that name is merged
  (`keepsDependencies_exact`).
-/

namespace ObjectGraph

/-- A call that hands setups to a compiler in the making. -/
inductive Registration where
  /-- A setup that is to be part of every composition. -/
  | global (s : Setup)
  /-- A setup that others can depend on. -/
  | setup (s : Setup)
  /-- A directory of setups of both sorts. -/
  | directory (d : SetupDirectory)

namespace Registration

/-- All setups that are handed over. -/
def setups : Registration → List Setup
  | global s | setup s => [s]
  | directory d => d.values

/-- Those that are kept as globals. -/
def globals : Registration → List Setup
  | global s => [s]
  | setup _ => []
  | directory d => d.globals

/-- Those that are kept in the catalog. -/
def compositions : Registration → List Setup
  | global _ => []
  | setup s => [s]
  | directory d => d.compositions

/-- What the call makes of the compiler. -/
def apply (c : Compiler) : Registration → Compiler
  | global s => c.addGlobal s
  | setup s => c.addSetup s
  | directory d => c.addDirectory d

/-- What a registration hands over is global or goes to the catalog. -/
theorem mem_setups_iff (r : Registration) (x : Setup) :
    x ∈ r.setups ↔ x ∈ r.globals ∨ x ∈ r.compositions := by
  cases r with
  | global s | setup s => simp [setups, globals, compositions]
  | directory d =>
    simp only [setups, globals, compositions, SetupDirectory.globals, SetupDirectory.compositions,
      List.mem_filter]
    cases x.isGlobal <;> simp

end Registration

namespace Compiler

variable {c : Compiler} {s m d x : Setup} {name : String} {cancellation : Cancellation}
  {turns : Nat} {types : TypeOracle} {includesStandard : Bool} {calls : List Registration}

/-- The compiler that comes of some calls. -/
def assemble (types : TypeOracle) (includesStandard : Bool) (calls : List Registration) :
    Compiler :=
  calls.foldl Registration.apply { types, includesStandard }

/-! ## What an assembled compiler knows -/

theorem foldl_addGlobal (l : List Setup) (c : Compiler) :
    l.foldl addGlobal c = { c with globals := c.globals ++ l } := by
  induction l generalizing c with
  | nil => simp
  | cons x l ih => rw [List.foldl_cons, ih, addGlobal]; simp

theorem foldl_addSetup (l : List Setup) (c : Compiler) : l.foldl addSetup c =
    { c with catalog := l.foldl (fun catalog x => catalog.insert x.name x) c.catalog } := by
  induction l generalizing c with
  | nil => rfl
  | cons x l ih => rw [List.foldl_cons, ih]; rfl

theorem apply_eq (c : Compiler) (r : Registration) : Registration.apply c r =
    { c with
      globals := c.globals ++ r.globals
      catalog := r.compositions.foldl (fun catalog x => catalog.insert x.name x) c.catalog } := by
  cases r with
  | global s => rfl
  | setup s => simp [Registration.apply, addSetup, Registration.globals, Registration.compositions]
  | directory d => rw [Registration.apply, addDirectory, foldl_addGlobal, foldl_addSetup]; rfl

/-- What a compiler holds after all registrations. -/
theorem assemble_eq (types : TypeOracle) (includesStandard : Bool) (calls : List Registration) :
    assemble types includesStandard calls = {
      types, includesStandard
      globals := calls.flatMap (·.globals)
      catalog := (calls.flatMap (·.compositions)).foldl
        (fun catalog x => catalog.insert x.name x) ∅ } := by
  have general (c : Compiler) : calls.foldl Registration.apply c =
      { c with
        globals := c.globals ++ calls.flatMap (·.globals)
        catalog := (calls.flatMap (·.compositions)).foldl
          (fun catalog x => catalog.insert x.name x) c.catalog } := by
    induction calls generalizing c with
    | nil => simp
    | cons r calls ih => rw [List.foldl_cons, ih, apply_eq]; simp
  rw [assemble, general]
  rfl

/-- The catalog holds the setup of a name that was handed over last. -/
theorem get?_foldl_insert (l : List Setup) (catalog : NameMap Setup) (name : String) :
    (l.foldl (fun catalog x => catalog.insert x.name x) catalog).get? name =
      (l.reverse.find? (·.name == name)).or (catalog.get? name) := by
  induction l generalizing catalog with
  | nil => rfl
  | cons x l ih =>
    rw [List.foldl_cons, ih, List.reverse_cons, List.find?_append, Option.or_assoc]
    congr 1
    by_cases eq : x.name = name
    · subst eq
      simp
    · rw [NameMap.get?_insert_of_ne _ _ (Ne.symm eq)]
      simp [eq]

theorem assemble_get? : (assemble types includesStandard calls).catalog.get? name =
    (calls.flatMap (·.compositions)).reverse.find? (·.name == name) := by
  rw [assemble_eq, get?_foldl_insert]
  exact Option.or_none

/-- The catalog lacks a name exactly if no registration brings a setup of it. -/
theorem assemble_get?_eq_none_iff :
    (assemble types includesStandard calls).catalog.get? name = none ↔
      ∀ x ∈ calls.flatMap (·.compositions), x.name ≠ name := by
  simp [assemble_get?, List.find?_eq_none]

/-- Every setup of the catalog goes by its own name. -/
theorem name_of_assemble_get?
    (held : (assemble types includesStandard calls).catalog.get? name = some d) :
    d.name = name := by
  rw [assemble_get?] at held
  simpa using List.find?_some held

/-! ## Names that are reported as unknown -/

/-- The compilation of a setup reports that nothing goes by the name. -/
def ReportsUnknown (c : Compiler) (turns : Nat) (cancellation : Cancellation) (s : Setup)
    (name : String) : Prop :=
  ∃ report failure u l, c.compile turns cancellation s = some report ∧
    report.result = .error failure ∧ .unknownDependency u name l ∈ failure.faults

/-- A name is reported exactly if it is asked for and the catalog does not hold it, unless the
    compilation is cancelled before it starts. -/
theorem reportsUnknown_iff : c.ReportsUnknown turns cancellation s name ↔
    cancellation ≠ .before ∧ c.Asks s name ∧ c.catalog.get? name = none := by
  rw [← exists_mem_faults_iff, ReportsUnknown]
  constructor
  · rintro ⟨report, failure, u, l, reports⟩
    obtain ⟨started, mem⟩ := (compile_reports_iff rfl).mp ⟨report, failure, reports⟩
    exact ⟨started, u, l, mem⟩
  · rintro ⟨started, u, l, mem⟩
    obtain ⟨report, failure, reports⟩ : ∃ report failure,
        c.compile turns cancellation s = some report ∧ report.result = .error failure ∧
          .unknownDependency u name l ∈ failure.faults :=
      (compile_reports_iff rfl).mpr ⟨started, mem⟩
    exact ⟨report, failure, u, l, reports⟩

/-- A name is reported as unknown exactly if some setup of the composition depends on it and the
    catalog does not hold it.  So it is never one that was handed over exactly if every name of a
    global setup that is asked for is a name of the catalog as well. -/
theorem reportsUnknown_exact (types : TypeOracle) (includesStandard : Bool)
    (calls : List Registration) (turns : Nat) (cancellation : Cancellation) (s : Setup) :
    (∀ name, (assemble types includesStandard calls).ReportsUnknown turns cancellation s name ↔
      cancellation ≠ .before ∧ (assemble types includesStandard calls).Asks s name ∧
        ∀ x ∈ calls.flatMap (·.compositions), x.name ≠ name) ∧
    ((∀ name, (assemble types includesStandard calls).ReportsUnknown turns cancellation s name →
        ∀ x ∈ calls.flatMap (·.setups), x.name ≠ name) ↔
      (cancellation ≠ .before → ∀ g ∈ calls.flatMap (·.globals),
        (assemble types includesStandard calls).Asks s g.name →
          ∃ x ∈ calls.flatMap (·.compositions), x.name = g.name)) := by
  have reports (name : String) :
      (assemble types includesStandard calls).ReportsUnknown turns cancellation s name ↔
        cancellation ≠ .before ∧ (assemble types includesStandard calls).Asks s name ∧
          ∀ x ∈ calls.flatMap (·.compositions), x.name ≠ name := by
    rw [reportsUnknown_iff, assemble_get?_eq_none_iff]
  refine ⟨reports, fun unheard started g global asks => ?_, fun known name unknown x mem eq => ?_⟩
  · by_contra none
    push Not at none
    obtain ⟨call, mem, global⟩ := List.mem_flatMap.mp global
    exact unheard g.name ((reports _).mpr ⟨started, asks, none⟩) g
      (List.mem_flatMap.mpr ⟨call, mem, (call.mem_setups_iff g).mpr (.inl global)⟩) rfl
  · obtain ⟨started, asks, out⟩ := (reports name).mp unknown
    obtain ⟨call, call_mem, mem⟩ := List.mem_flatMap.mp mem
    rcases (call.mem_setups_iff x).mp mem with global | composition
    · obtain ⟨y, held, eq'⟩ := known started x (List.mem_flatMap.mpr ⟨call, call_mem, global⟩)
        (eq ▸ asks)
      exact out y held (eq'.trans eq)
    · exact out x (List.mem_flatMap.mpr ⟨call, call_mem, composition⟩) eq

/-- A setup depends on a global one, which the catalog does not hold. -/
theorem reportsUnknown_not_always_uncarried :
    ¬ ∀ (types : TypeOracle) (includesStandard : Bool) (calls : List Registration) (turns : Nat)
      (cancellation : Cancellation) (s : Setup) (name : String),
      (assemble types includesStandard calls).ReportsUnknown turns cancellation s name →
        ∀ call ∈ calls, ∀ x ∈ call.setups, x.name ≠ name := by
  intro all
  let g : Setup := { name := "G", kind := .global }
  let s : Setup := { name := "S", dependsOn := ["G"] }
  have asks : (assemble .standard false [.global g]).Asks s "G" :=
    ⟨by decide, s, .inl rfl, List.mem_singleton_self _⟩
  exact all .standard false [.global g] 0 .never s "G"
    (reportsUnknown_iff.mpr ⟨by decide, asks, rfl⟩) (.global g) (List.mem_singleton_self _) g
    (List.mem_singleton_self _) rfl

/-! ## Names that are passed over -/

/-- For every name that a setup of the composition depends on, a setup of that name is part of
    it. -/
def KeepsDependencies (c : Compiler) (s : Setup) : Prop :=
  ∀ x ∈ c.contributors s, ∀ name ∈ x.dependsOn, name ≠ s.name →
    ∃ d ∈ c.contributors s, d.name = name

/-- A setup takes part as a global that goes by another name, or because the composition takes
    it. -/
theorem mem_contributors_iff : d ∈ c.contributors s ↔
    (d ∈ c.allGlobals ∧ d.name ≠ s.name) ∨ c.Takes s d := by
  obtain ⟨names, follows⟩ := c.dependencies_follows s
  have explores := follows.explores (List.mem_cons_self (a := s.name))
  rw [contributors, found_eq explores]
  simp only [List.mem_append, List.mem_filter, List.mem_filterMap, List.mem_singleton, Takes,
    mem_iff_reaches explores, decide_eq_true_eq, or_assoc]
  exact or_congr_right or_comm

/-- A name that is asked for is reached, unless the catalog holds a global setup of that name. -/
theorem Asks.reaches (asks : c.Asks s name) (held : c.catalog.get? name = some d)
    (composed : d.isGlobal = false) : c.Reaches s name := by
  obtain ⟨ne, x, takes, named⟩ := asks
  have target : ∃ e, DependencySearch.Inner c.catalog s.name name e := ⟨d, held, composed, ne⟩
  rcases takes with rfl | ⟨u, reaches, held'⟩
  · exact .single ⟨⟨x, .inl ⟨rfl, rfl⟩, named⟩, target⟩
  · exact reaches.tail ⟨⟨x, .inr (reaches.inner_of_held held'), named⟩, target⟩

/-- What goes by a name in the composition is what the catalog holds, if the name was reached, and
    the globals of that name. -/
theorem mem_contributors_named_iff (ne : name ≠ s.name) :
    d ∈ (assemble types includesStandard calls).contributors s ∧ d.name = name ↔
      ((assemble types includesStandard calls).Reaches s name ∧
        (assemble types includesStandard calls).catalog.get? name = some d) ∨
      (d ∈ (assemble types includesStandard calls).allGlobals ∧ d.name = name) := by
  constructor
  · rintro ⟨mem, rfl⟩
    rcases mem_contributors_iff.mp mem with ⟨global, -⟩ | rfl | ⟨u, reaches, held⟩
    · exact .inr ⟨global, rfl⟩
    · exact (ne rfl).elim
    · obtain rfl := name_of_assemble_get? held
      exact .inl ⟨reaches, held⟩
  · rintro (⟨reaches, held⟩ | ⟨global, rfl⟩)
    · exact ⟨mem_contributors_iff.mpr (.inr (.inr ⟨name, reaches, held⟩)),
        name_of_assemble_get? held⟩
    · exact ⟨mem_contributors_iff.mpr (.inl ⟨global, ne⟩), rfl⟩

theorem exists_contributor_iff (ne : name ≠ s.name) :
    (∃ d ∈ (assemble types includesStandard calls).contributors s, d.name = name) ↔
      (assemble types includesStandard calls).Reaches s name ∨
        ∃ g ∈ (assemble types includesStandard calls).allGlobals, g.name = name := by
  simp only [mem_contributors_named_iff ne, exists_or, exists_and_left]
  refine or_congr_left ⟨And.left, fun reaches => ⟨reaches, ?_⟩⟩
  obtain ⟨d, inner⟩ := reaches.inner
  exact ⟨d, inner.held⟩

/-- A merge has all that its contributors declare, and this is what becomes of the names that they
    depend on.  Two sorts of names are
    passed over: those of global setups that stand in the catalog only, and those that a global
    setup depends on, unless something else brings them in. -/
theorem keepsDependencies_exact (types : TypeOracle) (includesStandard : Bool)
    (calls : List Registration) {s m : Setup}
    (merged : (assemble types includesStandard calls).merge s = .ok m) :
    Merges s ((assemble types includesStandard calls).contributors s) m ∧
    (∀ name d, name ≠ s.name →
      (d ∈ (assemble types includesStandard calls).contributors s ∧ d.name = name ↔
        ((assemble types includesStandard calls).Reaches s name ∧
          (assemble types includesStandard calls).catalog.get? name = some d) ∨
        (d ∈ (assemble types includesStandard calls).allGlobals ∧ d.name = name))) ∧
    ((assemble types includesStandard calls).KeepsDependencies s ↔
      (∀ name d, (assemble types includesStandard calls).Asks s name →
        (assemble types includesStandard calls).catalog.get? name = some d → d.isGlobal = true →
          ∃ g ∈ (assemble types includesStandard calls).allGlobals, g.name = name) ∧
      ∀ g ∈ (assemble types includesStandard calls).allGlobals, g.name ≠ s.name →
        ∀ name ∈ g.dependsOn, name ≠ s.name →
          (assemble types includesStandard calls).Reaches s name ∨
            ∃ g' ∈ (assemble types includesStandard calls).allGlobals, g'.name = name) := by
  refine ⟨merges_of_merge merged, fun _ _ => mem_contributors_named_iff, ?_, ?_⟩
  · intro keeps
    refine ⟨fun name d asks held global => ?_, fun g mem ne name asks other => ?_⟩
    · obtain ⟨ne, x, takes, named⟩ := asks
      have kept := keeps x (mem_contributors_iff.mpr (.inr takes)) name named ne
      rcases (exists_contributor_iff ne).mp kept with reaches | listed
      · rw [(reaches.inner_of_held held).composed] at global
        cases global
      · exact listed
    · exact (exists_contributor_iff other).mp
        (keeps g (mem_contributors_iff.mpr (.inl ⟨mem, ne⟩)) name asks other)
  · rintro ⟨listed, followed⟩ x mem name named ne
    refine (exists_contributor_iff ne).mpr ?_
    rcases mem_contributors_iff.mp mem with ⟨global, other⟩ | takes
    · exact followed x global other name named ne
    · have asks : (assemble types includesStandard calls).Asks s name := ⟨ne, x, takes, named⟩
      obtain ⟨d, held⟩ := faults_eq_nil_iff.mp (merge_ok_iff.mp merged).1 name asks
      -- the search enters what is not global and passes over the rest
      cases global : d.isGlobal with
      | true => exact .inr (listed name d asks held global)
      | false => exact .inl (asks.reaches held global)

end Compiler

namespace Sample

/-- A global setup that depends on `B`, which is in the catalog and declares a class. -/
def linked : List Registration :=
  [.global { name := "G", kind := .global, dependsOn := ["B"] },
    .setup { name := "B", declarations := [service "B" [] .transient], dependsOn := ["C"] },
    .setup { name := "C", dependsOn := ["B"] }]

end Sample

namespace Compiler

open Sample

/-- If the compiled setup depends on `B` as well, the global setup gets what it depends on. -/
theorem keepsDependencies_linked : ∃ m,
    (assemble .standard false linked).merge { name := "S", dependsOn := ["B"] } = .ok m ∧
      (assemble .standard false linked).KeepsDependencies { name := "S", dependsOn := ["B"] } := by
  have faultless : ((assemble .standard false linked).dependencies
      { name := "S", dependsOn := ["B"] }).faults = [] := by decide
  have merged := merge_ok_iff.mpr ⟨faultless, rfl⟩
  refine ⟨_, merged, (keepsDependencies_exact _ _ _ merged).2.2.mpr ⟨?_, ?_⟩⟩
  · intro name d _ held global
    have composed : ∀ x ∈ linked.flatMap (·.compositions), x.isGlobal = false := by decide
    rw [assemble_get?] at held
    rw [composed d (List.mem_reverse.mp (List.mem_of_find?_eq_some held))] at global
    cases global
  · intro g mem _ name asks ne
    obtain rfl := List.mem_singleton.mp mem
    obtain rfl := List.mem_singleton.mp asks
    exact .inl (Asks.reaches ⟨ne, _, .inl rfl, List.mem_singleton_self _⟩ rfl rfl)

/-- If it does not, then nobody brings `B` in, and nothing is reported. -/
theorem dependencies_not_always_kept :
    ¬ ∀ (types : TypeOracle) (includesStandard : Bool) (calls : List Registration) (s m : Setup),
      (assemble types includesStandard calls).merge s = .ok m →
      ∀ x ∈ (assemble types includesStandard calls).contributors s, ∀ name ∈ x.dependsOn,
        name ≠ s.name → ∀ call ∈ calls, ∀ d ∈ call.setups, d.name = name →
          d.declarations ⊆ m.declarations := by
  intro all
  have merged : (assemble .standard false linked).merge { name := "S" } = .ok _ :=
    merge_ok_iff.mpr ⟨by decide, rfl⟩
  have kept := all .standard false linked _ _ merged _ (List.mem_append_left _ List.mem_cons_self)
    "B" (by decide) (by decide) _ (List.mem_cons_of_mem _ List.mem_cons_self) _
    (List.mem_singleton_self _) rfl List.mem_cons_self
  rw [(merges_of_merge merged).declarations] at kept
  revert kept
  decide

end Compiler

end ObjectGraph
