import ObjectGraph.Proofs.Graph.Result
import ObjectGraph.Proofs.Sample

/-
  Resolution accepts exactly the valid setups, and reports every fault once.

  The main statement is `resolve_ok_iff_valid`.  Whether the roots of a setup can be resolved is
  said without any resolution (`Resolver.Valid`); a resolution that comes to its end gives a graph
  exactly if they can.  Otherwise its faults are those foreseen for the providers that the roots
  need: each required demand in vain once, each provider that cannot be built once, whatever number
  of slots lead to it.

  The proof counts.  The faults of a finished resolution are a permutation of the ones told on the
  way and of those of the providers asked for, and these are the reached ones without repetition.
-/

namespace ObjectGraph

namespace Resolver

variable {r : Resolver} {t : BindingTable} {s : Setup} {st : Resolution} {p : Provider}

/-! ## Validity, told by faults -/

theorem missingRoots_eq_nil_iff {roots : List RootDeclaration} :
    r.missingRoots t roots = [] ↔ ∀ d ∈ roots, ∃ p, r.provider? t d.request false = some p := by
  simp [missingRoots, List.filter_eq_nil_iff, Option.isNone_iff_eq_none, Option.ne_none_iff_exists']

theorem missing_eq_nil_iff {n : Node} (built : r.node? t p = some n) :
    r.missing t p = [] ↔
      ∀ d ∈ r.demands t p, d.isOptional = false → ∃ p', r.supplier? t d = some p' := by
  simp [missing, built, missingOf, List.filter_eq_nil_iff, Option.isNone_iff_eq_none,
    Option.ne_none_iff_exists']

theorem missing_eq_nil_of_node?_eq_none (unbuilt : r.node? t p = none) : r.missing t p = [] := by
  rw [missing, unbuilt]

/-- A provider gives no faults exactly if it can be built and its required demands are answered. -/
theorem faultless_iff : r.missing t p = [] ∧ r.buildFaults t p = [] ↔
    (∃ n, r.node? t p = some n) ∧
      ∀ d ∈ r.demands t p, d.isOptional = false → ∃ p', r.supplier? t d = some p' := by
  cases built : r.node? t p with
  | none =>
    have faulty := (node?_eq_none_iff r t p).mp built
    simp [faulty]
  | some n =>
    have faultless : r.buildFaults t p = [] := by
      by_contra faulty
      rw [(node?_eq_none_iff r t p).mpr faulty] at built
      cases built
    rw [missing_eq_nil_iff built]
    simp [faultless]

theorem valid_iff {roots : List RootDeclaration} : r.Valid t roots ↔
    r.missingRoots t roots = [] ∧
      (∀ p, r.Reached t roots p → r.missing t p = [] ∧ r.buildFaults t p = []) ∧
      ∀ p, r.Reached t roots p → ¬ Relation.TransGen (r.Needs t) p p := by
  rw [missingRoots_eq_nil_iff]
  simp only [faultless_iff]
  exact ⟨fun valid => ⟨valid.rooted, fun p reached => ⟨valid.built p reached,
      valid.demanded p reached⟩, valid.straight⟩,
    fun ⟨rooted, faultless, straight⟩ => ⟨fun p reached => (faultless p reached).1, rooted,
      fun p reached => (faultless p reached).2, straight⟩⟩

/-! ## The faults of a finished resolution -/

/-- The faults of a resolution in vain: those of the providers that the roots need, each once, and
    then the cycles. -/
def Reports (r : Resolver) (t : BindingTable) (roots : List RootDeclaration)
    (faults : List Fault) : Prop :=
  ∃ (needed : List Provider) (found cycles : List Fault),
    needed.Nodup ∧ (∀ p, p ∈ needed ↔ r.Reached t roots p) ∧
    faults = found ++ cycles ∧ (∀ f ∈ cycles, f.kind = .cycle) ∧
    found.Perm
      (r.missingRoots t roots ++ needed.flatMap fun p => r.missing t p ++ r.buildFaults t p)

variable {done : List Provider} {taken : Taken} {xs : List (Option NodeId)}

/-- No provider is done twice, as no node is taken twice. -/
theorem Finished.nodup_done (finished : Finished r t s st done taken xs) : done.Nodup := by
  have each : ∀ {ps : List Provider} {entries : Taken}, List.Forall₂ (Took r t st) ps entries →
      (entries.map Prod.fst).Nodup → ps.Nodup := by
    intro ps entries all
    induction all with
    | nil => exact fun _ => List.nodup_nil
    | cons took rest ih =>
      intro nodup
      rw [List.map_cons, List.nodup_cons] at nodup
      refine List.nodup_cons.mpr ⟨fun again => nodup.1 ?_, ih nodup.2⟩
      obtain ⟨entry, mem, took'⟩ := forall₂_left rest again
      rw [Option.some.inj (took.1.unique took'.1)]
      exact List.mem_map_of_mem mem
  exact each finished.drains.took finished.drains.nodup

/-- The faults that were told are those of the providers reached, each counted once. -/
theorem Finished.exists_needed (finished : Finished r t s st done taken xs) :
    ∃ needed : List Provider, needed.Nodup ∧ (∀ p, p ∈ needed ↔ r.Reached t s.roots p) ∧
      st.faults.Perm
        (r.missingRoots t s.roots ++ needed.flatMap fun p => r.missing t p ++ r.buildFaults t p) := by
  obtain ⟨asked, books, sub⟩ := finished.drains.books
  have mem_asked : ∀ p, p ∈ asked ↔ r.Reached t s.roots p := by
    refine fun p => ⟨sub p, fun reached => ?_⟩
    obtain ⟨x, selected⟩ := finished.selected_of_reached reached
    exact (books.mem_asked selected).1
  -- what is done are the providers asked for that could be built, and the others miss nothing
  have built : done.Perm (asked.filter fun p => (r.node? t p).isSome) := by
    refine (List.perm_ext_iff_of_nodup finished.nodup_done (books.nodup.filter _)).mpr fun p => ?_
    rw [finished.mem_done_iff, List.mem_filter, mem_asked, Option.isSome_iff_exists]
  have missing : done.flatMap (r.missing t) |>.Perm (asked.flatMap (r.missing t)) := by
    refine (built.flatMap_right _).trans (List.Perm.of_eq ?_)
    clear built mem_asked books sub
    induction asked with
    | nil => rfl
    | cons p rest ih =>
      rw [List.filter_cons, List.flatMap_cons]
      split
      · rw [List.flatMap_cons, ih]
      · rename_i unbuilt
        rw [missing_eq_nil_of_node?_eq_none (by simpa using unbuilt), List.nil_append, ih]
  refine ⟨asked, books.nodup, mem_asked, books.faults.trans ?_⟩
  rw [List.append_assoc]
  exact ((missing.append_right _).trans (List.flatMap_append_perm asked _ _)).append_left _

theorem Finished.faults_eq_nil_iff (finished : Finished r t s st done taken xs) :
    st.faults = [] ↔ r.missingRoots t s.roots = [] ∧
      ∀ p, r.Reached t s.roots p → r.missing t p = [] ∧ r.buildFaults t p = [] := by
  obtain ⟨needed, -, mem_needed, perm⟩ := finished.exists_needed
  have none : st.faults = [] ↔
      r.missingRoots t s.roots ++ (needed.flatMap fun p => r.missing t p ++ r.buildFaults t p) =
        [] :=
    ⟨fun none => List.nil_perm.mp (none ▸ perm), fun none => List.perm_nil.mp (none ▸ perm)⟩
  rw [none, List.append_eq_nil_iff, List.flatMap_eq_nil_iff]
  simp only [List.append_eq_nil_iff, mem_needed]

/-- Without faults, a provider that was reached can be built, and what it requires is supplied. -/
theorem Finished.faultless_of_reached (finished : Finished r t s st done taken xs)
    (faultless : st.faults = []) (reached : r.Reached t s.roots p) :
    (∃ n, r.node? t p = some n) ∧
      ∀ d ∈ r.demands t p, d.isOptional = false → ∃ p', r.supplier? t d = some p' :=
  faultless_iff.mp ((finished.faults_eq_nil_iff.mp faultless).2 p reached)

/-- So it has a node. -/
theorem Finished.exists_node (finished : Finished r t s st done taken xs)
    (faultless : st.faults = []) (reached : r.Reached t s.roots p) :
    ∃ i, Selected r st p (some i) := by
  obtain ⟨⟨n, built⟩, -⟩ := finished.faultless_of_reached faultless reached
  exact finished.node_of_reached reached built

/-! ## The roots of the graph -/

/-- When every declaration is answered there is a root for each of them, in order. -/
theorem getElem?_rootsTo (declared : List RootDeclaration) :
    ∀ {xs : List (Option NodeId)} (index : Nat), declared.length = xs.length → none ∉ xs →
      (rootsTo index declared xs).length = declared.length ∧
      ∀ (i : Nat) (d : RootDeclaration), declared[i]? = some d →
        ∃ node, (rootsTo index declared xs)[i]? = some (rootTo d (index + i) node) := by
  induction declared with
  | nil =>
    intro xs index _ _
    exact ⟨by simp [rootsTo], fun i d declared => nomatch declared⟩
  | cons d rest ih =>
    intro xs index lengths answered
    cases xs with
    | nil => cases lengths
    | cons x xs =>
      rw [List.mem_cons, not_or] at answered
      obtain ⟨node, rfl⟩ := Option.ne_none_iff_exists'.mp (Ne.symm answered.1)
      obtain ⟨length, each⟩ := ih (index + 1) (Nat.succ.inj lengths) answered.2
      refine ⟨by simp [rootsTo, length], fun i d' declared => ?_⟩
      cases i with
      | zero =>
        cases declared
        exact ⟨node, rfl⟩
      | succ i =>
        obtain ⟨node', at_i⟩ := each i d' declared
        exact ⟨node', by rw [← Nat.add_right_comm, Nat.add_assoc] at at_i; simpa [rootsTo] using at_i⟩

/-- Nothing stays unanswered when nothing was reported. -/
theorem Finished.none_notMem (finished : Finished r t s st done taken xs)
    (faultless : st.faults = []) : none ∉ xs := by
  intro mem
  obtain ⟨d, declared, supplies⟩ := forall₂_right finished.rooted mem
  obtain ⟨p, provider⟩ :=
    missingRoots_eq_nil_iff.mp (finished.faults_eq_nil_iff.mp faultless).1 d declared
  obtain ⟨i, selected⟩ := finished.exists_node faultless (.root declared provider)
  cases (supplies.selected provider).unique selected

/-! ## The outcome -/

section Outcome

variable {turns : Nat} {o : Outcome}
  (ended : r.resolve turns (BindingTable.register s) s = some o)
include ended

theorem exists_ok_iff_valid :
    (∃ g, o.result = .ok g) ↔ r.Valid (BindingTable.register s) s.roots := by
  obtain ⟨st, done, taken, xs, finished, result⟩ := resolve_finished ended
  have ok_iff : (∃ g, o.result = .ok g) ↔
      st.faults = [] ∧ (graph s (rootsTo 0 s.roots xs) taken st).cycleFaults = [] := by
    rw [result, ← List.append_eq_nil_iff, ← List.isEmpty_iff]
    split
    · rename_i faultless
      exact iff_of_true ⟨_, rfl⟩ faultless
    · rename_i faulty
      exact iff_of_false (fun ⟨g, ok⟩ => nomatch ok) faulty
  rw [ok_iff, finished.faults_eq_nil_iff, finished.cycleFaults_eq_nil_iff, valid_iff, and_assoc]

theorem roots_of_ok {g : Graph} (ok : o.result = .ok g) : g.roots.length = s.roots.length ∧
    ∀ (i : Nat) (d : RootDeclaration), s.roots[i]? = some d →
      ∃ node, g.roots[i]? = some (rootTo d i node) := by
  obtain ⟨st, done, taken, xs, finished, rfl, faultless, -⟩ := resolve_accepted ended ok
  have answered := finished.none_notMem faultless
  have each := getElem?_rootsTo s.roots 0 finished.rooted.length_eq answered
  simp only [Nat.zero_add] at each
  exact each

theorem reports_of_error {faults : List Fault} (rejected : o.result = .error faults) :
    Reports r (BindingTable.register s) s.roots faults := by
  obtain ⟨st, done, taken, xs, finished, result⟩ := resolve_finished ended
  obtain ⟨needed, nodup, mem_needed, perm⟩ := finished.exists_needed
  refine ⟨needed, st.faults, (graph s (rootsTo 0 s.roots xs) taken st).cycleFaults, nodup,
    mem_needed, ?_, ?_, perm⟩
  · rw [result] at rejected
    split at rejected
    · cases rejected
    · exact (Except.error.inj rejected).symm
  · intro f mem
    obtain ⟨c, -, rfl⟩ := List.mem_map.mp mem
    rfl

/-- Resolution accepts exactly the valid setups.  On success there is one root for each declared
    one, in order; otherwise every fault is reported once. -/
theorem resolve_ok_iff_valid :
    ((∃ g, o.result = .ok g) ↔ r.Valid (BindingTable.register s) s.roots) ∧
      (∀ g, o.result = .ok g → g.roots.length = s.roots.length ∧
        ∀ (i : Nat) (d : RootDeclaration), s.roots[i]? = some d →
          ∃ node, g.roots[i]? = some (rootTo d i node)) ∧
      ∀ faults, o.result = .error faults →
        Reports r (BindingTable.register s) s.roots faults :=
  ⟨exists_ok_iff_valid ended, fun _ => roots_of_ok ended, fun _ => reports_of_error ended⟩

end Outcome

end Resolver

namespace Sample

/-- The class `B` is abstract, nothing is bound to `E`, and `D` needs itself. -/
def faulty : Setup :=
  setup
    [service "A" ["B", "C", "B"] .transient,
      { recipe := .construct { type := .plain "B", isAbstract := true } },
      service "C" ["B", "E"] .singleton, service "D" ["D", "E"] .transient]
    ["A", "C", "D", "E"]

/-- The abstract class is reported once, for its four uses; the missing type three times, for the
    root and for the two classes that need it; and then the circle. -/
theorem faulty_reports : ∃ o faults,
    Resolver.resolve { types := .standard } 50 (BindingTable.register faulty) faulty = some o ∧
      o.result = .error faults ∧
      faults.map Fault.kind = [.resolution, .configuration, .resolution, .resolution, .cycle] ∧
      ¬ Resolver.Valid { types := .standard } (BindingTable.register faulty) faulty.roots ∧
      Resolver.Reports { types := .standard } (BindingTable.register faulty) faulty.roots
        faults := by
  have run : ((Resolver.resolve { types := .standard } 50 (BindingTable.register faulty) faulty).map
      fun o => match o.result with
        | .ok _ => []
        | .error faults => faults.map Fault.kind) =
      some [.resolution, .configuration, .resolution, .resolution, .cycle] := by decide +kernel
  obtain ⟨o, ended, kinds⟩ := Option.map_eq_some_iff.mp run
  obtain ⟨ok_iff, -, reports⟩ := Resolver.resolve_ok_iff_valid ended
  cases result : o.result with
  | ok g =>
    rw [result] at kinds
    cases kinds
  | error faults =>
    rw [result] at kinds
    refine ⟨o, faults, ended, result, kinds, fun valid => ?_, reports faults result⟩
    obtain ⟨g, ok⟩ := ok_iff.mpr valid
    rw [result] at ok
    cases ok

end Sample

end ObjectGraph
