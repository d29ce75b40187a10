import ObjectGraph.Proofs.Compiler.Merge
import ObjectGraph.Proofs.Compiler.Outcome
import ObjectGraph.Proofs.Graph.Inspection

/-
  Which stage of a compilation reports a fault.

  Each kind of fault belongs to one stage: an unknown dependency is found while setups are merged,
  attributes and constructors are judged while nodes are built, a missing binding comes from a
  request without an answer.  So the faults of a failed compilation tell how far it came, and a
  fault of merging is reported exactly if the search for the dependencies of the setup finds it
  (`compile_reports_iff`).
-/

namespace ObjectGraph

namespace Fault

/-- The stages that report faults. -/
inductive Stage where
  /-- Setups are merged. -/
  | merging
  /-- The nodes of a binding are built. -/
  | building
  /-- Requests are answered. -/
  | answering
  /-- Cycles are looked for. -/
  | cycles
  /-- Somebody interrupts. -/
  | cancelling
  deriving DecidableEq, Inhabited

/-- The stage that reports a fault. -/
def stage : Fault → Stage
  | unknownDependency .. => .merging
  | abstractClass .. | noAccessibleConstructor .. | conflictingAttributes ..
  | attributePosition .. => .building
  | missingBinding .. => .answering
  | cycle .. => .cycles
  | cancelled _ => .cancelling

end Fault

/-! ## Building nodes -/

/-- A fault of a lookup is one of building. -/
theorem AttributeReader.stage_of_fault? {reader : AttributeReader} {l : Lookup} {f : Fault}
    (found : reader.fault? l = some f) : f.stage = .building := by
  rcases reader.fault?_eq_some_iff.mp found with ⟨-, rfl⟩ | ⟨_, _, -, -, rfl⟩ <;> rfl

theorem Node.stage_of_kinds {rules : List AttributeRule} {canAnswer : Request → Bool} {b : Binding}
    {faults : List Fault} (failed : kinds rules canAnswer b = .error faults) :
    ∀ f ∈ faults, f.stage = .building := by
  intro f mem
  have reported : f ∈ buildFaults rules canAnswer 0 b := by
    rw [buildFaults, build, failed]
    exact mem
  obtain ⟨c, -, rfl | rfl | ⟨l, -, found⟩⟩ := exists_of_mem_buildFaults reported
  · rfl
  · rfl
  · exact AttributeReader.stage_of_fault? found

/-! ## Resolving and planning -/

namespace Resolver

variable {r : Resolver} {t : BindingTable} {p : Provider} {roots : List RootDeclaration}
  {faults : List Fault}

theorem stage_of_buildFaults : ∀ f ∈ r.buildFaults t p, f.stage = .building := by
  intro f mem
  unfold buildFaults kinds at mem
  cases made : Node.kinds r.rules (r.canAnswer t) p.binding with
  | ok => rw [made] at mem; cases mem
  | error faults =>
    rw [made] at mem
    exact Node.stage_of_kinds made f mem

theorem stage_of_missing : ∀ f ∈ r.missing t p, f.stage = .answering := by
  intro f mem
  unfold missing at mem
  split at mem
  · obtain ⟨d, -, rfl⟩ := List.mem_map.mp mem
    rfl
  · cases mem

theorem stage_of_missingRoots : ∀ f ∈ r.missingRoots t roots, f.stage = .answering := by
  intro f mem
  obtain ⟨d, -, rfl⟩ := List.mem_map.mp mem
  rfl

/-- Resolution builds nodes, answers requests and looks for cycles. -/
theorem Reports.stage_cases (reports : r.Reports t roots faults) :
    ∀ f ∈ faults, f.stage = .building ∨ f.stage = .answering ∨ f.stage = .cycles := by
  obtain ⟨needed, found, cycles, -, -, rfl, circular, perm⟩ := reports
  intro f mem
  rcases List.mem_append.mp mem with mem | mem
  · rcases List.mem_append.mp (perm.mem_iff.mp mem) with mem | mem
    · exact .inr (.inl (stage_of_missingRoots f mem))
    · obtain ⟨p, -, mem⟩ := List.mem_flatMap.mp mem
      rcases List.mem_append.mp mem with mem | mem
      · exact .inr (.inl (stage_of_missing f mem))
      · exact .inl (stage_of_buildFaults f mem)
  · -- what is left are the circles that were found
    have kind := circular f mem
    cases f <;> cases kind
    exact .inr (.inr rfl)

end Resolver

namespace Compiler

variable {c : Compiler} {s merged : Setup} {cancellation : Cancellation} {turns : Nat}
  {report : Report} {failure : Failure} {name : String}

theorem stage_of_plan {diagnostics : List Diagnostic} {g : Graph}
    (ended : c.plan cancellation diagnostics g = some report)
    (failed : report.result = .error failure) : ∀ f ∈ failure.faults, f.stage = .cancelling := by
  obtain ⟨v, visited, eq⟩ := Option.bind_eq_some_iff.mp ended
  unfold Graph.visit at visited
  split at visited
  · cases visited
    cases eq
    cases failed
    exact List.forall_mem_singleton.mpr rfl
  · obtain ⟨⟨tours, a⟩, -, made⟩ := Option.bind_eq_some_iff.mp visited
    cases made
    cases eq
    cases failed

/-- What goes wrong behind the merge is what resolution reports, or the walk is interrupted. -/
theorem reports_of_compileMerged
    (ended : c.compileMerged turns cancellation merged = some report)
    (failed : report.result = .error failure) :
    (c.resolver merged).Reports (BindingTable.register merged) merged.roots failure.faults ∨
      ∀ f ∈ failure.faults, f.stage = .cancelling := by
  obtain ⟨o, resolved, planned⟩ := Option.bind_eq_some_iff.mp ended
  split at planned
  · rename_i faults rejected
    cases planned
    cases failed
    exact .inl (Resolver.reports_of_error resolved rejected)
  · obtain ⟨later, planned', made⟩ := Option.bind_eq_some_iff.mp planned
    cases made
    exact .inr (stage_of_plan planned' failed)

/-- What goes wrong behind the merge is no fault of merging. -/
theorem stage_of_compileMerged
    (ended : c.compileMerged turns cancellation merged = some report)
    (failed : report.result = .error failure) : ∀ f ∈ failure.faults, f.stage ≠ .merging := by
  intro f mem merging
  rcases reports_of_compileMerged ended failed with reports | cancelled
  · have behind := reports.stage_cases f mem
    rw [merging] at behind
    simp at behind
  · rw [cancelled f mem] at merging
    cases merging

/-- A compilation that nobody interrupts reports no cancellation. -/
theorem stage_of_compile (ended : c.compile turns .never s = some report)
    (failed : report.result = .error failure) : ∀ f ∈ failure.faults, f.stage ≠ .cancelling := by
  intro f mem cancelling
  obtain ⟨faults, unmerged, same⟩ | ⟨m, later, -, ended', same⟩ := compile_cases ended nofun
  · cases failed.symm.trans same
    rw [← (merge_error_iff.mp unmerged).1] at mem
    obtain ⟨d, -, name, -, -, -, rfl⟩ := mem_faults_dependencies mem
    cases cancelling
  · obtain ⟨o, resolved, planned⟩ := Option.bind_eq_some_iff.mp ended'
    rw [same] at failed
    split at planned
    · rename_i faults rejected
      cases planned
      cases failed
      have before := (Resolver.reports_of_error resolved rejected).stage_cases f mem
      rw [cancelling] at before
      simp at before
    · rename_i g accepted
      obtain ⟨last, planned', made⟩ := Option.bind_eq_some_iff.mp planned
      cases made
      obtain ⟨_, ends, succeeds⟩ := c.plan_ends .never
        ((BindingTable.register m).diagnostics c.types) ⟨_, turns, m, o, resolved, accepted⟩
      cases planned'.symm.trans ends
      obtain ⟨x, ok⟩ := succeeds.mpr nofun
      cases failed.symm.trans ok

/-- A fault of merging is reported exactly if the search for dependencies finds it and nobody
    interrupts before. -/
theorem compile_reports_iff {fault : Fault} (merging : fault.stage = .merging) :
    (∃ report failure, c.compile turns cancellation s = some report ∧
      report.result = .error failure ∧ fault ∈ failure.faults) ↔
    cancellation ≠ .before ∧ fault ∈ (c.dependencies s).faults := by
  constructor
  · rintro ⟨report, failure, ended, failed, mem⟩
    have started : cancellation ≠ .before := by
      rintro rfl
      rw [compile_before] at ended
      cases ended
      cases failed
      rw [List.mem_singleton.mp mem] at merging
      cases merging
    refine ⟨started, ?_⟩
    obtain ⟨faults, unmerged, same⟩ | ⟨m, later, -, ended', same⟩ := compile_cases ended started
    · cases failed.symm.trans same
      exact (merge_error_iff.mp unmerged).1 ▸ mem
    · exact absurd merging (stage_of_compileMerged ended' (same ▸ failed) fault mem)
  · rintro ⟨started, mem⟩
    have unmerged := merge_error_iff.mpr
      ⟨(rfl : (c.dependencies s).faults = _), List.ne_nil_of_mem mem⟩
    have ended := c.compile_eq turns s started
    rw [unmerged] at ended
    exact ⟨_, _, ended, rfl, mem⟩

end Compiler

end ObjectGraph
