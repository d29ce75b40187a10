import ObjectGraph.Batch
import ObjectGraph.Proofs.Compiler.Stages
import ObjectGraph.Proofs.Sample

/-
  What a batch run does.

  A setup is compiled `Alone` if nobody interrupts.  In a batch the compilations share a session, and
  with `failFast` the first failure cancels all later ones.  `Tries` tells what comes of each setup,
  one rule for each case, and `compileAll_tries` that a batch goes by it.  From then on it is a
  matter of lists: the cancellations are exactly what `reported` leaves out, since a setup that is
  compiled alone never reports one (`Alone.isCancelled`).

  An emitter is a function here, although one may keep a state.  A run hands it the compositions of
  different setups only (`compositions_ascending`), so within one run what it answers may well
  depend on what it was handed before.  The calls are on record in the order in which they are made,
  the refused one included.
-/

namespace ObjectGraph

/-! ## Directories -/

namespace NameMap

theorem mem_entries_iff {α : Type} {m : NameMap α} {name : String} {a : α} :
    (name, a) ∈ m.entries ↔ m.get? name = some a := by
  rw [get?, List.lookup_eq_some_iff]
  constructor
  · intro mem
    obtain ⟨before, after, split⟩ := List.append_of_mem mem
    refine ⟨before, after, split, fun e e_mem => ?_⟩
    have ascending := m.ascending
    rw [Ascending, split, List.pairwise_append] at ascending
    have less := ascending.2.2 e e_mem _ List.mem_cons_self
    simpa using (String.ne_of_lt less).symm
  · rintro ⟨before, after, split, -⟩
    rw [split]
    exact List.mem_append_right _ List.mem_cons_self

end NameMap

namespace SetupDirectory

variable {d d' : SetupDirectory} {setups : List Setup} {s : Setup} {name : String}

theorem get?_register (registered : d.register s = .ok d') (name : String) (s' : Setup) :
    d'.get? name = some s' ↔ d.get? name = some s' ∨ s' = s ∧ s.name = name := by
  unfold register at registered
  split at registered
  · cases registered
  · rename_i free
    cases registered
    by_cases same : name = s.name
    · subst same
      have none : d.get? s.name = none := by simpa [NameMap.contains] using free
      rw [NameMap.get?_insert_self, none]
      simp [eq_comm]
    · rw [NameMap.get?_insert_of_ne _ _ same]
      simp [Ne.symm same]

theorem get?_foldlM_register (setups : List Setup) :
    ∀ {d}, setups.foldlM register d = .ok d' → ∀ name s,
      d'.get? name = some s ↔ d.get? name = some s ∨ s ∈ setups ∧ s.name = name := by
  induction setups with
  | nil =>
    intro d filled name s
    cases filled
    simp
  | cons first rest ih =>
    intro d filled name s
    rw [List.foldlM_cons] at filled
    cases registered : d.register first with
    | error => rw [registered] at filled; cases filled
    | ok d₁ =>
      rw [registered] at filled
      rw [ih filled name s, get?_register registered, List.mem_cons]
      constructor
      · rintro ((held | ⟨rfl, named⟩) | ⟨mem, named⟩)
        · exact .inl held
        · exact .inr ⟨.inl rfl, named⟩
        · exact .inr ⟨.inr mem, named⟩
      · rintro (held | ⟨rfl | mem, named⟩)
        · exact .inl (.inl held)
        · exact .inl (.inr ⟨rfl, named⟩)
        · exact .inr ⟨mem, named⟩

/-- The entries of a directory are the setups that it was filled with, by their names. -/
theorem mem_entries_ofSetups (filled : ofSetups setups = .ok d) :
    (name, s) ∈ d.entries ↔ s ∈ setups ∧ s.name = name := by
  rw [NameMap.mem_entries_iff, get?_foldlM_register setups filled]
  exact or_iff_right (nomatch ·)

theorem mem_compositions_iff (filled : ofSetups setups = .ok d) :
    s ∈ d.compositions ↔ s ∈ setups ∧ s.isGlobal = false := by
  simp only [compositions, NameMap.values, List.mem_filter, List.mem_map, Prod.exists,
    exists_eq_right, mem_entries_ofSetups filled, Bool.not_eq_true']
  exact ⟨fun ⟨⟨_, mem, _⟩, kind⟩ => ⟨mem, kind⟩, fun ⟨mem, kind⟩ => ⟨⟨_, mem, rfl⟩, kind⟩⟩

/-- Compositions come in the order of their names, each name once. -/
theorem compositions_ascending (filled : ofSetups setups = .ok d) :
    (d.compositions.map (·.name)).Pairwise (· < ·) := by
  have names : d.values.map (·.name) = d.entries.map (·.1) := by
    rw [NameMap.values, List.map_map]
    refine List.map_congr_left fun e mem => ?_
    exact ((mem_entries_ofSetups filled).mp mem).2
  have ascending : (d.values.map (·.name)).Pairwise (· < ·) := by
    rw [names]
    exact List.pairwise_map.mpr d.ascending
  exact ascending.sublist (List.filter_sublist.map _)

end SetupDirectory

namespace Batch

variable {c : Compiler} {turns : Nat} {failFast : Bool} {s : Setup} {setups : List Setup}
  {results : List (Except Failure Composition)} {x : Composition} {f : Failure}

/-! ## Compiling -/

/-- What comes of a setup that is compiled by itself. -/
def Alone (c : Compiler) (turns : Nat) (s : Setup) (result : Except Failure Composition) : Prop :=
  ∃ report, c.compile turns .never s = some report ∧ report.result = result

/-- The failures of the setups that fail when they are compiled by themselves. -/
def failedAlone (c : Compiler) (turns : Nat) (setups : List Setup) : List Failure :=
  setups.filterMap fun s => (c.compile turns .never s).bind fun report =>
    match report.result with
    | .ok _ => none
    | .error f => some f

/-- Who is not interrupted reports no cancellation. -/
theorem Alone.isCancelled (alone : Alone c turns s (.error f)) : f.isCancelled = false := by
  obtain ⟨report, ended, failed⟩ := alone
  rw [Failure.isCancelled, List.any_eq_false]
  intro fault mem
  have stage := Compiler.stage_of_compile ended failed fault mem
  cases fault <;> simp [Fault.kind, Fault.stage] at stage ⊢

theorem failedAlone_cons_ok (alone : Alone c turns s (.ok x)) :
    failedAlone c turns (s :: setups) = failedAlone c turns setups := by
  obtain ⟨report, ended, ok⟩ := alone
  rw [failedAlone, List.filterMap_cons, ended, Option.bind_some, ok]
  rfl

theorem failedAlone_cons_error (alone : Alone c turns s (.error f)) :
    failedAlone c turns (s :: setups) = f :: failedAlone c turns setups := by
  obtain ⟨report, ended, failed⟩ := alone
  rw [failedAlone, List.filterMap_cons, ended, Option.bind_some, failed]
  rfl

/-- What comes of a setup in a session that was cancelled. -/
def cancelledOf (s : Setup) : Failure := ⟨s.name, [.cancelled s.name]⟩

/-- What comes of the setups of a batch. -/
inductive Tries (c : Compiler) (turns : Nat) (failFast : Bool) :
    List Setup → List (Except Failure Composition) → Prop where
  | done : Tries c turns failFast [] []
  /-- A setup is compiled as if it were by itself. -/
  | ok {s : Setup} {setups : List Setup} {x : Composition}
      {results : List (Except Failure Composition)} (alone : Alone c turns s (.ok x))
      (rest : Tries c turns failFast setups results) :
      Tries c turns failFast (s :: setups) (.ok x :: results)
  /-- A failure does not keep others from being compiled. -/
  | fail {s : Setup} {setups : List Setup} {f : Failure}
      {results : List (Except Failure Composition)} (alone : Alone c turns s (.error f))
      (slow : failFast = false) (rest : Tries c turns failFast setups results) :
      Tries c turns failFast (s :: setups) (.error f :: results)
  /-- A failure cancels all that follows. -/
  | stop {s : Setup} {f : Failure} (alone : Alone c turns s (.error f)) (fast : failFast = true)
      (setups : List Setup) :
      Tries c turns failFast (s :: setups) (.error f :: setups.map fun s => .error (cancelledOf s))

/-- The session after a compilation: cancelled if that failed, and no failure is put up with. -/
def after (c : Compiler) (failFast : Bool) (result : Except Failure Composition) : Session :=
  { compiler := c, isCancelled := failFast && result.isOk = false }

/-- In a session that was not cancelled, a setup is compiled as if it were by itself. -/
theorem compileOne_eq (c : Compiler) (turns : Nat) (failFast : Bool) (s : Setup) :
    (compileOne turns failFast { compiler := c } s).map (fun p => (p.1.result, p.2)) =
      (c.compile turns .never s).map fun report =>
        (report.result, after c failFast report.result) := by
  have called : Session.compile { compiler := c } turns false s =
      (c.compile turns .never s).map fun report => (report, { compiler := c }) := by
    cases ended : c.compile turns .never s <;> simp [Session.compile, ended]
  rw [compileOne, called]
  cases ended : c.compile turns .never s with
  | none => rfl
  | some report =>
    cases result : report.result with
    | ok x => simp [result, after, Except.isOk, Except.toBool]
    | error f =>
      have own : f.isCancelled = false := Alone.isCancelled ⟨report, ended, result⟩
      cases failFast <;> simp [result, own, after, Session.cancel, Except.isOk, Except.toBool]

/-- The results of a batch. -/
def results? (turns : Nat) (failFast : Bool) (session : Session) (setups : List Setup) :
    Option (List (Except Failure Composition)) :=
  (compileAll turns failFast session setups).map (·.map (·.result))

/-- The first setup is compiled as if it were by itself, and the others after it. -/
theorem results?_cons (c : Compiler) (turns : Nat) (failFast : Bool) (s : Setup)
    (setups : List Setup) : results? turns failFast { compiler := c } (s :: setups) =
      (c.compile turns .never s).bind fun report =>
        (results? turns failFast (after c failFast report.result) setups).map (report.result :: ·) := by
  have one := compileOne_eq c turns failFast s
  rw [results?, compileAll]
  cases called : compileOne turns failFast { compiler := c } s with
  | none =>
    rw [called] at one
    rw [Option.map_eq_none_iff.mp one.symm]
    rfl
  | some p =>
    rw [called] at one
    obtain ⟨report, ended, same⟩ := Option.map_eq_some_iff.mp one.symm
    obtain ⟨result, session⟩ := Prod.mk.inj same
    rw [ended, Option.bind_some, session, result, results?]
    cases rest : compileAll turns failFast p.2 setups <;> simp [rest]

/-- In a session that was cancelled, nothing is compiled any more. -/
theorem results?_cancelled (c : Compiler) (turns : Nat) (failFast : Bool) (setups : List Setup) :
    results? turns failFast { compiler := c, isCancelled := true } setups =
      some (setups.map fun s => .error (cancelledOf s)) := by
  induction setups with
  | nil => rfl
  | cons s setups ih =>
    have called : compileOne turns failFast { compiler := c, isCancelled := true } s =
        some (⟨.error (cancelledOf s), Journal.debug s!"Compiling {s.name}."⟩,
          { compiler := c, isCancelled := true }) := by
      simp [compileOne, Session.compile, Compiler.compile_before, cancelledOf, Failure.isCancelled,
        Fault.kind]
    obtain ⟨reports, others, results⟩ := Option.map_eq_some_iff.mp ih
    rw [results?, compileAll, called]
    simp [others, results]

theorem after_ok (c : Compiler) (failFast : Bool) (x : Composition) :
    after c failFast (.ok x) = { compiler := c } := by
  simp [after, Except.isOk, Except.toBool]

theorem after_error (c : Compiler) (failFast : Bool) (f : Failure) :
    after c failFast (.error f) = { compiler := c, isCancelled := failFast } := by
  simp [after, Except.isOk, Except.toBool]

/-- A batch stops at a failure that it does not put up with, or goes on as it began. -/
theorem after_cases (c : Compiler) (failFast : Bool) (result : Except Failure Composition) :
    (failFast = true ∧ ∃ f, result = .error f) ∨
      after c failFast result = { compiler := c } ∧ (failFast = true → ∃ x, result = .ok x) := by
  cases result with
  | ok x => exact .inr ⟨after_ok c failFast x, fun _ => ⟨x, rfl⟩⟩
  | error f =>
    cases failFast with
    | true => exact .inl ⟨rfl, f, rfl⟩
    | false => exact .inr ⟨after_error c false f, nofun⟩

/-- A batch goes by the rules, as far as it comes to an end. -/
theorem tries_of_results? (ended : results? turns failFast { compiler := c } setups = some results) :
    Tries c turns failFast setups results := by
  induction setups generalizing results with
  | nil => cases ended; exact .done
  | cons s setups ih =>
    rw [results?_cons] at ended
    obtain ⟨report, compiled, ended⟩ := Option.bind_eq_some_iff.mp ended
    obtain ⟨others, rest, rfl⟩ := Option.map_eq_some_iff.mp ended
    cases result : report.result with
    | ok x =>
      rw [result, after_ok] at rest
      exact .ok ⟨report, compiled, result⟩ (ih rest)
    | error f =>
      rw [result, after_error] at rest
      cases failFast with
      | false => exact .fail ⟨report, compiled, result⟩ rfl (ih rest)
      | true =>
        rw [results?_cancelled] at rest
        cases rest
        exact .stop ⟨report, compiled, result⟩ rfl setups

/-- A batch comes to an end exactly if each compilation does that it gets to: with `failFast` those
    before which none fails, else all of them. -/
theorem results?_ends_iff (c : Compiler) (turns : Nat) (failFast : Bool) (setups : List Setup) :
    (results? turns failFast { compiler := c } setups).isSome = true ↔
      ∀ before s after, setups = before ++ s :: after →
        (failFast = true → ∀ s' ∈ before, ∃ x, Alone c turns s' (.ok x)) →
        (c.compile turns .never s).isSome = true := by
  induction setups with
  | nil => exact iff_of_true rfl fun before s after split => by simp at split
  | cons s setups ih =>
    rw [results?_cons]
    cases compiled : c.compile turns .never s with
    | none =>
      refine iff_of_false nofun fun all => ?_
      have ends := all [] s setups rfl fun _ => nofun
      rw [compiled] at ends
      cases ends
    | some report =>
      rw [Option.bind_some, Option.isSome_map]
      rcases after_cases c failFast report.result with ⟨rfl, f, failed⟩ | ⟨goes_on, succeeds⟩
      · rw [failed, after_error, results?_cancelled]
        refine iff_of_true rfl fun before s' after split going => ?_
        cases before with
        | nil =>
          obtain ⟨rfl, -⟩ := List.cons.inj split
          rw [compiled]
          rfl
        | cons first before =>
          -- the first setup fails, so the run does not get any further
          obtain ⟨rfl, -⟩ := List.cons.inj split
          obtain ⟨x, report', ended, ok⟩ := going rfl s List.mem_cons_self
          cases compiled.symm.trans ended
          cases failed.symm.trans ok
      · have passes : failFast = true → ∃ x, Alone c turns s (.ok x) := fun fast =>
          (succeeds fast).imp fun x ok => ⟨report, compiled, ok⟩
        rw [goes_on, ih]
        constructor
        · intro all before s' after split going
          cases before with
          | nil =>
            obtain ⟨rfl, -⟩ := List.cons.inj split
            rw [compiled]
            rfl
          | cons first before =>
            obtain ⟨rfl, rest⟩ := List.cons.inj split
            exact all before s' after rest fun fast s'' mem =>
              going fast s'' (List.mem_cons_of_mem s mem)
        · intro all before s' after split going
          refine all (s :: before) s' after (by rw [split]; rfl) fun fast s'' mem => ?_
          rcases List.mem_cons.mp mem with rfl | mem
          · exact passes fast
          · exact going fast s'' mem

/-! ## Failures -/

/-- What is left of the failures without the cancellations. -/
theorem Tries.filter_failures (tries : Tries c turns failFast setups results) :
    (failures results).filter (!·.isCancelled) =
      if failFast then (failedAlone c turns setups).take 1 else failedAlone c turns setups := by
  induction tries with
  | done => cases failFast <;> rfl
  | ok alone _ ih => rw [failedAlone_cons_ok alone]; exact ih
  | @fail s setups f results alone slow _ ih =>
    rw [failedAlone_cons_error alone]
    subst slow
    have head : (failures (.error f :: results)) = f :: failures results := rfl
    rw [head, List.filter_cons_of_pos (by simp [alone.isCancelled]), ih]
    rfl
  | @stop s f alone fast setups =>
    rw [failedAlone_cons_error alone]
    subst fast
    have cancelled : failures (setups.map fun s => .error (cancelledOf s)) =
        setups.map cancelledOf := by
      simp [failures, List.filterMap_map]
    have head : failures (.error f :: setups.map fun s => .error (cancelledOf s)) =
        f :: setups.map cancelledOf := by rw [← cancelled]; rfl
    rw [head, List.filter_cons_of_pos (by simp [alone.isCancelled])]
    simp [cancelledOf, Failure.isCancelled, Fault.kind]

/-- A batch that fails does so by a failure that is no cancellation. -/
theorem Tries.exists_failure (tries : Tries c turns failFast setups results)
    (failed : failures results ≠ []) : ∃ f ∈ failures results, f.isCancelled = false := by
  induction tries with
  | done => exact absurd rfl failed
  | ok _ _ ih => exact ih failed
  | fail alone _ _ _ | stop alone _ _ => exact ⟨_, List.mem_cons_self, alone.isCancelled⟩

/-- So cancellations are left out of what is reported. -/
theorem Tries.reported_eq (tries : Tries c turns failFast setups results)
    (failed : failures results ≠ []) : reported (failures results) =
      if failFast then (failedAlone c turns setups).take 1 else failedAlone c turns setups := by
  obtain ⟨f, mem, own⟩ := tries.exists_failure failed
  rw [reported, if_neg, tries.filter_failures]
  intro all
  rw [List.all_eq_true.mp all f mem] at own
  cases own

theorem Tries.compositions_eq (tries : Tries c turns failFast setups results)
    (none : failures results = []) :
    List.Forall₂ (fun s x => Alone c turns s (.ok x)) setups (compositions results) := by
  induction tries with
  | done => exact .nil
  | ok alone _ ih => exact .cons alone (ih none)
  | fail | stop => cases none

/-! ## Emitting -/

variable {xs : List Composition}

/-- The emitter is handed compositions in order, one after the other, up to one that it refuses, or all
    of them. -/
theorem emitAll_eq (emit : Emitter) (xs : List Composition) :
    ∃ rest, xs = (emitAll emit xs).emitted ++ rest ∧
      (∀ x ∈ (emitAll emit xs).emitted, emit x = .ok ()) ∧
      ((emitAll emit xs).refusal = none ∧ rest = [] ∧
          (emitAll emit xs).handed = (emitAll emit xs).emitted ∨
        ∃ x later reason, (emitAll emit xs).refusal = some reason ∧ rest = x :: later ∧
          emit x = .error reason ∧
          (emitAll emit xs).handed = (emitAll emit xs).emitted ++ [x]) := by
  induction xs with
  | nil => exact ⟨[], rfl, nofun, .inl ⟨rfl, rfl, rfl⟩⟩
  | cons x xs ih =>
    unfold emitAll
    cases answer : emit x with
    | error reason =>
      exact ⟨x :: xs, rfl, nofun, .inr ⟨x, xs, reason, rfl, rfl, answer, rfl⟩⟩
    | ok u =>
      obtain ⟨rest, split, taken, ended⟩ := ih
      refine ⟨rest, congrArg (x :: ·) split, List.forall_mem_cons.mpr ⟨answer, taken⟩, ?_⟩
      obtain ⟨none, whole, all⟩ | ⟨x', later, reason, refused, first, answer', calls⟩ := ended
      · exact .inl ⟨none, whole, congrArg (x :: ·) all⟩
      · exact .inr ⟨x', later, reason, refused, first, answer', congrArg (x :: ·) calls⟩

/-- Nothing depends on what the emitter would say of others than those that it is handed. -/
theorem emitAll_congr {emit emit' : Emitter} (xs : List Composition) :
    (∀ x ∈ (emitAll emit xs).handed, emit' x = emit x) → emitAll emit' xs = emitAll emit xs := by
  induction xs with
  | nil => exact fun _ => rfl
  | cons x xs ih =>
    intro same
    cases answer : emit x with
    | error reason =>
      rw [emitAll, answer] at same
      rw [emitAll, emitAll, same x List.mem_cons_self, answer]
    | ok u =>
      rw [emitAll, answer] at same
      rw [emitAll, emitAll, same x List.mem_cons_self, answer]
      rw [ih fun x' mem => same x' (List.mem_cons_of_mem x mem)]

/-! ## Running -/

/-- The compiler of a run. -/
def compiler (settings : Settings) (d : SetupDirectory) : Compiler :=
  { includesStandard := settings.includesStandard : Compiler }.addDirectory d

variable {settings : Settings} {d : SetupDirectory}

/-- A run comes to an end exactly if its compilations do, whatever the emitter. -/
theorem isSome_run (turns : Nat) (settings : Settings) (d : SetupDirectory) (emit : Emitter) :
    (run turns settings d emit).isSome =
      (results? turns settings.failFast { compiler := compiler settings d } d.compositions).isSome := by
  rw [results?, Option.isSome_map]
  show (Option.bind (compileAll turns settings.failFast { compiler := compiler settings d }
    d.compositions) _).isSome = _
  cases compileAll turns settings.failFast { compiler := compiler settings d } d.compositions with
  | none => rfl
  | some reports =>
    rw [Option.bind_some]
    dsimp only
    split <;> rfl

/-- What a run does once everything was compiled: it reports failures without asking the emitter, or
    emits what there is. -/
theorem run_of_results? (ended : results? turns settings.failFast
      { compiler := compiler settings d } d.compositions = some results) :
    (failures results ≠ [] → ∃ told, ∀ emit, run turns settings d emit =
        some ⟨.error (.compilation (reported (failures results))), [], [], told⟩) ∧
      (failures results = [] → ∃ told, ∀ emit, run turns settings d emit =
        some ⟨match (emitAll emit (compositions results)).refusal with
            | some reason => .error (.emitter reason)
            | none => .ok (),
          (emitAll emit (compositions results)).handed,
          (emitAll emit (compositions results)).emitted,
          told ++ (emitAll emit (compositions results)).journal⟩) := by
  obtain ⟨reports, compiled, rfl⟩ := Option.map_eq_some_iff.mp ended
  have run_eq (emit : Emitter) := show run turns settings d emit =
    Option.bind (compileAll turns settings.failFast { compiler := compiler settings d }
      d.compositions) _ from rfl
  rw [compiled] at run_eq
  set told := reports.foldl (fun j r => j ++ r.journal)
    (Journal.info s!"Compiling {d.compositions.length} setup(s)...")
  constructor
  · intro failed
    refine ⟨told, fun emit => ?_⟩
    rw [run_eq, Option.bind_some]
    dsimp only
    rw [if_pos (by simpa using failed)]
    rfl
  · intro none
    set ready := compositions (reports.map (·.result))
    refine ⟨told ++ Journal.info s!"Emitting {ready.length} composition(s)...", fun emit => ?_⟩
    rw [run_eq, Option.bind_some]
    dsimp only
    rw [if_neg (by simp [none])]
    rfl

/-- A run of a directory compiles its compositions in the order of their names.

    It comes to an end if the compilations do that it gets to.  If all setups compile, the emitter is
    handed the compositions in that order, up to the first that it refuses, that one included, and the
    run returns this refusal.  Else the emitter is not asked at all, and the run returns what the
    setups that fail report when they are compiled by themselves: of all such setups or, with
    `failFast`, of the first one.  A cancellation is never among them. -/
theorem run_emits_or_reports {setups : List Setup} {d : SetupDirectory}
    (filled : SetupDirectory.ofSetups setups = .ok d) (turns : Nat) (settings : Settings)
    (emit : Emitter) :
    (d.compositions.map (·.name)).Pairwise (· < ·) ∧
      (∀ s, s ∈ d.compositions ↔ s ∈ setups ∧ s.isGlobal = false) ∧
      ((run turns settings d emit).isSome = true ↔
        ∀ before s after, d.compositions = before ++ s :: after →
          (settings.failFast = true →
            ∀ s' ∈ before, ∃ x, Alone (compiler settings d) turns s' (.ok x)) →
          ((compiler settings d).compile turns .never s).isSome = true) ∧
      ∀ o, run turns settings d emit = some o →
        (∃ xs, List.Forall₂ (fun s x => Alone (compiler settings d) turns s (.ok x))
              d.compositions xs ∧
            (∃ rest, xs = o.emitted ++ rest ∧ (∀ x ∈ o.emitted, emit x = .ok ()) ∧
              (o.result = .ok () ∧ rest = [] ∧ o.handed = o.emitted ∨ ∃ x later reason,
                o.result = .error (.emitter reason) ∧ rest = x :: later ∧
                  emit x = .error reason ∧ o.handed = o.emitted ++ [x])) ∧
            ∀ emit', (∀ x ∈ o.handed, emit' x = emit x) → run turns settings d emit' = some o) ∨
          (∃ failed, failed ≠ [] ∧ o.result = .error (.compilation failed) ∧ o.handed = [] ∧
            o.emitted = [] ∧ (∀ emit', run turns settings d emit' = some o) ∧
            failed = (if settings.failFast
              then (failedAlone (compiler settings d) turns d.compositions).take 1
              else failedAlone (compiler settings d) turns d.compositions) ∧
            ∀ f ∈ failed, f.isCancelled = false) := by
  refine ⟨SetupDirectory.compositions_ascending filled,
    fun s => SetupDirectory.mem_compositions_iff filled, ?_, fun o ended => ?_⟩
  · rw [isSome_run]
    exact results?_ends_iff ..
  · have ends := isSome_run turns settings d emit
    rw [ended] at ends
    obtain ⟨results, compiled⟩ := Option.isSome_iff_exists.mp ends.symm
    have tries := tries_of_results? compiled
    obtain ⟨fails, emits⟩ := run_of_results? compiled
    by_cases none : failures results = []
    · obtain ⟨told, run_eq⟩ := emits none
      cases ended.symm.trans (run_eq emit)
      refine .inl ⟨compositions results, tries.compositions_eq none, ?_, fun emit' same => ?_⟩
      · obtain ⟨rest, split, taken, outcome⟩ := emitAll_eq emit (compositions results)
        refine ⟨rest, split, taken, outcome.imp ?_ ?_⟩
        · rintro ⟨accepted, whole, calls⟩
          rw [accepted]
          exact ⟨rfl, whole, calls⟩
        · rintro ⟨x, later, reason, refused, first, answer, calls⟩
          rw [refused]
          exact ⟨x, later, reason, rfl, first, answer, calls⟩
      · rw [run_eq emit', emitAll_congr _ same]
    · obtain ⟨told, run_eq⟩ := fails none
      cases ended.symm.trans (run_eq emit)
      have reports := tries.reported_eq none
      obtain ⟨f, mem, own⟩ := tries.exists_failure none
      have filtered : reported (failures results) =
          (failures results).filter (!·.isCancelled) := reports.trans tries.filter_failures.symm
      refine .inr ⟨_, ?_, rfl, rfl, rfl, run_eq, reports, fun f mem => ?_⟩
      · rw [filtered]
        exact List.ne_nil_of_mem (List.mem_filter.mpr ⟨mem, by rw [own]; rfl⟩)
      · rw [filtered] at mem
        simpa using (List.mem_filter.mp mem).2

end Batch

/-- Of these setups `B` can be compiled, `A` and `C` cannot, and `G` is part of all others. -/
def Sample.mixedBatch : List Setup := [
  { Sample.setup [] ["X"] with name := "C" },
  { Sample.setup [Sample.service "S" ["T"] .transient] ["S"] with name := "B" },
  { Sample.setup [Sample.service "T" [] .transient] [] with name := "G", kind := .global },
  { Sample.setup [] ["Y"] with name := "A" }]

/-- All of these setups can be compiled. -/
def Sample.soundBatch : List Setup := [
  { Sample.setup [Sample.service "S" [] .transient] ["S"] with name := "C" },
  { Sample.setup [Sample.service "S" [] .transient] ["S"] with name := "B" },
  { Sample.setup [Sample.service "S" [] .transient] ["S"] with name := "A" }]

namespace Batch

/-- An emitter that refuses what goes by the name `B`. -/
def picky : Emitter := fun x => if x.name = "B" then .error "full" else .ok ()

theorem exists_run {α : Type} {settings : Settings} {emit : Emitter} {f : Run → α} {a : α}
    (ran : ((SetupDirectory.ofSetups setups).toOption.bind fun d =>
      (run 20 settings d emit).map f) = some a) :
    ∃ d o, SetupDirectory.ofSetups setups = .ok d ∧ run 20 settings d emit = some o ∧ f o = a := by
  obtain ⟨d, filled, ran⟩ := Option.bind_eq_some_iff.mp ran
  obtain ⟨o, ended, result⟩ := Option.map_eq_some_iff.mp ran
  refine ⟨d, o, ?_, ended, result⟩
  cases made : SetupDirectory.ofSetups setups with
  | error => rw [made] at filled; cases filled
  | ok d' => rw [made] at filled; cases filled; rfl

/-- In one batch the first failure is the only one that is reported, and it keeps `B` from being
    emitted.  In the other one the emitter is handed `A` and `B`, of which it refuses the latter, and
    it is not asked about `C`. -/
theorem run_emits_or_reports_mixed :
    (∃ d o, SetupDirectory.ofSetups Sample.mixedBatch = .ok d ∧
      run 20 { includesStandard := false } d (fun _ => .ok ()) = some o ∧
      o.handed = [] ∧ o.emitted = [] ∧
      (∀ emit, run 20 { includesStandard := false } d emit = some o) ∧
      o.result = .error (.compilation
        [⟨"A", [.missingBinding ⟨.plain "Y", .untagged⟩ "the composition root Y" {}]⟩]) ∧
      (failedAlone (compiler { includesStandard := false } d) 20 d.compositions).take 1 =
        [⟨"A", [.missingBinding ⟨.plain "Y", .untagged⟩ "the composition root Y" {}]⟩]) ∧
    ∃ d o x, SetupDirectory.ofSetups Sample.soundBatch = .ok d ∧
      run 20 { includesStandard := false } d picky = some o ∧
      o.result = .error (.emitter "full") ∧ picky x = .error "full" ∧ o.handed = o.emitted ++ [x] ∧
      o.handed.map (·.name) = ["A", "B"] ∧
      ∀ emit, (∀ x ∈ o.handed, emit x = picky x) →
        run 20 { includesStandard := false } d emit = some o := by
  constructor
  · have ran : ((SetupDirectory.ofSetups Sample.mixedBatch).toOption.bind fun d =>
        (run 20 { includesStandard := false } d fun _ => .ok ()).map (·.result)) =
        some (.error (.compilation
          [⟨"A", [.missingBinding ⟨.plain "Y", .untagged⟩ "the composition root Y" {}]⟩])) := by
      decide +kernel
    obtain ⟨d, o, filled, ended, result⟩ := exists_run ran
    obtain ⟨-, -, -, outcome⟩ := run_emits_or_reports filled 20 { includesStandard := false }
      fun _ => .ok ()
    obtain ⟨xs, -, ⟨rest, -, -, ⟨ok, -⟩ | ⟨x, later, reason, refused, -⟩⟩, -⟩ |
      ⟨failed, -, reported, handed, emitted, whatever, alone, -⟩ := outcome o ended
    · rw [result] at ok
      cases ok
    · rw [result] at refused
      cases refused
    · cases result.symm.trans reported
      exact ⟨d, o, filled, ended, handed, emitted, whatever, reported, alone.symm⟩
  · have ran : ((SetupDirectory.ofSetups Sample.soundBatch).toOption.bind fun d =>
        (run 20 { includesStandard := false } d picky).map fun o =>
          (o.result, o.handed.map (·.name))) =
        some (.error (.emitter "full"), ["A", "B"]) := by
      decide +kernel
    obtain ⟨d, o, filled, ended, both⟩ := exists_run ran
    obtain ⟨result, names⟩ := Prod.mk.inj both
    obtain ⟨-, -, -, outcome⟩ := run_emits_or_reports filled 20 { includesStandard := false } picky
    obtain ⟨xs, -, ⟨rest, -, -, ⟨ok, -⟩ | ⟨x, later, reason, refused, -, answer, handed⟩⟩, others⟩ |
      ⟨failed, -, reported, -⟩ := outcome o ended
    · rw [result] at ok
      cases ok
    · cases result.symm.trans refused
      exact ⟨d, o, x, filled, ended, refused, answer, handed, names, others⟩
    · rw [result] at reported
      cases reported

end Batch

end ObjectGraph
