import ObjectGraph.Proofs.Type.Substitution

/-
  Unification finds the most general substitution.

  A substitution of markers that turns the pattern into the target may leave a marker unbound, which
  then stands for itself.  So two substitutions are compared by what they put for a name
  (`Substitution.put`) and not by what they bind.  Whatever turns the pattern into the target puts the
  same as what has been bound so far (`Honours`); that carries the recursion through, and since a
  marker is never bound to anything else than what stands at its place, it never fails
  (`extend_complete`).  Which names are bound in the end is told by the pattern alone
  (`extend_binds`).
-/

namespace ObjectGraph

/-- What a substitution puts for a plain name: a name that is not bound stands for itself. -/
def Substitution.put (s : Substitution) (name : String) : TypeTerm :=
  (s.get? name).getD (.plain name)

/-- Puts for each name what another substitution binds it to. -/
def Substitution.Honours (σ s : Substitution) : Prop :=
  ∀ name t, s.get? name = some t → σ.put name = t

variable {ts : TypeSystem} {σ s s' : Substitution}

theorem Substitution.put_of_get? {name : String} {t : TypeTerm} (bound : s.get? name = some t) :
    s.put name = t := by
  rw [put, bound, Option.getD_some]

theorem Substitution.put_of_notMem (marks : σ.BindsMarkers ts) {name : String}
    (plain : name ∉ ts.markers) : σ.put name = .plain name := by
  cases bound : σ.get? name with
  | none => rw [put, bound, Option.getD_none]
  | some t => exact absurd (marks name t bound) plain

/-- To put what the unifier puts is in its honour. -/
theorem Substitution.Honours.insert (honours : σ.Honours s) (name : String) :
    σ.Honours (s.insert name (σ.put name)) := by
  intro other t bound
  by_cases same : other = name
  · rw [same, NameMap.get?_insert_self] at bound
    rw [same]
    exact Option.some.inj bound
  · rw [NameMap.get?_insert_of_ne s _ same] at bound
    exact honours other t bound

theorem NameMap.contains_insert {α : Type} {m : NameMap α} {name other : String} {value : α} :
    (m.insert name value).contains other = true ↔ m.contains other = true ∨ other = name := by
  by_cases same : other = name
  · simp [same, NameMap.contains]
  · simp [same, NameMap.contains, NameMap.get?_insert_of_ne m value same]

namespace TypeTerm

theorem substitute_plain (name : String) : substitute σ ⟨name, []⟩ = σ.put name := rfl

end TypeTerm

namespace TypeSystem

/-! ## Completeness -/

mutual

/-- A pattern is matched with whatever a substitution of markers turns it into. -/
theorem extend_complete (marks : σ.BindsMarkers ts) : ∀ {s : Substitution} (pattern : TypeTerm),
    σ.Honours s → ∃ s', ts.extend s pattern (pattern.substitute σ) = some s' ∧ σ.Honours s'
  | s, ⟨name, []⟩, honours => by
    rw [TypeTerm.substitute_plain, extend]
    split
    · cases bound : s.get? name with
      | none => exact ⟨_, rfl, honours.insert name⟩
      | some t => exact ⟨s, by simp [honours name t bound], honours⟩
    · rename_i plain
      have plain : name ∉ ts.markers := fun known => plain (isMarker_iff.mpr ⟨rfl, known⟩)
      rw [Substitution.put_of_notMem marks plain]
      exact ⟨s, if_pos rfl, honours⟩
  | s, ⟨head, a :: as⟩, honours => by
    obtain ⟨s', found, honours'⟩ := extendArgs_complete marks (a :: as) honours
    have applied : ts.isMarker ⟨head, a :: as⟩ ≠ true := fun marker =>
      nomatch (isMarker_iff.mp marker).1
    refine ⟨s', ?_, honours'⟩
    rw [TypeTerm.substitute, extend, if_neg applied, if_pos rfl]
    exact found

/-- The same for two lists of arguments. -/
theorem extendArgs_complete (marks : σ.BindsMarkers ts) :
    ∀ {s : Substitution} (patterns : List TypeTerm), σ.Honours s →
      ∃ s', ts.extendArgs s patterns (TypeTerm.substituteArgs σ patterns) = some s' ∧ σ.Honours s'
  | s, [], honours => ⟨s, rfl, honours⟩
  | s, p :: ps, honours => by
    obtain ⟨s₁, first, honours₁⟩ := extend_complete marks p honours
    obtain ⟨s', others, honours'⟩ := extendArgs_complete marks ps honours₁
    refine ⟨s', ?_, honours'⟩
    rw [TypeTerm.substituteArgs, extendArgs, first]
    exact others

end

/-! ## The names that are bound -/

mutual

/-- The names bound anew are the markers of the pattern. -/
theorem extend_binds : ∀ {s s' : Substitution} (pattern target : TypeTerm),
    ts.extend s pattern target = some s' → ∀ name, s'.contains name = true ↔
      s.contains name = true ∨ name ∈ ts.markers ∧ pattern.mentions name = true
  | s, s', ⟨head, []⟩, target, found, name => by
    have occurs : TypeTerm.mentions name ⟨head, []⟩ = true ↔ head = name := TypeTerm.mentions_plain
    rw [occurs]
    unfold extend at found
    split at found
    · rename_i marker
      have known := (isMarker_iff.mp marker).2
      split at found
      · rename_i t bound
        split at found
        · cases found
          -- the marker was bound before
          have before : s.contains head = true := by rw [NameMap.contains, bound]; rfl
          exact ⟨.inl, fun either => either.elim id fun this => this.2 ▸ before⟩
        · cases found
      · cases found
        rw [NameMap.contains_insert]
        exact or_congr_right ⟨fun same => ⟨same ▸ known, same.symm⟩, fun this => this.2.symm⟩
    · rename_i plain
      have plain : head ∉ ts.markers := fun known => plain (isMarker_iff.mpr ⟨rfl, known⟩)
      split at found
      · cases args : target.args with
        | nil =>
          rw [args] at found
          cases found
          exact ⟨.inl, fun either => either.elim id fun this => (plain (this.2 ▸ this.1)).elim⟩
        | cons a as =>
          rw [args] at found
          cases found
      · cases found
  | s, s', ⟨head, a :: as⟩, target, found, name => by
    have applied : ts.isMarker ⟨head, a :: as⟩ ≠ true := fun marker =>
      nomatch (isMarker_iff.mp marker).1
    rw [extend, if_neg applied] at found
    split at found
    · rw [TypeTerm.mentions_applied, extendArgs_binds (a :: as) target.args found]
      simp only [TypeTerm.anyArgs, Bool.or_eq_true, TypeTerm.mentions]
    · cases found

theorem extendArgs_binds : ∀ {s s' : Substitution} (patterns targets : List TypeTerm),
    ts.extendArgs s patterns targets = some s' → ∀ name, s'.contains name = true ↔
      s.contains name = true ∨
        name ∈ ts.markers ∧ TypeTerm.anyArgs (· == .plain name) patterns = true
  | s, s', [], [], found, name => by
    cases found
    simp [TypeTerm.anyArgs]
  | s, s', p :: ps, t :: rest, found, name => by
    obtain ⟨s₁, first, others⟩ := Option.bind_eq_some_iff.mp found
    rw [extendArgs_binds ps rest others, extend_binds p t first, TypeTerm.mentions,
      TypeTerm.anyArgs, Bool.or_eq_true, and_or_left, or_assoc]
  | _, _, [], _ :: _, found, _ => nomatch found
  | _, _, _ :: _, [], found, _ => nomatch found

end

/-! ## Unification -/

/-- Nothing has been put at first. -/
theorem honours_empty (σ : Substitution) : σ.Honours ∅ := fun _ _ bound => nomatch bound

/-- Whatever turns the pattern into the target puts what unification finds. -/
theorem exists_unify_of_substitute (marks : σ.BindsMarkers ts) (pattern : TypeTerm) :
    ∃ s, ts.unify pattern (pattern.substitute σ) = some s ∧ σ.Honours s :=
  extend_complete marks pattern (honours_empty σ)

/-- Unification succeeds exactly if some substitution of markers turns the pattern into the target.
    What it finds is such a substitution, binds the markers of the pattern and no other name, and puts
    for them what every such substitution puts. -/
theorem unify_mostGeneral (ts : TypeSystem) (pattern target : TypeTerm) :
    ((ts.unify pattern target).isSome = true ↔
      ∃ σ : Substitution, σ.BindsMarkers ts ∧ pattern.substitute σ = target) ∧
    ∀ s, ts.unify pattern target = some s →
      (∀ name, s.contains name = true ↔ name ∈ ts.markers ∧ pattern.mentions name = true) ∧
      pattern.substitute s = target ∧
      ∀ σ : Substitution, σ.BindsMarkers ts → pattern.substitute σ = target →
        ∀ name ∈ ts.markers, pattern.mentions name = true → σ.put name = s.put name := by
  refine ⟨⟨fun some => ?_, ?_⟩, fun s found => ?_⟩
  · obtain ⟨s, found⟩ := Option.isSome_iff_exists.mp some
    exact ⟨s, bindsMarkers_of_unify found, unify_sound found⟩
  · rintro ⟨σ, marks, rfl⟩
    obtain ⟨s, found, -⟩ := exists_unify_of_substitute marks pattern
    rw [found]
    rfl
  · have binds (name : String) :
        s.contains name = true ↔ name ∈ ts.markers ∧ pattern.mentions name = true := by
      rw [extend_binds pattern target found]
      exact or_iff_right nofun
    refine ⟨binds, unify_sound found, ?_⟩
    rintro σ marks rfl name known mentioned
    obtain ⟨s₁, found₁, honours⟩ := exists_unify_of_substitute marks pattern
    cases found.symm.trans found₁
    obtain ⟨t, bound⟩ := Option.isSome_iff_exists.mp ((binds name).mpr ⟨known, mentioned⟩)
    rw [honours name t bound, Substitution.put_of_get? bound]

/-- `TT` occurs twice in the pattern, and both markers stand in the target as well.  A substitution
    that leaves `TT1` unbound puts the same as the one that is found. -/
theorem unify_mostGeneral_repeated :
    let pattern : TypeTerm := ⟨"Map", [.plain "TT", ⟨"List", [.plain "TT1"]⟩, .plain "TT"]⟩
    let target : TypeTerm := ⟨"Map", [.plain "TT1", ⟨"List", [.plain "TT1"]⟩, .plain "TT1"]⟩
    let σ : Substitution := NameMap.insert ∅ "TT" (.plain "TT1")
    ∃ s, standard.unify pattern target = some s ∧ σ.BindsMarkers standard ∧
      pattern.substitute σ = target ∧ σ.get? "TT1" = none ∧
      σ.put "TT" = s.put "TT" ∧ σ.put "TT1" = s.put "TT1" := by
  intro pattern target σ
  have marks : σ.BindsMarkers standard := by
    intro name t bound
    by_cases same : name = "TT"
    · exact same ▸ by decide
    · rw [NameMap.get?_insert_of_ne _ _ same] at bound
      cases bound
  have turns : pattern.substitute σ = target := by decide +kernel
  obtain ⟨succeeds, found⟩ := unify_mostGeneral standard pattern target
  obtain ⟨s, eq⟩ := Option.isSome_iff_exists.mp (succeeds.mpr ⟨σ, marks, turns⟩)
  have agree := (found s eq).2.2 σ marks turns
  exact ⟨s, eq, marks, turns, by decide +kernel, agree "TT" (by decide) (by decide +kernel),
    agree "TT1" (by decide) (by decide +kernel)⟩

end TypeSystem

end ObjectGraph
