import ObjectGraph.Type.Oracle

/-
  Unification is sound: what it puts for the markers turns the pattern into the target.

  A substitution grows while the pattern is read from left to right, so the statement that goes
  through the recursion speaks of every later substitution: it already turns the part of the pattern
  read so far into the part of the target read so far (`extend_sound`).  Later means two things.
  Nothing that is bound changes (`Extends`), and nothing but markers is bound (`BindsMarkers`), so
  the plain names of the pattern stay what they are.
-/

namespace ObjectGraph

/-- Binds what another substitution binds, and possibly more. -/
def Substitution.Extends (s' s : Substitution) : Prop :=
  ∀ name t, s.get? name = some t → s'.get? name = some t

/-- Binds nothing but markers. -/
def Substitution.BindsMarkers (s : Substitution) (ts : TypeSystem) : Prop :=
  ∀ name t, s.get? name = some t → name ∈ ts.markers

theorem Substitution.Extends.refl (s : Substitution) : s.Extends s := fun _ _ bound => bound

theorem Substitution.Extends.trans {s s' s'' : Substitution} (first : s'.Extends s)
    (second : s''.Extends s') : s''.Extends s :=
  fun name t bound => second name t (first name t bound)

/-- A name that was not bound before can be bound. -/
theorem Substitution.extends_insert {s : Substitution} {name : String} (free : s.get? name = none)
    (t : TypeTerm) : Substitution.Extends (s.insert name t) s := by
  intro other t' bound
  have ne : other ≠ name := by
    rintro rfl
    rw [free] at bound
    cases bound
  rw [NameMap.get?_insert_of_ne s t ne, bound]

namespace TypeSystem

variable {ts : TypeSystem}

theorem isMarker_iff {name : String} {args : List TypeTerm} :
    ts.isMarker ⟨name, args⟩ = true ↔ args = [] ∧ name ∈ ts.markers := by
  simp [isMarker]

/-- The substitution `s'` comes from `s` by reading something that every later substitution turns
    into what it should be. -/
def Reads (ts : TypeSystem) (s s' : Substitution) (turns : Substitution → Prop) : Prop :=
  s'.BindsMarkers ts ∧ s'.Extends s ∧
    ∀ later : Substitution, later.BindsMarkers ts → later.Extends s' → turns later

mutual

theorem extend_sound : ∀ {s s' : Substitution} (pattern target : TypeTerm), s.BindsMarkers ts →
    ts.extend s pattern target = some s' →
    ts.Reads s s' fun later => pattern.substitute later = target
  | s, s', ⟨name, args⟩, target, marks, found => by
    unfold extend at found
    split at found
    · rename_i marker
      obtain ⟨rfl, known⟩ := isMarker_iff.mp marker
      split at found
      · rename_i bound at_name
        split at found
        · rename_i same
          cases found
          refine ⟨marks, .refl s, fun later _ extends_s => ?_⟩
          simp [TypeTerm.substitute, extends_s name bound at_name, same]
        · cases found
      · rename_i free
        cases found
        refine ⟨fun other t bound => ?_, Substitution.extends_insert free target,
          fun later _ extends_s => ?_⟩
        · by_cases same : other = name
          · exact same ▸ known
          · rw [NameMap.get?_insert_of_ne s target same] at bound
            exact marks other t bound
        · simp [TypeTerm.substitute, extends_s name target (NameMap.get?_insert_self s name target)]
    · rename_i plain
      split at found
      · rename_i same
        obtain ⟨marks', extends_s, turns⟩ := extendArgs_sound args target.args marks found
        obtain ⟨name', args'⟩ := target
        refine ⟨marks', extends_s, fun later marks_later extends_s' => ?_⟩
        have args_eq := turns later marks_later extends_s'
        cases args with
        | nil =>
          -- a plain name that is no marker is not bound
          have free : later.get? name = none := by
            cases bound : later.get? name with
            | none => rfl
            | some t => exact absurd (isMarker_iff.mpr ⟨rfl, marks_later name t bound⟩) plain
          have none : [] = args' := args_eq
          show TypeTerm.substitute later ⟨name, []⟩ = ⟨name', args'⟩
          rw [TypeTerm.substitute, free, Option.getD_none, same, none]
        | cons a as =>
          have args_eq : a.substitute later :: TypeTerm.substituteArgs later as = args' := args_eq
          show TypeTerm.substitute later ⟨name, a :: as⟩ = ⟨name', args'⟩
          rw [TypeTerm.substitute, args_eq, same]
      · cases found

theorem extendArgs_sound : ∀ {s s' : Substitution} (patterns targets : List TypeTerm),
    s.BindsMarkers ts → ts.extendArgs s patterns targets = some s' →
    ts.Reads s s' fun later => TypeTerm.substituteArgs later patterns = targets
  | s, s', [], [], marks, found => by
    cases found
    exact ⟨marks, .refl s, fun _ _ _ => rfl⟩
  | s, s', p :: ps, t :: rest, marks, found => by
    obtain ⟨s₁, first, others⟩ := Option.bind_eq_some_iff.mp found
    obtain ⟨marks₁, extends_s, turns⟩ := extend_sound p t marks first
    obtain ⟨marks', extends_s₁, turns'⟩ := extendArgs_sound ps rest marks₁ others
    refine ⟨marks', extends_s.trans extends_s₁, fun later marks_later extends_s' => ?_⟩
    show p.substitute later :: TypeTerm.substituteArgs later ps = t :: rest
    rw [turns later marks_later (extends_s₁.trans extends_s'),
      turns' later marks_later extends_s']
  | _, _, [], _ :: _, _, found => nomatch found
  | _, _, _ :: _, [], _, found => nomatch found

end

/-- What unification finds turns the pattern into the target. -/
theorem unify_sound {pattern target : TypeTerm} {s : Substitution}
    (found : ts.unify pattern target = some s) : pattern.substitute s = target := by
  have none : Substitution.BindsMarkers ∅ ts := fun name t bound => nomatch bound
  obtain ⟨marks, -, turns⟩ := extend_sound pattern target none found
  exact turns s marks (.refl s)

end TypeSystem

mutual

/-- Nothing is replaced by a substitution that binds nothing. -/
@[simp] theorem TypeTerm.substitute_empty : ∀ t : TypeTerm, t.substitute ∅ = t
  | ⟨_, []⟩ => rfl
  | ⟨name, a :: as⟩ => by
    rw [substitute, substitute_empty a, substituteArgs_empty as]

@[simp] theorem TypeTerm.substituteArgs_empty : ∀ ts : List TypeTerm, substituteArgs ∅ ts = ts
  | [] => rfl
  | a :: as => by rw [substituteArgs, substitute_empty a, substituteArgs_empty as]

end

namespace TypeOracle

variable {ts : TypeOracle} {contract requested : TypeTerm} {s : Substitution}

/-- What the oracle puts for the markers of a type turns it into the other one. -/
def IsSound (ts : TypeOracle) : Prop :=
  ∀ (pattern target : TypeTerm) (s : Substitution),
    ts.unify pattern target = some s → pattern.substitute s = target

/-- Type systems answer as an oracle should. -/
theorem isSound_oracle (ts : TypeSystem) : ts.oracle.IsSound :=
  fun _ _ _ => TypeSystem.unify_sound

/-- A bound type that matches a request is the requested one, once its markers are replaced if it
    has any. -/
theorem matchContract_sound (sound : ts.IsSound)
    (found : ts.matchContract contract requested = some s) :
    (if ts.isOpen contract then contract.substitute s else contract) = requested := by
  unfold matchContract at found
  split at found
  · rename_i same
    cases found
    rw [TypeTerm.substitute_empty, ite_self, same]
  · split at found
    · rename_i generic
      rw [if_pos generic]
      exact sound _ _ _ found
    · cases found

/-- A bound type matches if it is the requested one, or is open and unifies with it. -/
theorem isSome_matchContract_iff : (ts.matchContract contract requested).isSome = true ↔
    contract = requested ∨
      ts.isOpen contract = true ∧ (ts.unify contract requested).isSome = true := by
  unfold matchContract
  split
  · rename_i same
    exact iff_of_true rfl (.inl same)
  · rename_i ne
    rw [or_iff_right ne]
    split
    · rename_i isOpen
      exact (and_iff_right isOpen).symm
    · rename_i closed
      exact iff_of_false (by simp) fun unifies => closed unifies.1

end TypeOracle

end ObjectGraph
