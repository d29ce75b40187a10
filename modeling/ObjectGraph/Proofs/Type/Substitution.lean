import ObjectGraph.Proofs.Type.Unification
import ObjectGraph.Recipe

/-
  What is left open by a substitution.

  A term is open after a substitution exactly if it mentions a name for which an open type is put,
  or an unbound marker that stays what it is (`isOpen_substitute_iff`).  This is read in both
  directions.  What unification finds turns the pattern into the target; so if the target is closed,
  all that was put for the names of the pattern is closed.  And then every term becomes closed whose
  markers occur in the pattern (`unify_closes`).

  The last section lifts the substitution that puts nothing to members, classes and recipes.
-/

namespace ObjectGraph

namespace TypeTerm

/-- Tells if a plain name occurs in the term. -/
def mentions (name : String) (t : TypeTerm) : Bool := t.any (· == plain name)

theorem mentions_plain {name name' : String} : (plain name').mentions name = true ↔ name' = name := by
  simp [mentions, plain, any, anyArgs]

/-- An applied name is not plain, so only the arguments count. -/
theorem mentions_applied {name head : String} {a : TypeTerm} {as : List TypeTerm} :
    mentions name ⟨head, a :: as⟩ = true ↔
      a.mentions name = true ∨ anyArgs (· == plain name) as = true := by
  simp [mentions, plain, any, anyArgs]

end TypeTerm

namespace TypeSystem

variable {ts : TypeSystem} {s : Substitution}

/-- Of the types without arguments the markers are open. -/
theorem isOpen_plain {name : String} : ts.isOpen (.plain name) = true ↔ name ∈ ts.markers := by
  simp [isOpen, isMarker, TypeTerm.plain, TypeTerm.any, TypeTerm.anyArgs]

/-- An applied name is no marker. -/
theorem isOpen_applied {head : String} {a : TypeTerm} {as : List TypeTerm} :
    ts.isOpen ⟨head, a :: as⟩ = true ↔
      ts.isOpen a = true ∨ TypeTerm.anyArgs ts.isMarker as = true := by
  simp [isOpen, isMarker, TypeTerm.any, TypeTerm.anyArgs]

/-- The substitution puts something open for a name, or leaves a marker as it is. -/
def PutsOpen (ts : TypeSystem) (s : Substitution) (name : String) : Prop :=
  ts.isOpen ((s.get? name).getD (.plain name)) = true

mutual

/-- A term is open after a substitution exactly if something open is put for one of its names. -/
theorem isOpen_substitute_iff : ∀ t : TypeTerm,
    ts.isOpen (t.substitute s) = true ↔ ∃ name, t.mentions name = true ∧ ts.PutsOpen s name
  | ⟨name, []⟩ => by
    constructor
    · exact fun isOpen => ⟨name, TypeTerm.mentions_plain.mpr rfl, isOpen⟩
    · rintro ⟨name', mentioned, isOpen⟩
      cases TypeTerm.mentions_plain.mp mentioned
      exact isOpen
  | ⟨head, a :: as⟩ => by
    rw [TypeTerm.substitute, isOpen_applied, isOpen_substitute_iff a, anyArgs_substitute_iff as]
    simp only [TypeTerm.mentions_applied, or_and_right, exists_or]

/-- The same for a list of arguments. -/
theorem anyArgs_substitute_iff : ∀ as : List TypeTerm,
    TypeTerm.anyArgs ts.isMarker (TypeTerm.substituteArgs s as) = true ↔
      ∃ name, TypeTerm.anyArgs (· == TypeTerm.plain name) as = true ∧ ts.PutsOpen s name
  | [] => by simp [TypeTerm.substituteArgs, TypeTerm.anyArgs]
  | a :: as => by
    have first := isOpen_substitute_iff a
    have rest := anyArgs_substitute_iff as
    simp only [isOpen, TypeTerm.mentions] at first
    simp only [TypeTerm.substituteArgs, TypeTerm.anyArgs, Bool.or_eq_true, first, rest,
      or_and_right, exists_or]

end

/-- Every marker that the term mentions is mentioned by the pattern. -/
def Covers (ts : TypeSystem) (pattern t : TypeTerm) : Prop :=
  ∀ name ∈ ts.markers, t.mentions name = true → pattern.mentions name = true

instance (ts : TypeSystem) (pattern t : TypeTerm) : Decidable (ts.Covers pattern t) :=
  inferInstanceAs <| Decidable <|
    ∀ name ∈ ts.markers, t.mentions name = true → pattern.mentions name = true

/-- Unification puts types for markers only. -/
theorem bindsMarkers_of_unify {pattern target : TypeTerm} (found : ts.unify pattern target = some s) :
    s.BindsMarkers ts := by
  have none : Substitution.BindsMarkers ∅ ts := fun name t bound => nomatch bound
  exact (extend_sound pattern target none found).1

/-- When a pattern becomes a closed type, so does every term whose markers it mentions. -/
theorem unify_closes {pattern target : TypeTerm} (found : ts.unify pattern target = some s)
    (closed : ts.isOpen target = false) {t : TypeTerm} (covers : ts.Covers pattern t) :
    ts.isOpen (t.substitute s) = false := by
  rw [← unify_sound found] at closed
  apply Bool.eq_false_iff.mpr
  intro isOpen
  obtain ⟨name, mentioned, puts⟩ := (isOpen_substitute_iff t).mp isOpen
  have outside : pattern.mentions name ≠ true := fun inside =>
    absurd ((isOpen_substitute_iff pattern).mpr ⟨name, inside, puts⟩) (by rw [closed]; nofun)
  -- a name that the pattern does not mention is no marker, so it is not bound and not open
  have plain : name ∉ ts.markers := fun marker => outside (covers name marker mentioned)
  have free : s.get? name = none := by
    cases bound : s.get? name with
    | none => rfl
    | some u => exact absurd (bindsMarkers_of_unify found name u bound) plain
  rw [PutsOpen, free] at puts
  exact plain (isOpen_plain.mp puts)

end TypeSystem

/-! ## The substitution that puts nothing -/

@[simp] theorem Request.substitute_empty (q : Request) : q.substitute ∅ = q := by
  simp [Request.substitute]

@[simp] theorem Parameter.substitute_empty (p : Parameter) : p.substitute ∅ = p := by
  simp [Parameter.substitute]

@[simp] theorem Method.substitute_empty (m : Method) : m.substitute ∅ = m := by
  simp [Method.substitute]

@[simp] theorem Field.substitute_empty (f : Field) : f.substitute ∅ = f := by
  simp [Field.substitute]

@[simp] theorem Property.substitute_empty (p : Property) : p.substitute ∅ = p := by
  simp [Property.substitute]

@[simp] theorem Class.substitute_empty (c : Class) : c.substitute ∅ = c := by
  simp [Class.substitute]

@[simp] theorem Factory.substitute_empty (f : Factory) : f.substitute ∅ = f := by
  simp [Factory.substitute]

/-- A recipe is its own instance when nothing is put for its markers. -/
@[simp] theorem Recipe.substitute_empty (r : Recipe) : r.substitute ∅ = r := by
  cases r <;> simp [Recipe.substitute]

end ObjectGraph
