import Mathlib.Data.List.Basic
import ObjectGraph.Binding.Table

/-
  What a storage key says about its bindings.

  A storage key is the place of an origin in a list that only grows at its end, so a key that was
  given out once names the same origin for ever (`keyOf_addOrigin`).  The source of an origin fixes
  what the walk through a graph has to know about an instance: its lifetime, and whether it comes
  from outside (`Setup.profile`).  The invariant `Keyed` ties the two together, and it holds of
  every table that registration, specialization and fallback handlers can give rise to.

  What is used later is `Keyed.profile_eq`: bindings that share a storage key share their profile.
-/

namespace ObjectGraph

/-- What the source of a binding fixes about its instances: the lifetime, and whether they come
    from outside.  Fallback requests are served by transient factories. -/
def Setup.profile (s : Setup) : Binding.Source → Lifetime × Bool
  | .declared index =>
    match s.declarations[index]? with
    | some d => (d.lifetime.getD .transient, d.recipe.isOutside)
    | none => (.transient, false)
  | .fallback _ => (.transient, false)

/-- The profile of a binding, read off the binding itself. -/
def Binding.profile (b : Binding) : Lifetime × Bool := (b.lifetime, b.recipe.isOutside)

/-- Substituting keeps the kind of a recipe. -/
@[simp] theorem Recipe.isOutside_substitute (s : Substitution) (r : Recipe) :
    (r.substitute s).isOutside = r.isOutside := by
  cases r <;> rfl

namespace BindingTable

/-! ## Keys stay what they are -/

/-- An origin that is added is there ... -/
theorem mem_addOrigin_self (origins : List Origin) (o : Origin) : o ∈ addOrigin origins o := by
  unfold addOrigin
  split
  · assumption
  · simp

/-- ... with those that were there before. -/
theorem mem_addOrigin_of_mem {origins : List Origin} {o : Origin} (known : o ∈ origins)
    (added : Origin) : o ∈ addOrigin origins added := by
  unfold addOrigin
  split
  · exact known
  · exact List.mem_append_left _ known

/-- A key that is given out stays the key of its origin. -/
theorem keyOf_addOrigin {origins : List Origin} {o : Origin} (known : o ∈ origins)
    (added : Origin) : keyOf (addOrigin origins added) o = keyOf origins o := by
  unfold addOrigin
  split
  · rfl
  · exact List.idxOf_append_of_mem known

/-- Known origins with one key are the same. -/
theorem origin_eq_of_keyOf_eq {origins : List Origin} {o o' : Origin} (known : o ∈ origins)
    (eq : keyOf origins o = keyOf origins o') : o = o' :=
  (List.idxOf_inj known).mp eq

/-! ## The invariant -/

/-- Each binding of the table has the key of a known origin, and the profile that the source of
    this origin has in the setup. -/
structure Keyed (s : Setup) (t : BindingTable) : Prop where
  origin : ∀ b ∈ t.bindings, ∃ o ∈ t.origins, b.key = keyOf t.origins o ∧ o.source = b.source
  profile : ∀ b ∈ t.bindings, b.profile = s.profile b.source

/-- Bindings that share a storage key share their profile. -/
theorem Keyed.profile_eq {s : Setup} {t : BindingTable} (keyed : t.Keyed s) {b b' : Binding}
    (mem : b ∈ t.bindings) (mem' : b' ∈ t.bindings) (key : b.key = b'.key) :
    b.profile = b'.profile := by
  obtain ⟨o, known, keyed_o, source⟩ := keyed.origin b mem
  obtain ⟨o', _, keyed_o', source'⟩ := keyed.origin b' mem'
  have same : o = o' := origin_eq_of_keyOf_eq known (by rw [← keyed_o, ← keyed_o', key])
  rw [keyed.profile b mem, keyed.profile b' mem', ← source, ← source', same]

/-- The invariant survives when bindings of one origin are added, each with the profile of its
    source.  All additions to a table are of this form. -/
theorem Keyed.add {s : Setup} {t t' : BindingTable} (keyed : t.Keyed s) (added : Origin)
    (origins : t'.origins = addOrigin t.origins added)
    (fresh : ∀ b ∈ t'.bindings, b ∈ t.bindings ∨
      b.key = keyOf t'.origins added ∧ b.source = added.source ∧ b.profile = s.profile b.source) :
    t'.Keyed s where
  origin b mem := by
    rcases fresh b mem with old | ⟨key, source, -⟩
    · obtain ⟨o, known, key, source⟩ := keyed.origin b old
      refine ⟨o, origins ▸ mem_addOrigin_of_mem known added, ?_, source⟩
      rw [origins, keyOf_addOrigin known, key]
    · exact ⟨added, origins ▸ mem_addOrigin_self t.origins added, key, source.symm⟩
  profile b mem := by
    rcases fresh b mem with old | ⟨-, -, profile⟩
    · exact keyed.profile b old
    · exact profile

theorem keyed_empty (s : Setup) : Keyed s {} := ⟨by simp [bindings], by simp [bindings]⟩

/-! ## Registration -/

/-- The bindings of a declaration carry its profile. -/
theorem Keyed.addDeclaration {s : Setup} {t : BindingTable} (keyed : t.Keyed s) {index : Nat}
    {d : Declaration} (declared : s.declarations[index]? = some d) :
    (t.addDeclaration index d).Keyed s := by
  simp only [BindingTable.addDeclaration]
  split
  · exact keyed
  · refine keyed.add ⟨.declared index, ∅⟩ rfl ?_
    intro b mem
    simp only [bindings, List.mem_append, List.mem_mapIdx] at mem
    rcases mem with (old | ⟨place, _, rfl⟩) | old
    · exact .inl (by simp [bindings, old])
    · exact .inr ⟨rfl, rfl, by simp [Binding.profile, Setup.profile, declared]⟩
    · exact .inl (by simp [bindings, old])

theorem Keyed.addDeclarations {s : Setup} (ds : List Declaration) :
    ∀ {t : BindingTable} {first : Nat}, t.Keyed s →
      (∀ i (h : i < ds.length), s.declarations[first + i]? = some ds[i]) →
      (t.addDeclarations first ds).Keyed s := by
  induction ds with
  | nil => intro t first keyed _; exact keyed
  | cons d ds ih =>
    intro t first keyed declared
    refine ih (keyed.addDeclaration (declared 0 (by simp))) ?_
    intro i h
    have := declared (i + 1) (by simpa using h)
    rwa [← Nat.add_assoc, Nat.add_right_comm] at this

/-- Registration gives a table in which keys determine profiles. -/
theorem keyed_register (s : Setup) : (register s).Keyed s :=
  (keyed_empty s).addDeclarations s.declarations fun i h => by simp [h]

/-! ## Derived bindings -/

/-- A specialization has the profile of the binding that it is made of. -/
theorem Keyed.specialize {s : Setup} {t : BindingTable} (keyed : t.Keyed s) (id : BindingId)
    (sub : Substitution) : (t.specialize id sub).2.Keyed s := by
  unfold BindingTable.specialize
  split
  · exact keyed
  · exact keyed
  · rename_i generic _ found
    refine keyed.add ⟨generic.source, sub⟩ rfl ?_
    intro b mem
    simp only [bindings, List.mem_append, List.mem_singleton] at mem
    rcases mem with old | old | rfl
    · exact .inl (by simp [bindings, old])
    · exact .inl (by simp [bindings, old])
    · refine .inr ⟨rfl, rfl, ?_⟩
      have profile := keyed.profile generic (List.mem_of_getElem? found)
      simpa [Binding.profile] using profile

/-- What a handler makes is transient and does not come from outside. -/
theorem Keyed.addFallback {s : Setup} {t : BindingTable} (keyed : t.Keyed s) (h : Handler)
    (q : Request) : (t.addFallback h q).2.Keyed s := by
  unfold BindingTable.addFallback
  split
  · exact keyed
  · refine keyed.add ⟨.fallback t.fallbacks.length, ∅⟩ rfl ?_
    intro b mem
    simp only [bindings, List.mem_append, List.mem_singleton] at mem
    rcases mem with old | old | rfl
    · exact .inl (by simp [bindings, old])
    · exact .inl (by simp [bindings, old])
    · exact .inr ⟨rfl, rfl, rfl⟩

/-! ## The table only grows -/

/-- A specialization does not count as declared ... -/
theorem declared_specialize (t : BindingTable) (id : BindingId) (sub : Substitution) :
    (t.specialize id sub).2.declared = t.declared := by
  unfold specialize
  split <;> rfl

/-- ... and neither does what a handler makes. -/
theorem declared_addFallback (t : BindingTable) (h : Handler) (q : Request) :
    (t.addFallback h q).2.declared = t.declared := by
  unfold addFallback
  split <;> rfl

/-- Both are added behind all others, if they are new. -/
theorem bindings_specialize (t : BindingTable) (id : BindingId) (sub : Substitution) :
    ∃ added, (t.specialize id sub).2.bindings = t.bindings ++ added := by
  unfold specialize
  split
  · exact ⟨[], by simp⟩
  · exact ⟨[], by simp⟩
  · exact ⟨_, by simp [bindings]; rfl⟩

theorem bindings_addFallback (t : BindingTable) (h : Handler) (q : Request) :
    ∃ added, (t.addFallback h q).2.bindings = t.bindings ++ added := by
  unfold addFallback
  split
  · exact ⟨[], by simp⟩
  · exact ⟨_, by simp [bindings]; rfl⟩

end BindingTable

end ObjectGraph
