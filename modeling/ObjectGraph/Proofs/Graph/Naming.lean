import ObjectGraph.Proofs.Graph.Provider

/-
  The ids under which a table of bindings knows the providers.

  A table that grows during a resolution gives out an id for each specialization and for each
  fallback request when it is first asked for.  `Naming` says what can be relied on: the declared
  bindings stay, the binding of an id is what its provider says, and different providers have
  different ids.  `Enrolled` is what one addition to the table achieves: the provider has an id
  afterwards, and no id that was given out before changes.
-/

namespace ObjectGraph

/-- Bindings that differ in their numbers at most. -/
structure Binding.Alike (b b' : Binding) : Prop where
  contract : b.contract = b'.contract
  tags : b.tags = b'.tags
  lifetime : b.lifetime = b'.lifetime
  recipe : b.recipe = b'.recipe
  location : b.location = b'.location

theorem Binding.Alike.refl (b : Binding) : b.Alike b := ⟨rfl, rfl, rfl, rfl, rfl⟩

namespace BindingTable

/-- The id under which a table knows a provider, if it does. -/
def idOf (r : Resolver) (t : BindingTable) : Provider → Option BindingId
  | .declared b => if t.declared[b.id]? = some b then some b.id else none
  | .specialized b s =>
    if t.declared[b.id]? = some b then t.specialized.lookup (b.id, s) else none
  | .fallback h q =>
    if r.handlers.find? r.types q = some h then t.fallbacks.lookup (h.name, q) else none

/-- A table that comes from the table `t` by additions, as far as its ids are concerned. -/
structure Naming (r : Resolver) (t tab : BindingTable) : Prop where
  declared : tab.declared = t.declared
  named : ∀ p id, tab.idOf r p = some id →
    ∃ b, tab.binding? id = some b ∧ b.id = id ∧ b.Alike p.binding
  distinct : ∀ p p' id, tab.idOf r p = some id → tab.idOf r p' = some id → p = p'

/-- The ids given out by the table `tab` are still those of the table `tab'`. -/
def Keeps (r : Resolver) (tab tab' : BindingTable) : Prop :=
  ∀ p id, tab.idOf r p = some id → tab'.idOf r p = some id

theorem Keeps.refl (r : Resolver) (tab : BindingTable) : Keeps r tab tab := fun _ _ named => named

theorem Keeps.trans {r : Resolver} {tab tab' tab'' : BindingTable} (first : Keeps r tab tab')
    (second : Keeps r tab' tab'') : Keeps r tab tab'' :=
  fun p id named => second p id (first p id named)

/-- What a call achieves that asks the table `tab` for the id of a provider. -/
structure Enrolled (r : Resolver) (t tab : BindingTable) (p : Provider)
    (result : BindingId × BindingTable) : Prop where
  naming : Naming r t result.2
  keeps : Keeps r tab result.2
  named : result.2.idOf r p = some result.1

variable {r : Resolver} {t tab tab' : BindingTable} {p : Provider}

/-- A provider that is known needs no addition. -/
theorem Naming.enrolled (naming : Naming r t tab) {id : BindingId}
    (named : tab.idOf r p = some id) : Enrolled r t tab p (id, tab) :=
  ⟨naming, .refl r tab, named⟩

theorem Naming.lt_size (naming : Naming r t tab) {id : BindingId}
    (named : tab.idOf r p = some id) : id < tab.size := by
  obtain ⟨b, found, -⟩ := naming.named p id named
  obtain ⟨lt, -⟩ := List.getElem?_eq_some_iff.mp found
  simpa [bindings, size] using lt

/-- Adding the binding of a provider that was not known, under the next id. -/
theorem Naming.enroll (naming : Naming r t tab) {b : Binding} (new : tab.idOf r p = none)
    (declared : tab'.declared = tab.declared) (added : tab'.derived = tab.derived ++ [b])
    (numbered : b.id = tab.size) (alike : b.Alike p.binding)
    (idOf_eq : ∀ p', tab'.idOf r p' = if p' = p then some b.id else tab.idOf r p') :
    Enrolled r t tab p (b.id, tab') where
  naming := {
    declared := declared.trans naming.declared
    named := by
      intro p' id named
      rw [idOf_eq] at named
      split at named
      · rename_i same
        cases named
        refine ⟨b, ?_, rfl, same ▸ alike⟩
        rw [binding?, bindings, declared, added, numbered, ← List.append_assoc,
          List.getElem?_append_right (by simp [size])]
        simp [size]
      · obtain ⟨b', found, numbered', alike'⟩ := naming.named p' id named
        refine ⟨b', ?_, numbered', alike'⟩
        rw [binding?, bindings] at found ⊢
        rw [declared, added, ← List.append_assoc]
        rw [List.getElem?_append_left (List.getElem?_eq_some_iff.mp found).1, found]
    distinct := by
      intro p₁ p₂ id named₁ named₂
      -- the new id is beyond all those given out before
      have fresh : ∀ p', tab.idOf r p' ≠ some b.id := fun p' named =>
        Nat.ne_of_lt (naming.lt_size named) numbered
      rw [idOf_eq] at named₁ named₂
      split at named₁ <;> split at named₂
      · simp_all
      · cases named₁
        exact absurd named₂ (fresh p₂)
      · cases named₂
        exact absurd named₁ (fresh p₁)
      · exact naming.distinct p₁ p₂ id named₁ named₂ }
  keeps p' id named := by
    rw [idOf_eq, if_neg, named]
    rintro rfl
    rw [new] at named
    cases named
  named := by rw [idOf_eq, if_pos rfl]

/-! ## The additions -/

theorem addDeclarations_added (ds : List Declaration) :
    ∀ (t : BindingTable) (first : Nat),
      (t.addDeclarations first ds).specialized = t.specialized ∧
        (t.addDeclarations first ds).fallbacks = t.fallbacks := by
  induction ds with
  | nil => intro t first; exact ⟨rfl, rfl⟩
  | cons d ds ih =>
    intro t first
    have same : (t.addDeclaration first d).specialized = t.specialized ∧
        (t.addDeclaration first d).fallbacks = t.fallbacks := by
      simp only [BindingTable.addDeclaration]
      split <;> exact ⟨rfl, rfl⟩
    exact ⟨(ih _ _).1.trans same.1, (ih _ _).2.trans same.2⟩

/-- After registration the declared bindings have ids, and nothing else has. -/
theorem naming_register (r : Resolver) (s : Setup) : Naming r (register s) (register s) := by
  have none : (register s).specialized = [] ∧ (register s).fallbacks = [] :=
    addDeclarations_added s.declarations {} 0
  have only : ∀ p id, (register s).idOf r p = some id →
      ∃ b ∈ (register s).declared, p = .declared b ∧ b.id = id := by
    intro p id named
    cases p with
    | declared b =>
      simp only [idOf] at named
      split at named
      · rename_i declared
        exact ⟨b, List.mem_of_getElem? declared, rfl, Option.some.inj named⟩
      · cases named
    | specialized b s => simp [idOf, none] at named
    | fallback h q => simp [idOf, none] at named
  refine ⟨rfl, fun p id named => ?_, fun p p' id named named' => ?_⟩
  · obtain ⟨b, declared, rfl, rfl⟩ := only p id named
    exact ⟨b, (numbered_register s).binding?_id declared, rfl, .refl b⟩
  · obtain ⟨b, declared, rfl, id_eq⟩ := only p id named
    obtain ⟨b', declared', rfl, id_eq'⟩ := only p' id named'
    have found := (numbered_register s).getElem?_id declared
    have found' := (numbered_register s).getElem?_id declared'
    rw [id_eq] at found
    rw [id_eq', found] at found'
    rw [Option.some.inj found']

/-- Asking for a specialization of a declared binding. -/
theorem Naming.specialize (naming : Naming r t tab) (numbered : t.Numbered) {b : Binding}
    (declared : b ∈ t.declared) (s : Substitution) :
    Enrolled r t tab (.specialized b s) (tab.specialize b.id s) := by
  have at_id : tab.declared[b.id]? = some b := naming.declared ▸ numbered.getElem?_id declared
  have found : tab.binding? b.id = some b := by
    rw [binding?, bindings, List.getElem?_append_left (List.getElem?_eq_some_iff.mp at_id).1, at_id]
  unfold BindingTable.specialize
  rw [found]
  cases known : tab.specialized.lookup (b.id, s) with
  | some id => exact naming.enrolled (by rw [idOf, if_pos at_id, known])
  | none =>
    refine naming.enroll (by rw [idOf, if_pos at_id, known]) rfl rfl rfl ⟨rfl, rfl, rfl, rfl, rfl⟩ ?_
    intro p'
    cases p' with
    | declared | fallback => simp [idOf]
    | specialized b' s' =>
      simp only [idOf, List.lookup_cons, Provider.specialized.injEq]
      by_cases at_id' : tab.declared[b'.id]? = some b'
      · -- declared bindings of one id are the same
        have same : ((b'.id, s') == (b.id, s)) = true ↔ b' = b ∧ s' = s := by
          rw [beq_iff_eq, Prod.mk.injEq]
          constructor
          · rintro ⟨id, sub⟩
            rw [id, at_id] at at_id'
            exact ⟨(Option.some.inj at_id').symm, sub⟩
          · rintro ⟨binding, sub⟩
            exact ⟨congrArg Binding.id binding, sub⟩
        rw [if_pos at_id']
        split
        · rename_i key
          rw [if_pos (same.mp key)]
        · rename_i key
          rw [if_neg (fun eq => absurd (same.mpr eq) (by simp [key])), if_pos at_id']
      · have other : ¬ (b' = b ∧ s' = s) := fun eq => at_id' (eq.1 ▸ at_id)
        rw [if_neg at_id', if_neg other, if_neg at_id']

/-- Asking for the binding of a fallback request. -/
theorem Naming.addFallback (naming : Naming r t tab) {h : Handler} {q : Request}
    (handles : r.handlers.find? r.types q = some h) :
    Enrolled r t tab (.fallback h q) (tab.addFallback h q) := by
  unfold BindingTable.addFallback
  cases known : tab.fallbacks.lookup (h.name, q) with
  | some id => exact naming.enrolled (by rw [idOf, if_pos handles, known])
  | none =>
    refine naming.enroll (by rw [idOf, if_pos handles, known]) rfl rfl rfl ⟨rfl, rfl, rfl, rfl, rfl⟩ ?_
    intro p'
    cases p' with
    | declared | specialized => simp [idOf]
    | fallback h' q' =>
      simp only [idOf, List.lookup_cons, Provider.fallback.injEq]
      by_cases handles' : r.handlers.find? r.types q' = some h'
      · -- one handler serves a request
        have same : ((h'.name, q') == (h.name, q)) = true ↔ h' = h ∧ q' = q := by
          rw [beq_iff_eq, Prod.mk.injEq]
          refine ⟨fun ⟨_, request⟩ => ⟨?_, request⟩, fun ⟨handler, request⟩ =>
            ⟨handler ▸ rfl, request⟩⟩
          rw [request, handles] at handles'
          exact (Option.some.inj handles').symm
        rw [if_pos handles']
        split
        · rename_i key
          rw [if_pos (same.mp key)]
        · rename_i key
          rw [if_neg (fun eq => absurd (same.mpr eq) (by simp [key])), if_pos handles']
      · have other : ¬ (h' = h ∧ q' = q) := fun eq => handles' (eq.1 ▸ eq.2 ▸ handles)
        rw [if_neg handles', if_neg other, if_neg handles']

end BindingTable

end ObjectGraph
