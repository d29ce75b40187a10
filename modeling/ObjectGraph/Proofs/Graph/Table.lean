import ObjectGraph.Proofs.Graph.Naming
import ObjectGraph.Proofs.Graph.Resolution
import ObjectGraph.Proofs.Type.Substitution

/-
  The tables of bindings that a setup gives rise to.

  A table starts from registration, and then specializations of declared bindings and bindings of
  fallback requests are added (`BindingTable.Grown`).  `Stamped` is what holds of all of them: each
  binding stands at the place of its id, bears the key of its origin, and is what its origin says.
  A declared binding originates from its declaration under no substitution at all, a specialization
  from the declaration of the generic binding under its substitution, and the binding of a fallback
  request from the number of the request.

  Since known origins with one key are the same, bindings that share a key share their recipe
  (`Stamped.recipe_eq`).
-/

namespace ObjectGraph

namespace BindingTable

/-- The tables of a setup: registration, and then any number of additions. -/
inductive Grown (s : Setup) : BindingTable → Prop where
  | register : Grown s (register s)
  | specialize {t : BindingTable} {b : Binding} (grown : Grown s t) (declared : b ∈ t.declared)
      (sub : Substitution) : Grown s (t.specialize b.id sub).2
  | addFallback {t : BindingTable} (grown : Grown s t) (h : Handler) (q : Request) :
      Grown s (t.addFallback h q).2

/-! ## Keys and origins -/

/-- The binding bears the key of a known origin of its source. -/
structure KeyedBy (t : BindingTable) (b : Binding) (o : Origin) : Prop where
  known : o ∈ t.origins
  key : b.key = keyOf t.origins o
  source : b.source = o.source

variable {s : Setup} {t t' : BindingTable} {b b' : Binding} {o o' : Origin}

/-- The origins of one key are the same. -/
theorem KeyedBy.unique (keyed : t.KeyedBy b o) (keyed' : t.KeyedBy b' o') :
    b.key = b'.key ↔ o = o' := by
  rw [keyed.key, keyed'.key]
  exact ⟨origin_eq_of_keyOf_eq keyed.known, congrArg (keyOf t.origins)⟩

/-- Keys stay what they are when an origin is added. -/
theorem KeyedBy.add (keyed : t.KeyedBy b o) {added : Origin}
    (origins : t'.origins = addOrigin t.origins added) : t'.KeyedBy b o where
  known := origins ▸ mem_addOrigin_of_mem keyed.known added
  key := by rw [origins, keyOf_addOrigin keyed.known, keyed.key]
  source := keyed.source

/-- What is enrolled gets the key of its origin. -/
theorem keyedBy_added (origins : t'.origins = addOrigin t.origins o)
    (key : b.key = keyOf (addOrigin t.origins o) o) (source : b.source = o.source) :
    t'.KeyedBy b o :=
  ⟨origins ▸ mem_addOrigin_self t.origins o, origins ▸ key, source⟩

/-! ## Declared bindings -/

/-- Each declared binding comes from a declaration, whose index is its origin. -/
def Registered (s : Setup) (t : BindingTable) : Prop :=
  ∀ b ∈ t.declared, ∃ index d, s.declarations[index]? = some d ∧ b.Renders d ∧
    t.KeyedBy b ⟨.declared index, ∅⟩

theorem Registered.addDeclaration (registered : t.Registered s) {index : Nat} {d : Declaration}
    (declared : s.declarations[index]? = some d) : (t.addDeclaration index d).Registered s := by
  intro b mem
  simp only [BindingTable.addDeclaration] at mem ⊢
  split at mem
  · rename_i none
    rw [if_pos none]
    exact registered b mem
  · rename_i some
    rw [if_neg some]
    rcases List.mem_append.mp mem with old | added
    · obtain ⟨index', d', found, renders, keyed⟩ := registered b old
      exact ⟨index', d', found, renders, keyed.add rfl⟩
    · obtain ⟨place, lt, rfl⟩ := List.mem_mapIdx.mp added
      exact ⟨index, d, declared, ⟨List.getElem_mem lt, rfl, rfl, rfl, rfl⟩,
        keyedBy_added rfl rfl rfl⟩

theorem Registered.addDeclarations (ds : List Declaration) :
    ∀ {t : BindingTable} {first : Nat}, t.Registered s →
      (∀ (i : Nat) (d : Declaration), ds[i]? = some d → s.declarations[first + i]? = some d) →
      (t.addDeclarations first ds).Registered s := by
  induction ds with
  | nil => intro t first registered _; exact registered
  | cons d ds ih =>
    intro t first registered declared
    refine ih (registered.addDeclaration (declared 0 d rfl)) fun i d' found => ?_
    rw [Nat.add_right_comm, Nat.add_assoc]
    exact declared (i + 1) d' found

/-- Registration enrolls the declarations of the setup, each from its index. -/
theorem registered_register (s : Setup) : (register s).Registered s :=
  Registered.addDeclarations s.declarations nofun fun i d found => by rwa [Nat.zero_add]

theorem derived_addDeclarations (ds : List Declaration) :
    ∀ (t : BindingTable) (first : Nat), (t.addDeclarations first ds).derived = t.derived := by
  induction ds with
  | nil => intro t first; rfl
  | cons d ds ih =>
    intro t first
    rw [addDeclarations, ih, addDeclaration]
    dsimp only
    split <;> rfl

/-! ## The invariant -/

/-- The binding at each place of a table, and what the records of a table say. -/
structure Stamped (s : Setup) (t : BindingTable) : Prop where
  numbered : ∀ (i : Nat) (b : Binding), t.bindings[i]? = some b → b.id = i
  registered : t.Registered s
  specialized : ∀ e ∈ t.specialized, ∃ generic ∈ t.declared, ∃ b ∈ t.derived,
    e = ((generic.id, e.1.2), b.id) ∧ b.Alike (Provider.specialized generic e.1.2).binding ∧
      t.KeyedBy b ⟨generic.source, e.1.2⟩
  fallback : ∀ (number : Nat) (e : (String × Request) × BindingId),
    t.fallbacks.reverse[number]? = some e →
      ∃ b ∈ t.derived, b.id = e.2 ∧ t.KeyedBy b ⟨.fallback number, ∅⟩
  derived : ∀ b ∈ t.derived, b.id ∈ t.specialized.map Prod.snd ∨ b.id ∈ t.fallbacks.map Prod.snd

/-- A table that has just been registered is stamped. -/
theorem stamped_register (s : Setup) : Stamped s (register s) where
  numbered i b found := by
    have none : (register s).derived = [] := derived_addDeclarations s.declarations {} 0
    rw [bindings, none, List.append_nil] at found
    exact numbered_register s i b found
  registered := registered_register s
  specialized e mem := by
    rw [register, (addDeclarations_added s.declarations {} 0).1] at mem
    cases mem
  fallback number e found := by
    rw [register, (addDeclarations_added s.declarations {} 0).2] at found
    cases found
  derived b mem := by
    rw [register, derived_addDeclarations] at mem
    cases mem

/-! ## Additions -/

/-- A binding of an origin is added at the end, under the next id. -/
structure Adds (t : BindingTable) (b : Binding) (o : Origin) (t' : BindingTable) : Prop where
  declared : t'.declared = t.declared
  derived : t'.derived = t.derived ++ [b]
  origins : t'.origins = addOrigin t.origins o
  id : b.id = t.size
  keyed : t'.KeyedBy b o

/-- A specialization is known, or it is added and remembered. -/
theorem specialize_cases {id : BindingId} {generic : Binding} (found : t.binding? id = some generic)
    (sub : Substitution) :
    (∃ known, t.specialized.lookup (id, sub) = some known ∧ t.specialize id sub = (known, t)) ∨
      ∃ b, t.Adds b ⟨generic.source, sub⟩ (t.specialize id sub).2 ∧
        (t.specialize id sub).1 = b.id ∧ b.Alike (Provider.specialized generic sub).binding ∧
        (t.specialize id sub).2.specialized = ((id, sub), b.id) :: t.specialized ∧
        (t.specialize id sub).2.fallbacks = t.fallbacks := by
  unfold BindingTable.specialize
  rw [found]
  cases t.specialized.lookup (id, sub) with
  | some known => exact .inl ⟨known, rfl, rfl⟩
  | none =>
    refine .inr ⟨_, ⟨rfl, rfl, rfl, rfl, ?_⟩, rfl, ⟨rfl, rfl, rfl, rfl, rfl⟩, rfl, rfl⟩
    exact keyedBy_added rfl rfl rfl

/-- A fallback request is known, or a binding is added for it and remembered. -/
theorem addFallback_cases (t : BindingTable) (h : Handler) (q : Request) :
    (t.addFallback h q).2 = t ∨
      ∃ b, t.Adds b ⟨.fallback t.fallbacks.length, ∅⟩ (t.addFallback h q).2 ∧
        (t.addFallback h q).2.specialized = t.specialized ∧
        (t.addFallback h q).2.fallbacks = ((h.name, q), b.id) :: t.fallbacks := by
  unfold BindingTable.addFallback
  split
  · exact .inl rfl
  · refine .inr ⟨_, ⟨rfl, rfl, rfl, rfl, ?_⟩, rfl, rfl⟩
    exact keyedBy_added rfl rfl rfl

/-- The binding that is added has the next number. -/
theorem Adds.numbered (adds : t.Adds b o t')
    (numbered : ∀ (i : Nat) (b : Binding), t.bindings[i]? = some b → b.id = i) :
    ∀ (i : Nat) (b : Binding), t'.bindings[i]? = some b → b.id = i := by
  intro i b' found
  have size : t.bindings.length = t.size := by simp [bindings, BindingTable.size]
  have bindings_eq : t'.bindings = t.bindings ++ [b] := by
    rw [bindings, adds.declared, adds.derived, ← List.append_assoc, bindings]
  rw [bindings_eq] at found
  rcases Nat.lt_or_ge i t.bindings.length with lt | ge
  · rw [List.getElem?_append_left lt] at found
    exact numbered i b' found
  · rw [List.getElem?_append_right ge] at found
    obtain ⟨at_end, rfl⟩ := List.getElem?_eq_some_iff.mp found
    rw [List.length_singleton] at at_end
    rw [List.getElem_singleton, adds.id]
    show t.size = i
    omega

theorem Adds.registered (adds : t.Adds b o t') (registered : t.Registered s) :
    t'.Registered s := by
  intro b' mem
  rw [adds.declared] at mem
  obtain ⟨index, d, found, renders, keyed⟩ := registered b' mem
  exact ⟨index, d, found, renders, keyed.add adds.origins⟩

/-- It is the one that is derived in addition. -/
theorem Adds.mem_derived_iff (adds : t.Adds b o t') : b' ∈ t'.derived ↔ b' ∈ t.derived ∨ b' = b := by
  rw [adds.derived, List.mem_append, List.mem_singleton]

/-- What the records say stays true when a binding is added, and they may say it of that one too. -/
theorem Stamped.add (stamped : Stamped s t) (adds : t.Adds b o t')
    (specialized : t'.specialized = t.specialized ∨ ∃ generic ∈ t.declared, ∃ sub,
      t'.specialized = ((generic.id, sub), b.id) :: t.specialized ∧ o = ⟨generic.source, sub⟩ ∧
        b.Alike (Provider.specialized generic sub).binding)
    (fallbacks : t'.fallbacks = t.fallbacks ∨ ∃ k,
      t'.fallbacks = (k, b.id) :: t.fallbacks ∧ o = ⟨.fallback t.fallbacks.length, ∅⟩)
    (listed : b.id ∈ t'.specialized.map Prod.snd ∨ b.id ∈ t'.fallbacks.map Prod.snd) :
    Stamped s t' where
  numbered := adds.numbered stamped.numbered
  registered := adds.registered stamped.registered
  specialized e mem := by
    have old : e ∈ t.specialized → _ := stamped.specialized e
    rcases specialized with same | ⟨generic, declared, sub, more, rfl, alike⟩
    · rw [same] at mem
      obtain ⟨generic', known, b', among, entry, alike, keyed⟩ := old mem
      exact ⟨generic', adds.declared ▸ known, b', adds.mem_derived_iff.mpr (.inl among), entry,
        alike, keyed.add adds.origins⟩
    · rw [more] at mem
      rcases List.mem_cons.mp mem with rfl | mem
      · exact ⟨generic, adds.declared ▸ declared, b, adds.mem_derived_iff.mpr (.inr rfl), rfl,
          alike, adds.keyed⟩
      · obtain ⟨generic', known, b', among, entry, alike, keyed⟩ := old mem
        exact ⟨generic', adds.declared ▸ known, b', adds.mem_derived_iff.mpr (.inl among), entry,
          alike, keyed.add adds.origins⟩
  fallback number e found := by
    have old : t.fallbacks.reverse[number]? = some e →
        ∃ b' ∈ t'.derived, b'.id = e.2 ∧ t'.KeyedBy b' ⟨.fallback number, ∅⟩ := fun found => by
      obtain ⟨b', among, id, keyed⟩ := stamped.fallback number e found
      exact ⟨b', adds.mem_derived_iff.mpr (.inl among), id, keyed.add adds.origins⟩
    rcases fallbacks with same | ⟨k, more, rfl⟩
    · exact old (same ▸ found)
    · rw [more, List.reverse_cons] at found
      rcases Nat.lt_or_ge number t.fallbacks.reverse.length with lt | ge
      · rw [List.getElem?_append_left lt] at found
        exact old found
      · rw [List.getElem?_append_right ge] at found
        obtain ⟨at_end, rfl⟩ := List.getElem?_eq_some_iff.mp found
        rw [List.length_singleton, List.length_reverse] at at_end
        rw [List.length_reverse] at ge
        obtain rfl : number = t.fallbacks.length := by omega
        exact ⟨b, adds.mem_derived_iff.mpr (.inr rfl), by simp, adds.keyed⟩
  derived b' mem := by
    rcases adds.mem_derived_iff.mp mem with old | rfl
    · refine (stamped.derived b' old).imp (fun mem => ?_) fun mem => ?_
      · rcases specialized with same | ⟨_, _, _, more, -⟩
        · rwa [same]
        · rw [more]
          exact List.mem_cons_of_mem _ mem
      · rcases fallbacks with same | ⟨_, more, -⟩
        · rwa [same]
        · rw [more]
          exact List.mem_cons_of_mem _ mem
    · exact listed

/-- In a stamped table every binding is found under its id. -/
theorem Stamped.binding?_id (stamped : Stamped s t) (mem : b ∈ t.bindings) :
    t.binding? b.id = some b := by
  obtain ⟨i, found⟩ := List.mem_iff_getElem?.mp mem
  rw [stamped.numbered i b found]
  exact found

/-- Specialization keeps the stamps ... -/
theorem Stamped.specialize (stamped : Stamped s t) {generic : Binding}
    (declared : generic ∈ t.declared) (sub : Substitution) :
    Stamped s (t.specialize generic.id sub).2 := by
  have at_id := stamped.binding?_id (List.mem_append_left t.derived declared)
  rcases specialize_cases at_id sub with ⟨known, -, same⟩ | ⟨b, adds, -, alike, more, kept⟩
  · rw [same]
    exact stamped
  · refine stamped.add adds (.inr ⟨generic, declared, sub, more, rfl, alike⟩) (.inl kept) (.inl ?_)
    rw [more]
    exact List.mem_cons_self

/-- ... and so does a fallback binding. -/
theorem Stamped.addFallback (stamped : Stamped s t) (h : Handler) (q : Request) :
    Stamped s (t.addFallback h q).2 := by
  rcases addFallback_cases t h q with same | ⟨b, adds, kept, more⟩
  · rw [same]
    exact stamped
  · refine stamped.add adds (.inl kept) (.inr ⟨(h.name, q), more, rfl⟩) (.inr ?_)
    rw [more]
    exact List.mem_cons_self

/-- Every table of a setup is stamped. -/
theorem Grown.stamped (grown : Grown s t) : Stamped s t := by
  induction grown with
  | register => exact stamped_register s
  | specialize _ declared sub ih => exact ih.specialize declared sub
  | addFallback _ h q ih => exact ih.addFallback h q

/-! ## What the origin of a binding tells -/

/-- Ids tell bindings apart. -/
theorem Stamped.eq_of_id_eq (stamped : Stamped s t) (mem : b ∈ t.bindings) (mem' : b' ∈ t.bindings)
    (id : b.id = b'.id) : b = b' := by
  have found := stamped.binding?_id mem
  rw [id, stamped.binding?_id mem'] at found
  exact (Option.some.inj found).symm

/-- A binding as its origin has it: the recipe of its declaration under the substitution, or the one
    binding of its fallback request. -/
inductive Stamp (s : Setup) (t : BindingTable) (b : Binding) : Origin → Prop where
  | declared {index : Nat} {d : Declaration} {sub : Substitution}
      (found : s.declarations[index]? = some d) (recipe : b.recipe = d.recipe.substitute sub) :
      Stamp s t b ⟨.declared index, sub⟩
  | fallback {number : Nat} {e : (String × Request) × BindingId}
      (found : t.fallbacks.reverse[number]? = some e) (id : e.2 = b.id) :
      Stamp s t b ⟨.fallback number, ∅⟩

theorem Stamped.stamp (stamped : Stamped s t) (mem : b ∈ t.bindings) :
    ∃ o, t.KeyedBy b o ∧ Stamp s t b o := by
  have derived {b' : Binding} (mem' : b' ∈ t.derived) (id : b'.id = b.id) : b' = b :=
    stamped.eq_of_id_eq (List.mem_append_right _ mem') mem id
  rcases List.mem_append.mp mem with declared | added
  · obtain ⟨index, d, found, renders, keyed⟩ := stamped.registered b declared
    exact ⟨_, keyed, .declared found (by rw [renders.recipe, Recipe.substitute_empty])⟩
  · rcases stamped.derived b added with listed | listed
    · obtain ⟨e, known, id⟩ := List.mem_map.mp listed
      obtain ⟨generic, declared, b', among, entry, alike, keyed⟩ := stamped.specialized e known
      cases derived among (by rw [← id, entry])
      obtain ⟨index, d, found, renders, at_index⟩ := stamped.registered generic declared
      rw [at_index.source] at keyed
      exact ⟨_, keyed, .declared found (by rw [alike.recipe, ← renders.recipe]; rfl)⟩
    · obtain ⟨e, known, id⟩ := List.mem_map.mp listed
      obtain ⟨number, found⟩ := List.mem_iff_getElem?.mp (List.mem_reverse.mpr known)
      obtain ⟨b', among, id', keyed⟩ := stamped.fallback number e found
      cases derived among (id'.trans id)
      exact ⟨_, keyed, .fallback found id⟩

/-- Bindings that share a storage key share their recipe. -/
theorem Stamped.recipe_eq (stamped : Stamped s t) (mem : b ∈ t.bindings) (mem' : b' ∈ t.bindings)
    (key : b.key = b'.key) : b.recipe = b'.recipe := by
  obtain ⟨o, keyed, stamp⟩ := stamped.stamp mem
  obtain ⟨o', keyed', stamp'⟩ := stamped.stamp mem'
  cases (keyed.unique keyed').mp key
  cases stamp with
  | declared found recipe =>
    cases stamp' with
    | declared found' recipe' =>
      cases found.symm.trans found'
      rw [recipe, recipe']
  | fallback found id =>
    cases stamp' with
    | fallback found' id' =>
      cases found.symm.trans found'
      rw [stamped.eq_of_id_eq mem mem' (id.symm.trans id')]

end BindingTable

end ObjectGraph
