import Mathlib.Logic.Function.Iterate
import ObjectGraph.Plan.Arena

/-
  The arena over time: links, and the variables that are found again.

  `Arena.terminal` follows the links of a variable to their end.  Links always lead to earlier
  variables (`Linked`), so as many hops as there are variables suffice, and the two equations
  `terminal_of_none` and `terminal_of_some` are all that is used of the definition.

  Of a variable only the flags ever change (`Variable.unflagged`).  `Extends` says that of a whole
  arena: the variables that were there are still there, with the same node, request and link.  So
  a terminal storage, once it is known, never changes (`Extends.terminal_eq`).

  The last section is about lookups by storage key.  As long as each key is stored once
  (`KeysOnce`), `evict` keeps what it is told to keep and nothing else, and marks it as not created.
-/

namespace ObjectGraph

/-- A variable without its flags, which are all of it that ever changes. -/
def Variable.unflagged (v : Variable) : Variable :=
  { v with isDeclared := false, isCreated := false, isBlockRoot := false }

namespace Arena

variable {a a' : Arena} {v u : Nat}

/-! ## What the operations do to variables -/

/-- A new variable is one more. -/
@[simp] theorem size_allocate (a : Arena) (node : NodeId) (q : Request)
    (link : Option VariableId) : (a.allocate node q link).2.vars.size = a.vars.size + 1 := by
  simp [allocate]

/-- A change adds no variable. -/
@[simp] theorem size_update (a : Arena) (id : VariableId) (f : Variable → Variable) :
    (a.update id f).vars.size = a.vars.size := by
  simp [update]

/-- An update that touches flags only leaves all variables the same up to flags. -/
theorem unflagged_update (a : Arena) (id : VariableId) {f : Variable → Variable}
    (flags : ∀ v, (f v).unflagged = v.unflagged) (v : VariableId) :
    ((a.update id f).var v).unflagged = (a.var v).unflagged := by
  by_cases eq : v = id
  · subst eq
    by_cases lt : v < a.vars.size
    · rw [var_update_self a lt, flags]
    · simp [var, update, lt]
  · rw [var_update_of_ne a eq]

/-- A mark is what it was set to. -/
theorem isCreated_setCreated_self (lt : v < a.vars.size) (created : Bool) :
    ((a.setCreated v created).var v).isCreated = created := by
  rw [setCreated, var_update_self a lt]

/-- The marks of all other variables stay what they are. -/
theorem isCreated_setCreated_of_ne (ne : v ≠ u) (created : Bool) :
    ((a.setCreated u created).var v).isCreated = (a.var v).isCreated := by
  rw [setCreated, var_update_of_ne a ne]

@[simp] theorem isCreated_setBlockRoot (a : Arena) (id v : VariableId) :
    ((a.setBlockRoot id).var v).isCreated = (a.var v).isCreated := by
  by_cases eq : v = id
  · subst eq
    by_cases lt : v < a.vars.size
    · rw [setBlockRoot, var_update_self a lt]
    · simp [var, setBlockRoot, update, lt]
  · rw [setBlockRoot, var_update_of_ne a eq]

@[simp] theorem isCreated_setDeclared (a : Arena) (id v : VariableId) :
    ((a.setDeclared id).var v).isCreated = (a.var v).isCreated := by
  by_cases eq : v = id
  · subst eq
    by_cases lt : v < a.vars.size
    · rw [setDeclared, var_update_self a lt]
    · simp [var, setDeclared, update, lt]
  · rw [setDeclared, var_update_of_ne a eq]

/-! ## Arenas that grow -/

/-- `a'` has all variables of `a` with the same node, request and link, and maybe more. -/
structure Extends (a a' : Arena) : Prop where
  size_le : a.vars.size ≤ a'.vars.size
  unflagged : ∀ v < a.vars.size, (a'.var v).unflagged = (a.var v).unflagged

namespace Extends

/-- An arena extends itself. -/
theorem refl (a : Arena) : a.Extends a := ⟨Nat.le_refl _, fun _ _ => rfl⟩

/-- What extends an extension extends the first arena. -/
theorem trans {b : Arena} (h : a.Extends b) (h' : b.Extends a') : a.Extends a' where
  size_le := Nat.le_trans h.size_le h'.size_le
  unflagged v lt := by
    rw [h'.unflagged v (Nat.lt_of_lt_of_le lt h.size_le), h.unflagged v lt]

theorem node (h : a.Extends a') (lt : v < a.vars.size) : (a'.var v).node = (a.var v).node :=
  (congrArg Variable.node (h.unflagged v lt) :)

theorem link (h : a.Extends a') (lt : v < a.vars.size) : (a'.var v).link = (a.var v).link :=
  (congrArg Variable.link (h.unflagged v lt) :)

theorem id (h : a.Extends a') (lt : v < a.vars.size) : (a'.var v).id = (a.var v).id :=
  (congrArg Variable.id (h.unflagged v lt) :)

/-- So a variable refers to what it referred to before. -/
theorem storage (h : a.Extends a') (lt : v < a.vars.size) : a'.storage v = a.storage v := by
  simp only [Arena.storage, Variable.storage, h.link lt, h.id lt]

end Extends

/-- A new variable is put behind the others. -/
theorem extends_allocate (a : Arena) (node : NodeId) (q : Request) (link : Option VariableId) :
    a.Extends (a.allocate node q link).2 where
  size_le := by simp
  unflagged v lt := by rw [var_allocate_of_ne a node q link (Nat.ne_of_lt lt)]

/-- What can be found does not matter to the variables. -/
theorem extends_store (a : Arena) (key : StorageKey) (id : VariableId) :
    a.Extends (a.store key id) := ⟨Nat.le_refl _, fun _ _ => rfl⟩

/-! ## A new variable, or a new entry -/

/-- A variable of the longer arena is an old one or the new one. -/
theorem lt_or_eq_of_lt_allocate {node : NodeId} {q : Request} {link : Option VariableId} {v : Nat}
    (lt : v < (a.allocate node q link).2.vars.size) : v < a.vars.size ∨ v = a.vars.size := by
  rw [size_allocate] at lt
  omega

/-- What is found was stored last, or could be found before. -/
theorem lookup_store_cases {key k : StorageKey} {id v : VariableId}
    (found : (a.store k id).lookup key = some v) : key = k ∧ v = id ∨ a.lookup key = some v := by
  by_cases eq : key = k
  · subst eq
    rw [lookup_store_self] at found
    exact .inl ⟨rfl, (Option.some.inj found).symm⟩
  · rw [lookup_store_of_ne _ _ eq] at found
    exact .inr found

/-- A new entry under a free key hides no other. -/
theorem lookup_store_of_free {key k : StorageKey} {id v : VariableId} (free : a.lookup k = none)
    (found : a.lookup key = some v) : (a.store k id).lookup key = some v := by
  have ne : key ≠ k := by
    rintro rfl
    rw [free] at found
    cases found
  rw [lookup_store_of_ne _ _ ne, found]

/-! ## Arenas that differ in flags only -/

/-- `a'` differs from `a` in the flags of variables at most. -/
structure SameValues (a a' : Arena) : Prop where
  size_eq : a'.vars.size = a.vars.size
  unflagged : ∀ v, (a'.var v).unflagged = (a.var v).unflagged
  stored : a'.stored = a.stored

namespace SameValues

theorem refl (a : Arena) : a.SameValues a := ⟨rfl, fun _ => rfl, rfl⟩

theorem trans {b : Arena} (h : a.SameValues b) (h' : b.SameValues a') : a.SameValues a' where
  size_eq := h'.size_eq.trans h.size_eq
  unflagged v := (h'.unflagged v).trans (h.unflagged v)
  stored := h'.stored.trans h.stored

/-- Arenas that differ in flags extend each other. -/
theorem toExtends (h : a.SameValues a') : a.Extends a' :=
  ⟨Nat.le_of_eq h.size_eq.symm, fun v _ => h.unflagged v⟩

theorem node (h : a.SameValues a') (v : VariableId) : (a'.var v).node = (a.var v).node :=
  (congrArg Variable.node (h.unflagged v) :)

theorem link (h : a.SameValues a') (v : VariableId) : (a'.var v).link = (a.var v).link :=
  (congrArg Variable.link (h.unflagged v) :)

theorem id (h : a.SameValues a') (v : VariableId) : (a'.var v).id = (a.var v).id :=
  (congrArg Variable.id (h.unflagged v) :)

/-- The same variables are found. -/
theorem lookup (h : a.SameValues a') (key : StorageKey) : a'.lookup key = a.lookup key := by
  simp only [Arena.lookup, h.stored]

/-- And they refer to the same. -/
theorem storage (h : a.SameValues a') (v : VariableId) : a'.storage v = a.storage v := by
  simp only [Arena.storage, Variable.storage, h.link v, h.id v]

end SameValues

/-- The mark is a flag. -/
theorem sameValues_setCreated (a : Arena) (id : VariableId) (created : Bool) :
    a.SameValues (a.setCreated id created) :=
  ⟨size_update a id _, unflagged_update a id fun _ => rfl, rfl⟩

/-- So is that of a block of its own ... -/
theorem sameValues_setBlockRoot (a : Arena) (id : VariableId) :
    a.SameValues (a.setBlockRoot id) :=
  ⟨size_update a id _, unflagged_update a id fun _ => rfl, rfl⟩

/-- ... and that of storage of the composition. -/
theorem sameValues_setDeclared (a : Arena) (id : VariableId) :
    a.SameValues (a.setDeclared id) :=
  ⟨size_update a id _, unflagged_update a id fun _ => rfl, rfl⟩

/-! ## Terminal storage -/

/-- The variable at the end of the links of a variable. -/
def terminal (a : Arena) (v : VariableId) : VariableId := a.storage^[a.vars.size] v

/-- Ids are places, and links lead to earlier variables. -/
structure Linked (a : Arena) : Prop where
  id_eq : ∀ v : Nat, v < a.vars.size → (a.var v).id = v
  link_lt : ∀ v : Nat, v < a.vars.size → ∀ u : Nat, (a.var v).link = some u → u < v

/-- Without variables there are no links. -/
theorem linked_empty : Linked {} := ⟨nofun, nofun⟩

/-- A variable with a link refers to where the link leads. -/
theorem storage_of_some (link : (a.var v).link = some u) : a.storage v = u := by
  simp [storage, Variable.storage, link]

namespace Linked

/-- A variable without a link refers to itself. -/
theorem storage_of_none (linked : a.Linked) (lt : v < a.vars.size)
    (link : (a.var v).link = none) : a.storage v = v := by
  simp [Arena.storage, Variable.storage, link, linked.id_eq v lt]

/-- After `n` hops, the links of the first `n` variables have come to their end. -/
theorem storage_iterate (linked : a.Linked) :
    ∀ n v : Nat, v < a.vars.size → v ≤ n → a.storage (a.storage^[n] v) = a.storage^[n] v := by
  intro n
  induction n with
  | zero =>
    intro v lt le
    obtain rfl := Nat.le_zero.mp le
    cases link : (a.var 0).link with
    | none => exact linked.storage_of_none lt link
    | some u => exact absurd (linked.link_lt 0 lt u link) (Nat.not_lt_zero u)
  | succ n ih =>
    intro v lt le
    cases link : (a.var v).link with
    | none =>
      have fixed : a.storage v = v := linked.storage_of_none lt link
      rw [Function.iterate_fixed fixed, fixed]
    | some u =>
      have earlier := linked.link_lt v lt u link
      rw [Function.iterate_succ_apply, storage_of_some link]
      exact ih u (Nat.lt_trans earlier lt) (by omega)

/-- A variable without a link is the end. -/
theorem terminal_of_none (linked : a.Linked) (lt : v < a.vars.size)
    (link : (a.var v).link = none) : a.terminal v = v :=
  Function.iterate_fixed (linked.storage_of_none lt link) _

/-- A variable with a link has the end of the variable that the link leads to. -/
theorem terminal_of_some (linked : a.Linked) (lt : v < a.vars.size)
    (link : (a.var v).link = some u) : a.terminal v = a.terminal u := by
  obtain ⟨n, size⟩ : ∃ n, a.vars.size = n + 1 := ⟨a.vars.size - 1, by omega⟩
  have earlier := linked.link_lt v lt u link
  unfold terminal
  rw [size, Function.iterate_succ_apply, storage_of_some link, Function.iterate_succ_apply',
    linked.storage_iterate n u (by omega) (by omega)]

/-- Induction along the links of a variable. -/
theorem link_induction (linked : a.Linked) {P : Nat → Prop}
    (none : ∀ v < a.vars.size, (a.var v).link = none → P v)
    (some : ∀ v < a.vars.size, ∀ u < v, (a.var v).link = some u → P u → P v) :
    ∀ v < a.vars.size, P v := by
  intro v
  induction v using Nat.strongRecOn with
  | ind v ih =>
    intro lt
    cases link : (a.var v).link with
    | none => exact none v lt link
    | some u =>
      have earlier := linked.link_lt v lt u link
      exact some v lt u earlier link (ih u earlier (Nat.lt_trans earlier lt))

/-- As links lead to earlier variables, so does the end of them. -/
theorem terminal_le (linked : a.Linked) : ∀ v : Nat, v < a.vars.size → a.terminal v ≤ v := by
  refine linked.link_induction ?_ ?_
  · intro v lt link
    exact Nat.le_of_eq (linked.terminal_of_none lt link)
  · intro v lt u earlier link ih
    rw [linked.terminal_of_some lt link]
    exact Nat.le_trans ih (Nat.le_of_lt earlier)

/-- At the end there is no link. -/
theorem link_terminal (linked : a.Linked) :
    ∀ v < a.vars.size, (a.var (a.terminal v)).link = none := by
  refine linked.link_induction ?_ ?_
  · intro v lt link
    rw [linked.terminal_of_none lt link, link]
  · intro v lt u _ link ih
    rw [linked.terminal_of_some lt link, ih]

end Linked

/-- A terminal storage, once it is known, never changes. -/
theorem Extends.terminal_eq (extends' : a.Extends a') (linked : a.Linked) (linked' : a'.Linked) :
    ∀ v < a.vars.size, a'.terminal v = a.terminal v := by
  refine linked.link_induction ?_ ?_
  · intro v lt link
    have lt' := Nat.lt_of_lt_of_le lt extends'.size_le
    rw [linked.terminal_of_none lt link,
      linked'.terminal_of_none lt' ((extends'.link lt).trans link)]
  · intro v lt u _ link ih
    have lt' := Nat.lt_of_lt_of_le lt extends'.size_le
    rw [linked.terminal_of_some lt link,
      linked'.terminal_of_some lt' ((extends'.link lt).trans link), ih]

/-- Variables that stay leave links where they lead. -/
theorem Linked.of_extends (linked : a.Linked) (extends' : a.Extends a')
    (size : a'.vars.size = a.vars.size) : a'.Linked where
  id_eq v lt := by rw [extends'.id (size ▸ lt), linked.id_eq v (size ▸ lt)]
  link_lt v lt u link :=
    linked.link_lt v (size ▸ lt) u (by rw [← extends'.link (size ▸ lt), link])

/-- A new variable may be linked to any old one. -/
theorem Linked.allocate (linked : a.Linked) (node : NodeId) (q : Request)
    {link : Option VariableId} (lt : ∀ u : Nat, link = some u → u < a.vars.size) :
    (a.allocate node q link).2.Linked where
  id_eq v in_range := by
    by_cases new : v = a.vars.size
    · rw [new, var_allocate_self]
    · rw [var_allocate_of_ne a node q link new, linked.id_eq v (by simp at in_range; omega)]
  link_lt v in_range u leads := by
    by_cases new : v = a.vars.size
    · rw [new, var_allocate_self] at leads
      exact new ▸ lt u leads
    · rw [var_allocate_of_ne a node q link new] at leads
      exact linked.link_lt v (by simp at in_range; omega) u leads

/-- Flags are no links. -/
theorem SameValues.linked (same : a.SameValues a') (linked : a.Linked) : a'.Linked :=
  linked.of_extends same.toExtends same.size_eq

/-- So the ends of links are the same. -/
theorem SameValues.terminal (same : a.SameValues a') (v : VariableId) :
    a'.terminal v = a.terminal v := by
  unfold Arena.terminal
  rw [same.size_eq, funext same.storage]

/-! ## Stored variables -/

/-- Each storage key is stored once. -/
def KeysOnce (a : Arena) : Prop := (a.stored.map Prod.fst).Nodup

/-- A new variable is not found yet. -/
@[simp] theorem lookup_allocate (a : Arena) (node : NodeId) (q : Request)
    (link : Option VariableId) (key : StorageKey) :
    (a.allocate node q link).2.lookup key = a.lookup key := rfl

/-- With each key once, what is stored is what is found. -/
theorem lookup_eq_some_iff (once : a.KeysOnce) {key : StorageKey} :
    a.lookup key = some v ↔ (key, v) ∈ a.stored := by
  constructor
  · intro found
    obtain ⟨before, after, split, -⟩ := List.lookup_eq_some_iff.mp found
    simp [split]
  · intro mem
    obtain ⟨before, after, split⟩ := List.append_of_mem mem
    refine List.lookup_eq_some_iff.mpr ⟨before, after, split, ?_⟩
    intro other earlier
    unfold KeysOnce at once
    rw [split, List.map_append, List.map_cons, List.nodup_append] at once
    have ne := once.2.2 other.1 (List.mem_map_of_mem earlier) key List.mem_cons_self
    simpa using ne.symm

/-- Storing a variable removes what was stored under the key. -/
theorem KeysOnce.store (once : a.KeysOnce) (key : StorageKey) (id : VariableId) :
    (a.store key id).KeysOnce := by
  refine List.nodup_cons.mpr ⟨?_, (List.filter_sublist.map _).nodup once⟩
  intro mem
  obtain ⟨entry, kept, eq⟩ := List.mem_map.mp mem
  exact absurd eq (by simpa using (List.mem_filter.mp kept).2)

/-- Flags do not touch the keys. -/
theorem SameValues.keysOnce (same : a.SameValues a') (once : a.KeysOnce) : a'.KeysOnce := by
  unfold KeysOnce
  rwa [same.stored]

/-! ## Eviction -/

/-- The loop of `evict`: marks the variables of a list of entries as not created. -/
def unmark (a : Arena) (entries : List (StorageKey × VariableId)) : Arena :=
  entries.foldl (fun a entry => a.setCreated entry.2 false) a

/-- Marks are flags, whatever number of them is removed. -/
theorem sameValues_unmark (entries : List (StorageKey × VariableId)) :
    ∀ a : Arena, a.SameValues (a.unmark entries) := by
  induction entries with
  | nil => intro a; exact ⟨rfl, fun _ => rfl, rfl⟩
  | cons entry rest ih =>
    intro a
    exact (sameValues_setCreated a entry.2 false).trans (ih _)

/-- What is not created stays so. -/
theorem isCreated_setCreated_false (a : Arena) (u : Nat)
    (not : (a.var v).isCreated = false) : ((a.setCreated u false).var v).isCreated = false := by
  by_cases eq : v = u
  · subst eq
    by_cases lt : v < a.vars.size
    · exact isCreated_setCreated_self lt false
    · simp [var, setCreated, update, lt]
      rfl
  · rw [isCreated_setCreated_of_ne eq, not]

/-- What is not marked stays so. -/
theorem isCreated_unmark_of_not (entries : List (StorageKey × VariableId)) :
    ∀ {a : Arena}, (a.var v).isCreated = false → ((a.unmark entries).var v).isCreated = false := by
  induction entries with
  | nil => intro a not; exact not
  | cons entry rest ih => intro a not; exact ih (isCreated_setCreated_false a entry.2 not)

/-- What is stored is not marked any more. -/
theorem isCreated_unmark {entries : List (StorageKey × VariableId)} {key : StorageKey} :
    ∀ {a : Arena}, v < a.vars.size → (key, v) ∈ entries →
      ((a.unmark entries).var v).isCreated = false := by
  induction entries with
  | nil => intro a _ mem; cases mem
  | cons entry rest ih =>
    intro a lt mem
    rcases List.mem_cons.mp mem with rfl | mem
    · exact isCreated_unmark_of_not rest (isCreated_setCreated_self lt false)
    · exact ih (by simpa [setCreated] using lt) mem

/-- No variable is removed. -/
theorem size_evict (a : Arena) (keep : Variable → Bool) :
    (a.evict keep).vars.size = a.vars.size :=
  (sameValues_unmark _ { a with stored := _ }).size_eq

/-- All variables stay but for their marks. -/
theorem extends_evict (a : Arena) (keep : Variable → Bool) : a.Extends (a.evict keep) :=
  ⟨Nat.le_of_eq (size_evict a keep).symm,
    fun v _ => (sameValues_unmark _ { a with stored := _ }).unflagged v⟩

/-- What is still found is what is kept. -/
theorem stored_evict (a : Arena) (keep : Variable → Bool) :
    (a.evict keep).stored = a.stored.filter fun entry => keep (a.var entry.2) :=
  (sameValues_unmark _ { a with stored := _ }).stored

/-- Keys that are kept are still there once. -/
theorem KeysOnce.evict (once : a.KeysOnce) (keep : Variable → Bool) :
    (a.evict keep).KeysOnce := by
  unfold KeysOnce
  rw [stored_evict]
  exact (List.filter_sublist.map _).nodup once

/-- Eviction keeps what it is told to keep. -/
theorem lookup_evict (once : a.KeysOnce) (keep : Variable → Bool) (key : StorageKey) (v : Nat) :
    (a.evict keep).lookup key = some v ↔ a.lookup key = some v ∧ keep (a.var v) = true := by
  rw [lookup_eq_some_iff (once.evict keep), lookup_eq_some_iff once, stored_evict,
    List.mem_filter]

/-- What is kept is not created any more. -/
theorem isCreated_evict (once : a.KeysOnce) (keep : Variable → Bool) {key : StorageKey}
    (lt : v < a.vars.size) (found : (a.evict keep).lookup key = some v) :
    ((a.evict keep).var v).isCreated = false := by
  rw [lookup_eq_some_iff (once.evict keep), stored_evict] at found
  exact isCreated_unmark (a := { a with stored := _ }) lt found

end Arena

end ObjectGraph
