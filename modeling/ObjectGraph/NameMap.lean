/-
  Finite maps keyed by names, in canonical form.

  A `NameMap α` is a list of `(name, value)` entries strictly ascending in the name, and the order
  is a field of the type: two maps with the same bindings are the same value.  That is what makes a
  map usable as a key itself (a substitution identifies the specialization it gave rise to) and
  what makes every listing of a map come out in the one order that is observable.

  The two lookup lemmas (`get?_insert_self`, `get?_insert_of_ne`) say all there is to know about
  `insert`, and lookups are all there is to know about a map (`ext_get?`).
-/

namespace ObjectGraph

/-- Entries `(name, value)` in strictly ascending order of the names. -/
def NameMap.Ascending {α : Type} (entries : List (String × α)) : Prop :=
  entries.Pairwise fun a b => a.1 < b.1

/-- A finite map from names to values of `α`. -/
structure NameMap (α : Type) where
  /-- The bindings of the map. -/
  entries : List (String × α)
  /-- Names are listed once each, smallest first. -/
  ascending : NameMap.Ascending entries

namespace NameMap

variable {α : Type}

instance [DecidableEq α] : DecidableEq (NameMap α) := fun a b =>
  decidable_of_iff (a.entries = b.entries)
    ⟨fun h => by cases a; cases b; simp_all, fun h => by rw [h]⟩

/-- The map without entries. -/
def empty : NameMap α := ⟨[], List.Pairwise.nil⟩

instance : Inhabited (NameMap α) := ⟨empty⟩

instance : EmptyCollection (NameMap α) := ⟨empty⟩

/-- The value bound to a name. -/
def get? (m : NameMap α) (name : String) : Option α := m.entries.lookup name

/-- Tells if a name is bound. -/
def contains (m : NameMap α) (name : String) : Bool := (m.get? name).isSome

/-- The bound values, in order of their names. -/
def values (m : NameMap α) : List α := m.entries.map Prod.snd

/-- The number of bound names. -/
def size (m : NameMap α) : Nat := m.entries.length

/-! ## Insertion -/

/-- Puts an entry at its place in an ascending list; an entry of the same name gives way. -/
def insertEntry (name : String) (value : α) : List (String × α) → List (String × α)
  | [] => [(name, value)]
  | (other, kept) :: rest =>
    if name < other then (name, value) :: (other, kept) :: rest
    else if name = other then (name, value) :: rest
    else (other, kept) :: insertEntry name value rest

theorem name_of_mem_insertEntry {name : String} {value : α} {entries : List (String × α)}
    {e : String × α} (h : e ∈ insertEntry name value entries) : e.1 = name ∨ e ∈ entries := by
  induction entries with
  | nil => simp only [insertEntry, List.mem_singleton] at h; exact .inl (by rw [h])
  | cons head rest ih =>
    obtain ⟨other, kept⟩ := head
    unfold insertEntry at h
    split at h
    · rcases List.mem_cons.1 h with rfl | h
      · exact .inl rfl
      · exact .inr h
    · split at h
      · rcases List.mem_cons.1 h with rfl | h
        · exact .inl rfl
        · exact .inr (List.mem_cons_of_mem _ h)
      · rcases List.mem_cons.1 h with rfl | h
        · exact .inr List.mem_cons_self
        · exact (ih h).imp id (List.mem_cons_of_mem _)

theorem insertEntry_ascending {name : String} {value : α} {entries : List (String × α)}
    (h : Ascending entries) : Ascending (insertEntry name value entries) := by
  induction entries with
  | nil => exact List.pairwise_singleton _ _
  | cons head rest ih =>
    obtain ⟨other, kept⟩ := head
    have ⟨below, tail⟩ := List.pairwise_cons.1 h
    unfold insertEntry
    split
    · next lt =>
      refine List.pairwise_cons.2 ⟨fun e he => ?_, h⟩
      rcases List.mem_cons.1 he with rfl | he
      · exact lt
      · exact String.lt_trans lt (below e he)
    · next nlt =>
      split
      · next eq => subst eq; exact List.pairwise_cons.2 ⟨below, tail⟩
      · next ne =>
        refine List.pairwise_cons.2 ⟨fun e he => ?_, ih tail⟩
        rcases name_of_mem_insertEntry he with eq | he
        · rw [eq]
          exact Decidable.byContradiction fun hn =>
            ne (String.le_antisymm (String.not_lt.1 hn) (String.not_lt.1 nlt))
        · exact below e he

/-- Binds a name, replacing what it was bound to before. -/
def insert (m : NameMap α) (name : String) (value : α) : NameMap α :=
  ⟨insertEntry name value m.entries, insertEntry_ascending m.ascending⟩

/-- The map of a list of pairs, where a later pair replaces an earlier one of the same name. -/
def ofList (pairs : List (String × α)) : NameMap α :=
  pairs.foldl (fun m p => m.insert p.1 p.2) empty

/-- The bindings of both maps; those of `other` win. -/
def union (m other : NameMap α) : NameMap α :=
  other.entries.foldl (fun m p => m.insert p.1 p.2) m

/-! ## What lookups see -/

theorem lookup_insertEntry_self (name : String) (value : α) (entries : List (String × α)) :
    (insertEntry name value entries).lookup name = some value := by
  induction entries with
  | nil => simp [insertEntry]
  | cons head rest ih =>
    obtain ⟨other, kept⟩ := head
    unfold insertEntry
    split
    · simp
    · split
      · simp
      · next ne => simp [List.lookup_cons, beq_false_of_ne ne, ih]

theorem lookup_insertEntry_of_ne {name other : String} (value : α) (entries : List (String × α))
    (ne : other ≠ name) : (insertEntry name value entries).lookup other = entries.lookup other := by
  induction entries with
  | nil => simp [insertEntry, List.lookup_cons, beq_false_of_ne ne]
  | cons head rest ih =>
    obtain ⟨key, kept⟩ := head
    unfold insertEntry
    split
    · simp [List.lookup_cons, beq_false_of_ne ne]
    · split
      · next eq => subst eq; simp [List.lookup_cons, beq_false_of_ne ne]
      · simp only [List.lookup_cons]; split <;> simp_all

@[simp] theorem get?_empty (name : String) : (empty : NameMap α).get? name = none := rfl

@[simp] theorem get?_insert_self (m : NameMap α) (name : String) (value : α) :
    (m.insert name value).get? name = some value :=
  lookup_insertEntry_self name value m.entries

theorem get?_insert_of_ne (m : NameMap α) {name other : String} (value : α) (ne : other ≠ name) :
    (m.insert name value).get? other = m.get? other :=
  lookup_insertEntry_of_ne value m.entries ne

/-- Before the first name nothing is bound. -/
theorem lookup_eq_none_of_lt {name : String} {entries : List (String × α)}
    (before : ∀ e ∈ entries, name < e.1) : entries.lookup name = none :=
  List.lookup_eq_none_iff.2 fun e he => bne_iff_ne.2 (String.ne_of_lt (before e he))

/-- The bindings of both maps can be looked up, those of the other one first. -/
theorem get?_union (m other : NameMap α) (name : String) :
    (m.union other).get? name = (other.get? name).or (m.get? name) := by
  obtain ⟨entries, ascending⟩ := other
  show (entries.foldl (fun m p => m.insert p.1 p.2) m).get? name =
    (entries.lookup name).or (m.get? name)
  induction entries generalizing m with
  | nil => rfl
  | cons e rest ih =>
    obtain ⟨below, tail⟩ := List.pairwise_cons.1 ascending
    rw [List.foldl_cons, ih _ tail, List.lookup_cons]
    by_cases same : name = e.1
    · subst same
      rw [lookup_eq_none_of_lt below, get?_insert_self, beq_self_eq_true]
      rfl
    · rw [get?_insert_of_ne _ _ same, beq_false_of_ne same]

/-- The first name of a map is the least that is bound. -/
theorem first_le {first name : String} {value bound : α} {rest : List (String × α)}
    (h : Ascending ((first, value) :: rest))
    (found : ((first, value) :: rest).lookup name = some bound) : first ≤ name := by
  refine String.not_lt.1 fun lt => ?_
  rw [lookup_eq_none_of_lt] at found
  · cases found
  · intro e he
    rcases List.mem_cons.1 he with rfl | he
    · exact lt
    · exact String.lt_trans lt ((List.pairwise_cons.1 h).1 e he)

theorem entries_eq_of_lookup {as bs : List (String × α)} (ha : Ascending as) (hb : Ascending bs)
    (same : ∀ name, as.lookup name = bs.lookup name) : as = bs := by
  induction as generalizing bs with
  | nil =>
    cases bs with
    | nil => rfl
    | cons b bs =>
      obtain ⟨name, value⟩ := b
      have unbound := same name
      simp at unbound
  | cons a as ih =>
    obtain ⟨name, value⟩ := a
    cases bs with
    | nil =>
      have unbound := same name
      simp at unbound
    | cons b bs =>
      obtain ⟨other, kept⟩ := b
      obtain rfl : name = other := by
        apply String.le_antisymm
        · exact first_le ha (by rw [same]; exact List.lookup_cons_self)
        · exact first_le hb (by rw [← same]; exact List.lookup_cons_self)
      obtain rfl : value = kept := by simpa using same name
      have ⟨below, tail⟩ := List.pairwise_cons.1 ha
      have ⟨below', tail'⟩ := List.pairwise_cons.1 hb
      congr 1
      refine ih tail tail' fun other => ?_
      by_cases eq : other = name
      · subst eq
        rw [lookup_eq_none_of_lt below, lookup_eq_none_of_lt below']
      · simpa [List.lookup_cons, beq_false_of_ne eq] using same other

/-- Maps that bind the same names to the same values are the same. -/
theorem ext_get? {m m' : NameMap α} (same : ∀ name, m.get? name = m'.get? name) : m = m' := by
  obtain ⟨entries, ascending⟩ := m
  obtain ⟨entries', ascending'⟩ := m'
  cases entries_eq_of_lookup ascending ascending' same
  rfl

end NameMap

end ObjectGraph
