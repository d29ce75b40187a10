import ObjectGraph.Proofs.Graph.Ranking
import ObjectGraph.Proofs.Graph.Renaming
import ObjectGraph.Proofs.Graph.Validity

/-
  A setup without one of its declarations.

  The other declarations give the same bindings, under other ids and from other indices but in one
  order.  `BindingTable.Omits` tells what becomes of each binding; `exists_omits` finds it for the
  registration of a setup.
-/

namespace ObjectGraph

namespace BindingTable

/-- The table `t'` has the bindings of the table `t` but those of one source; `f` tells what has
    become of each of them. -/
structure Omits (t t' : BindingTable) (source : Binding.Source) (f : Binding → Binding) : Prop where
  declared : t'.declared = (t.declared.filter (·.source ≠ source)).map f
  alike : ∀ {b}, b ∈ t.declared → b.source ≠ source → b.Alike (f b)
  compare_id : ∀ {b b'}, b ∈ t.declared → b' ∈ t.declared → b.source ≠ source →
    b'.source ≠ source → compare (f b).id (f b').id = compare b.id b'.id
  source : ∀ {b b'}, b ∈ t.declared → b' ∈ t.declared → b.source ≠ source → b'.source ≠ source →
    (b.source = b'.source ↔ (f b).source = (f b').source)

variable {s : Setup} {t t' : BindingTable} {d : Declaration}

/-! ## Registration -/

/-- The bindings of a declaration, under the ids from `first` on. -/
def bindingsOf (first : BindingId) (key : BindingKey) (index : Nat) (d : Declaration) :
    List Binding :=
  (contractsOf d).mapIdx fun place contract =>
    { id := first + place, key, source := .declared index, contract, tags := d.tags
      lifetime := d.lifetime.getD .transient, recipe := d.recipe, location := d.location
      specializes := none }

theorem declared_addDeclaration (t : BindingTable) (index : Nat) (d : Declaration) :
    ∃ key, (t.addDeclaration index d).declared =
      t.declared ++ bindingsOf t.declared.length key index d := by
  simp only [addDeclaration]
  split
  · rename_i none
    refine ⟨0, ?_⟩
    rw [bindingsOf, List.isEmpty_iff.mp none, List.mapIdx_nil, List.append_nil]
  · exact ⟨_, rfl⟩

theorem addDeclarations_append (front rest : List Declaration) : ∀ (t : BindingTable) (first : Nat),
    t.addDeclarations first (front ++ rest) =
      (t.addDeclarations first front).addDeclarations (first + front.length) rest := by
  induction front with
  | nil => exact fun _ _ => rfl
  | cons d front ih =>
    intro t first
    rw [List.cons_append, addDeclarations, ih, List.length_cons, Nat.add_right_comm,
      Nat.add_assoc first]
    rfl

/-- A registered binding comes from the declaration at some index. -/
theorem source_of_mem {ds : List Declaration} {b : Binding} :
    ∀ {t : BindingTable} {first : Nat}, b ∈ (t.addDeclarations first ds).declared →
      b ∈ t.declared ∨ ∃ j, first ≤ j ∧ j < first + ds.length ∧ b.source = .declared j := by
  induction ds with
  | nil => exact fun mem => .inl mem
  | cons d ds ih =>
    intro t first mem
    obtain mem | ⟨j, le, lt, source⟩ := ih mem
    · obtain ⟨key, declared⟩ := t.declared_addDeclaration first d
      rw [declared] at mem
      rcases List.mem_append.mp mem with mem | mem
      · exact .inl mem
      · obtain ⟨place, lt, rfl⟩ := List.mem_mapIdx.mp mem
        exact .inr ⟨first, Nat.le_refl _, by simp, rfl⟩
    · exact .inr ⟨j, Nat.le_of_succ_le le, by rw [List.length_cons]; omega, source⟩

/-- What a binding becomes when `count` bindings before it are left out, all of them from the
    declaration at an index before its own. -/
structure Shifts (count index : Nat) (b b' : Binding) : Prop where
  alike : b.Alike b'
  id : b.id = b'.id + count
  source : ∃ j, index ≤ j ∧ b.source = .declared (j + 1) ∧ b'.source = .declared j

theorem shifts_bindingsOf {first first' : BindingId} {key key' : BindingKey} {index count j : Nat}
    (le : index ≤ j) (ids : first = first' + count) (d : Declaration) :
    List.Forall₂ (Shifts count index) (bindingsOf first key (j + 1) d)
      (bindingsOf first' key' j d) := by
  refine List.forall₂_iff_get.mpr ⟨by simp [bindingsOf], fun i lt lt' => ?_⟩
  simp only [bindingsOf, List.get_eq_getElem, List.getElem_mapIdx]
  refine ⟨⟨rfl, rfl, rfl, rfl, rfl⟩, ?_, j, le, rfl, rfl⟩
  show first + i = first' + i + count
  rw [ids, Nat.add_right_comm]

/-- Later declarations are registered alike. -/
theorem addDeclarations_shifts {index : Nat} {front dropped : List Binding} (ds : List Declaration) :
    ∀ {t t' : BindingTable} {j : Nat} {back back' : List Binding}, index ≤ j →
      t.declared = front ++ (dropped ++ back) → t'.declared = front ++ back' →
      List.Forall₂ (Shifts dropped.length index) back back' →
      ∃ more more', (t.addDeclarations (j + 1) ds).declared = front ++ (dropped ++ more) ∧
        (t'.addDeclarations j ds).declared = front ++ more' ∧
        List.Forall₂ (Shifts dropped.length index) more more' := by
  induction ds with
  | nil => exact fun _ declared declared' shifts => ⟨_, _, declared, declared', shifts⟩
  | cons d ds ih =>
    intro t t' j back back' le declared declared' shifts
    obtain ⟨key, added⟩ := t.declared_addDeclaration (j + 1) d
    obtain ⟨key', added'⟩ := t'.declared_addDeclaration j d
    have ids : t.declared.length = t'.declared.length + dropped.length := by
      rw [declared, declared', List.length_append, List.length_append, List.length_append,
        shifts.length_eq]
      omega
    have new : List.Forall₂ (Shifts dropped.length index) (bindingsOf _ key (j + 1) d)
        (bindingsOf _ key' j d) := shifts_bindingsOf le ids d
    refine ih (Nat.le_succ_of_le le) ?_ ?_ (List.rel_append shifts new)
    · rw [added, declared, List.append_assoc, List.append_assoc]
    · rw [added', declared', List.append_assoc]

theorem Numbered.nodup (numbered : t.Numbered) : t.declared.Nodup := by
  have ids : t.declared.map (·.id) = List.range t.declared.length := by
    refine List.ext_getElem (by simp) fun i lt lt' => ?_
    rw [List.getElem_map, List.getElem_range]
    rw [List.length_map] at lt
    exact numbered i _ (List.getElem?_eq_getElem lt)
  exact List.Nodup.of_map (·.id) (ids ▸ List.nodup_range)

/-- A binding that stays when `count` bindings of the declaration at an index are left out, the first
    of them at the place `first`. -/
structure Stays (first count index : Nat) (b b' : Binding) : Prop where
  alike : b.Alike b'
  place : b.id < first ∧ b'.id = b.id ∨ first ≤ b'.id ∧ b.id = b'.id + count
  source : (∃ j < index, b.source = .declared j ∧ b'.source = .declared j) ∨
    ∃ j, index ≤ j ∧ b.source = .declared (j + 1) ∧ b'.source = .declared j

/-- What moves up keeps its order. -/
theorem compare_shift {i i' j j' first count : Nat}
    (place : i < first ∧ j = i ∨ first ≤ j ∧ i = j + count)
    (place' : i' < first ∧ j' = i' ∨ first ≤ j' ∧ i' = j' + count) :
    compare j j' = compare i i' := by
  rw [Nat.compare_eq_ite_lt, Nat.compare_eq_ite_lt]
  split_ifs <;> first | rfl | omega

/-- The tables `t` and `t'` have the same bindings in front; `t` has those of the declaration at an
    index between them and the rest. -/
structure Splits (t t' : BindingTable) (index : Nat) (early dropped later later' : List Binding) :
    Prop where
  declared : t.declared = early ++ (dropped ++ later)
  declared' : t'.declared = early ++ later'
  before : ∀ b ∈ early, ∃ j < index, b.source = .declared j
  at_index : ∀ b ∈ dropped, b.source = .declared index
  shifts : List.Forall₂ (Shifts dropped.length index) later later'

theorem exists_splits {front back : List Declaration}
    (declared : s.declarations = front ++ d :: back) :
    ∃ early dropped later later', Splits (register s)
      (register { s with declarations := front ++ back }) front.length early dropped later later' := by
  set early := addDeclarations {} 0 front
  obtain ⟨key, added⟩ := early.declared_addDeclaration front.length d
  set dropped := bindingsOf early.declared.length key front.length d
  have split : (early.addDeclaration front.length d).declared = early.declared ++ (dropped ++ []) :=
    added.trans (by rw [List.append_nil])
  have split' : early.declared = early.declared ++ [] := (List.append_nil _).symm
  obtain ⟨later, later', split, split', shifts⟩ :=
    addDeclarations_shifts back (Nat.le_refl front.length) split split' .nil
  have table : register s =
      (early.addDeclaration front.length d).addDeclarations (front.length + 1) back := by
    show addDeclarations {} 0 s.declarations = _
    rw [declared, addDeclarations_append, Nat.zero_add]
    rfl
  have table' : register { s with declarations := front ++ back } =
      early.addDeclarations front.length back := by
    show addDeclarations {} 0 (front ++ back) = _
    rw [addDeclarations_append, Nat.zero_add]
  rw [← table] at split
  rw [← table'] at split'
  refine ⟨early.declared, dropped, later, later', split, split', fun b mem => ?_, fun b mem => ?_,
    shifts⟩
  · obtain mem | ⟨j, -, lt, source⟩ := source_of_mem mem
    · cases mem
    · exact ⟨j, Nat.zero_add front.length ▸ lt, source⟩
  · obtain ⟨place, lt, rfl⟩ := List.mem_mapIdx.mp mem
    rfl

section Splits

variable {index : Nat} {early dropped later later' : List Binding}
  (splits : Splits t t' index early dropped later later')
include splits

/-- Only the bindings of that declaration are dropped. -/
theorem Splits.kept : t.declared.filter (·.source ≠ .declared index) = early ++ later := by
  have keeps {bs : List Binding} (other : ∀ b ∈ bs, b.source ≠ .declared index) :
      bs.filter (·.source ≠ .declared index) = bs :=
    List.filter_eq_self.mpr fun b mem => decide_eq_true (other b mem)
  have drops : dropped.filter (·.source ≠ .declared index) = [] :=
    List.filter_eq_nil_iff.mpr fun b mem => by simp [splits.at_index b mem]
  rw [splits.declared, List.filter_append, List.filter_append, drops, List.nil_append, keeps, keeps]
  · intro b mem
    obtain ⟨b', -, -, -, j, le, source, -⟩ := forall₂_left splits.shifts mem
    rw [source]
    intro same
    injection same with same
    omega
  · intro b mem
    obtain ⟨j, lt, source⟩ := splits.before b mem
    rw [source]
    intro same
    injection same with same
    omega

/-- The others stay, at their places in front or further up. -/
theorem Splits.stays (numbered : t.Numbered) : List.Forall₂ (Stays early.length dropped.length index)
    (t.declared.filter (·.source ≠ .declared index)) t'.declared := by
  rw [splits.kept, splits.declared']
  refine List.rel_append (List.forall₂_same.mpr fun b mem => ?_) ?_
  · obtain ⟨j, before, source⟩ := splits.before b mem
    obtain ⟨i, lt, rfl⟩ := List.mem_iff_getElem.mp mem
    have at_i : t.declared[i]? = some early[i] := by
      rw [splits.declared, List.getElem?_append_left lt, List.getElem?_eq_getElem lt]
    refine ⟨.refl _, .inl ⟨?_, rfl⟩, .inl ⟨j, before, source, source⟩⟩
    rw [numbered i _ at_i]
    exact lt
  · have behind : ∀ b ∈ later, early.length + dropped.length ≤ b.id := by
      intro b mem
      obtain ⟨i, lt, rfl⟩ := List.mem_iff_getElem.mp mem
      have at_i : t.declared[early.length + dropped.length + i]? = some later[i] := by
        rw [splits.declared, ← List.append_assoc, ← List.length_append,
          List.getElem?_append_right (by omega), Nat.add_sub_cancel_left, List.getElem?_eq_getElem lt]
      rw [numbered _ _ at_i]
      exact Nat.le_add_right _ _
    refine ((List.forall₂_and_left _ _).mpr ⟨behind, splits.shifts⟩).imp fun b b' ⟨le, shifts⟩ => ?_
    have first : early.length ≤ b'.id :=
      Nat.le_of_add_le_add_right (shifts.id ▸ le : _ ≤ b'.id + dropped.length)
    exact ⟨shifts.alike, .inr ⟨first, shifts.id⟩, .inr shifts.source⟩

end Splits

/-- Leaving out a declaration leaves out its bindings. -/
theorem exists_omits {front back : List Declaration} (declared : s.declarations = front ++ d :: back) :
    ∃ f, (register s).Omits (register { s with declarations := front ++ back })
      (.declared front.length) f := by
  obtain ⟨early, dropped, later, later', splits⟩ := exists_splits declared
  have numbered := numbered_register s
  obtain ⟨f, declared', each⟩ :=
    exists_map_of_rel (splits.stays numbered) (numbered.nodup.filter _)
  have stay {b : Binding} (mem : b ∈ (register s).declared)
      (other : b.source ≠ .declared front.length) :
      Stays early.length dropped.length front.length b (f b) :=
    each b (List.mem_filter.mpr ⟨mem, decide_eq_true other⟩)
  refine ⟨f, declared', fun mem other => (stay mem other).alike, fun mem mem' other other' => ?_,
    fun mem mem' other other' => ?_⟩
  · exact compare_shift (stay mem other).place (stay mem' other').place
  · -- each of the two is declared before the declaration that is left out, or after it
    obtain ⟨j, lt, source, source'⟩ | ⟨j, le, source, source'⟩ := (stay mem other).source <;>
      obtain ⟨i, lt', target, target'⟩ | ⟨i, le', target, target'⟩ := (stay mem' other').source <;>
      rw [source, source', target, target'] <;> simp <;> omega

end BindingTable

end ObjectGraph
