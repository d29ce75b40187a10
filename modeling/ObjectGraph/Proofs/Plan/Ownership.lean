import ObjectGraph.Proofs.Graph.Members
import ObjectGraph.Proofs.Graph.Ranking
import ObjectGraph.Proofs.Plan.Assembly
import ObjectGraph.Proofs.Plan.Parts

/-
  Which argument goes to which part of a constructed instance.

  An assembly counts through the slots of a construction while it takes the arguments of an
  instantiation, also where it leaves a member out.  So the members it lists are those that have
  arguments (`Assembly.exists_use_iff`), and over all of them it passes the argument of each slot to
  the part that owns the slot (`Assembly.passed_perm`).

  Members are put in order by their ordinals and then by their positions, which are given to fields
  and properties when the node is built and to methods here.  Together they are the places in which
  the members stand, and so the order is strict (`Assembly.pairwise_before`).
-/

namespace ObjectGraph

variable {c : Construction} {methods : List InjectedCall} {part : Part} {first slot index : Nat}

/-! ## What goes where -/

namespace MemberUse

/-- The member is to be supplied together with the constructor call. -/
def isRequired (c : Construction) : MemberUse → Bool
  | .field k _ => (c.fields[k]?).any (·.isRequired)
  | .property k _ => (c.properties[k]?).any (·.isRequired)
  | .method _ _ => false

/-- The ordinal of the member. -/
def ordinal? (c : Construction) : MemberUse → Option Int
  | .field k _ => (c.fields[k]?).bind (·.ordinal)
  | .property k _ => (c.properties[k]?).bind (·.ordinal)
  | .method k _ => (c.methods[k]?).bind (·.ordinal)

/-- The use hands a member of the construction what is supplied for its slots.  A field or property
    has to have a variable, while the arguments of a method may have holes. -/
def Serves (c : Construction) (supplied : Nat → Option VariableId) : MemberUse → Prop
  | .field k v => ∃ slot, c.parts[slot]? = some (.field k) ∧ supplied slot = some v
  | .property k v => ∃ slot, c.parts[slot]? = some (.property k) ∧ supplied slot = some v
  | .method k arguments => ∃ m, c.methods[k]? = some m ∧
    arguments.length = m.parameters.length ∧ ∀ slot j, c.parts[slot]? = some (.argument k j) →
      arguments[j]? = some (supplied slot)

end MemberUse

namespace Assembly

variable {supplied : Nat → Option VariableId} {earlier : Nat} {u : RankedUse} {x : MemberUse}

/-- Arguments are in the order of the slots. -/
theorem getElem?_arguments {count k : Nat} (lt : k < count) :
    (arguments supplied first count)[k]? = some (supplied (first + k)) := by
  rw [arguments, List.getElem?_map, List.getElem?_range' lt, Nat.one_mul]
  rfl

theorem length_arguments (count : Nat) : (arguments supplied first count).length = count := by
  rw [arguments, List.length_map, List.length_range']

/-- A method is called with the arguments behind those of the methods before it. -/
theorem mem_methodUses : u ∈ methodUses supplied earlier first index methods ↔
    ∃ k m, methods[k]? = some m ∧
      u = { isRequired := false, ordinal := m.ordinal, position := earlier + (index + k),
            use := .method (index + k) (arguments supplied
              (first + InjectedCall.offset methods k) m.parameters.length) } := by
  induction methods generalizing first index with
  | nil => simp [methodUses]
  | cons m rest ih =>
    rw [methodUses, List.mem_cons, ih]
    constructor
    · rintro (rfl | ⟨k, m', at_k, rfl⟩)
      · exact ⟨0, m, rfl, rfl⟩
      · refine ⟨k + 1, m', at_k, ?_⟩
        rw [InjectedCall.offset_succ, Nat.add_assoc index, Nat.add_comm 1 k, Nat.add_assoc first]
    · rintro ⟨k, m', at_k, rfl⟩
      cases k with
      | zero =>
        cases at_k
        exact .inl rfl
      | succ k =>
        refine .inr ⟨k, m', at_k, ?_⟩
        rw [InjectedCall.offset_succ, Nat.add_assoc index, Nat.add_comm 1 k, Nat.add_assoc first]

/-- The arguments of a method are told by what serves its parameters. -/
theorem serves_method_iff {k : Nat} {args : List (Option VariableId)} :
    (MemberUse.method k args).Serves c supplied ↔ ∃ m, c.methods[k]? = some m ∧
      args = arguments supplied (c.constructor.parameters.length + c.fields.length +
        c.properties.length + InjectedCall.offset c.methods k) m.parameters.length := by
  refine exists_congr fun m => and_congr_right fun at_k => ?_
  constructor
  · rintro ⟨length, each⟩
    refine List.ext_getElem? fun j => ?_
    by_cases lt : j < m.parameters.length
    · rw [getElem?_arguments lt]
      exact each _ j (Construction.getElem?_parts.mpr ⟨m, at_k, lt, rfl⟩)
    · rw [List.getElem?_eq_none (by omega),
        List.getElem?_eq_none (by rw [length_arguments]; omega)]
  · rintro rfl
    refine ⟨length_arguments _, fun slot j owned => ?_⟩
    obtain ⟨m', at_k', lt, rfl⟩ := Construction.getElem?_parts.mp owned
    cases at_k.symm.trans at_k'
    exact getElem?_arguments lt

/-- A member is set if its slot is supplied. -/
theorem exists_memberUse_iff {use : Nat → VariableId → MemberUse} {members : List InjectedMember} :
    (∃ u ∈ memberUses supplied first use members, u.use = x) ↔
      ∃ k v, k < members.length ∧ supplied (first + k) = some v ∧ use k v = x := by
  simp only [mem_memberUses]
  constructor
  · rintro ⟨_, ⟨k, m, v, at_k, found, rfl⟩, eq⟩
    exact ⟨k, v, (List.getElem?_eq_some_iff.mp at_k).1, found, eq⟩
  · rintro ⟨k, v, lt, found, eq⟩
    exact ⟨_, ⟨k, _, v, List.getElem?_eq_getElem lt, found, rfl⟩, eq⟩

/-- The uses of members are those that serve them. -/
theorem exists_use_iff : (∃ u ∈ uses supplied c, u.use = x) ↔ x.Serves c supplied := by
  simp only [uses, List.mem_append, or_and_right, exists_or, exists_memberUse_iff]
  simp only [mem_methodUses, Nat.zero_add]
  cases x with
  | field k v => simp [MemberUse.Serves, Construction.getElem?_parts, Part.Owns]
  | property k v => simp [MemberUse.Serves, Construction.getElem?_parts, Part.Owns]
  | method k args =>
    rw [serves_method_iff]
    simp only [reduceCtorEq, and_false, exists_false, false_or]
    constructor
    · rintro ⟨_, ⟨k', m, at_k, rfl⟩, use⟩
      cases use
      exact ⟨m, at_k, rfl⟩
    · rintro ⟨m, at_k, rfl⟩
      exact ⟨_, ⟨k, m, at_k, rfl⟩, rfl⟩

end Assembly

/-! ## The order of injection -/

namespace MemberUse

/-- Of two members, fields come in front of properties and these in front of methods, and members of
    one kind stand in their order. -/
def InFront : MemberUse → MemberUse → Prop
  | .field k _, .field k' _ => k < k'
  | .field _ _, _ => True
  | .property k _, .property k' _ => k < k'
  | .property _ _, .method _ _ => True
  | .method k _, .method k' _ => k < k'
  | _, _ => False

/-- The order of injection: by ordinal, members without one last. -/
def Before (c : Construction) (x y : MemberUse) : Prop :=
  match x.ordinal? c, y.ordinal? c with
  | some i, some j => i < j ∨ i = j ∧ x.InFront y
  | some _, none => True
  | none, some _ => False
  | none, none => x.InFront y

/-- The place of a member among all of them. -/
def place (c : Construction) : MemberUse → Nat
  | .field k _ => k
  | .property k _ => c.fields.length + k
  | .method k _ => c.fields.length + c.properties.length + k

/-- What is placed before is in front. -/
theorem inFront_of_place {supplied : Nat → Option VariableId} {x y : MemberUse}
    (serves : y.Serves c supplied) (lt : x.place c < y.place c) : x.InFront y := by
  cases y with
  | field k v =>
    obtain ⟨slot, owned, -⟩ := serves
    have inside := (Construction.getElem?_parts.mp owned).1
    cases x <;> simp only [place] at lt <;> first | exact lt | omega
  | property k v =>
    obtain ⟨slot, owned, -⟩ := serves
    have inside := (Construction.getElem?_parts.mp owned).1
    cases x with
    | field => trivial
    | property k' => exact Nat.lt_of_add_lt_add_left lt
    | method k' => simp only [place] at lt; omega
  | method k args =>
    cases x with
    | field => trivial
    | property => trivial
    | method k' => exact Nat.lt_of_add_lt_add_left lt

end MemberUse

namespace RankedUse

instance : Std.TransCmp cmp :=
  inferInstanceAs <| Std.TransCmp <| compareLex (compareOn fun u : RankedUse => u.ordinal.isNone) <|
    compareLex (compareOn fun u : RankedUse => u.ordinal) (compareOn fun u : RankedUse => u.position)

/-- Ordinals come first, then positions. -/
theorem isLE_cmp_iff {u u' : RankedUse} : (u.cmp u').isLE = true ↔
    match u.ordinal, u'.ordinal with
    | some i, some j => i < j ∨ i = j ∧ u.position ≤ u'.position
    | some _, none => True
    | none, some _ => False
    | none, none => u.position ≤ u'.position := by
  unfold cmp
  rw [Ordering.isLE_then_iff_or, Ordering.isLE_then_iff_or, Nat.isLE_compare]
  cases u.ordinal with
  | none => cases u'.ordinal <;> simp [compare]
  | some i =>
    cases u'.ordinal with
    | none => simp [compare]
    | some j =>
      have same : compare (some i) (some j) = compare i j := rfl
      simp [same, Int.compare_eq_lt]

/-- Uses at different places are put in a strict order. -/
theorem pairwise_inOrder {uses : List RankedUse} {R : MemberUse → MemberUse → Prop}
    (placed : uses.Pairwise fun u u' => u.position < u'.position)
    (each : ∀ u ∈ uses, ∀ u' ∈ uses, (u.cmp u').isLE = true → u.position ≠ u'.position →
      R u.use u'.use) : (inOrder uses).Pairwise R := by
  have sorted : (uses.mergeSort fun u u' => u.cmp u' != .gt).Pairwise
      fun u u' => (u.cmp u' != .gt) = true := by
    refine List.pairwise_mergeSort (fun u u' u'' => ?_) (fun u u' => ?_) _
    · simp only [ne_gt_eq_isLE]
      exact Std.TransCmp.isLE_trans
    · rw [ne_gt_eq_isLE, ne_gt_eq_isLE, @Std.OrientedCmp.eq_swap _ cmp _ u u']
      cases u'.cmp u <;> rfl
  have apart : (uses.mergeSort fun u u' => u.cmp u' != .gt).Pairwise
      fun u u' => u.position ≠ u'.position :=
    ((List.mergeSort_perm _ _).pairwise_iff Ne.symm).mpr (placed.imp Nat.ne_of_lt)
  rw [inOrder, List.pairwise_map]
  refine (sorted.and apart).imp_of_mem fun u_mem u'_mem both => ?_
  obtain ⟨ahead, ne⟩ := both
  rw [ne_gt_eq_isLE] at ahead
  exact each _ (List.mem_mergeSort.mp u_mem) _ (List.mem_mergeSort.mp u'_mem) ahead ne

end RankedUse

namespace Assembly

variable {supplied : Nat → Option VariableId} {earlier : Nat} {u u' : RankedUse}

/-- A use is ranked by what the member says. -/
theorem ranked_of_mem (numbered : c.Numbered) (mem : u ∈ uses supplied c) :
    u.isRequired = u.use.isRequired c ∧ u.ordinal = u.use.ordinal? c ∧
      u.position = u.use.place c := by
  simp only [uses, List.mem_append, mem_memberUses, mem_methodUses, Nat.zero_add] at mem
  rcases mem with (⟨k, m, v, at_k, -, rfl⟩ | ⟨k, m, v, at_k, -, rfl⟩) | ⟨k, m, at_k, rfl⟩
  · simp [MemberUse.isRequired, MemberUse.ordinal?, MemberUse.place, at_k, numbered.field k m at_k]
  · simp [MemberUse.isRequired, MemberUse.ordinal?, MemberUse.place, at_k,
      numbered.property k m at_k]
  · simp [MemberUse.isRequired, MemberUse.ordinal?, MemberUse.place, at_k]

theorem before_of_isLE (numbered : c.Numbered) (mem : u ∈ uses supplied c)
    (mem' : u' ∈ uses supplied c) (ahead : (u.cmp u').isLE = true)
    (ne : u.position ≠ u'.position) : u.use.Before c u'.use := by
  obtain ⟨-, ordinal, position⟩ := ranked_of_mem numbered mem
  obtain ⟨-, ordinal', position'⟩ := ranked_of_mem numbered mem'
  have front (le : u.position ≤ u'.position) : u.use.InFront u'.use := by
    refine MemberUse.inFront_of_place (exists_use_iff.mp ⟨u', mem', rfl⟩) ?_
    rw [← position, ← position']
    exact Nat.lt_of_le_of_ne le ne
  rw [RankedUse.isLE_cmp_iff] at ahead
  rw [MemberUse.Before, ← ordinal, ← ordinal']
  revert ahead
  cases u.ordinal with
  | none =>
    cases u'.ordinal with
    | none => exact front
    | some j => exact id
  | some i =>
    cases u'.ordinal with
    | none => exact id
    | some j => exact Or.imp_right (And.imp_right front)

/-- Members are listed by their positions ... -/
theorem pairwise_memberUses {use : Nat → VariableId → MemberUse} {members : List InjectedMember}
    {base : Nat} (placed : ∀ (k : Nat) m, members[k]? = some m → m.position = base + k) :
    (memberUses supplied first use members).Pairwise fun u u' => u.position < u'.position := by
  have ascending : members.Pairwise fun m m' => m.position < m'.position := by
    refine List.pairwise_iff_getElem.mpr fun i j i_lt j_lt lt => ?_
    rw [placed i _ (List.getElem?_eq_getElem i_lt), placed j _ (List.getElem?_eq_getElem j_lt)]
    omega
  rw [← List.zipIdx_map_fst 0 members, List.pairwise_map] at ascending
  refine ascending.filterMap _ fun x y lt u eq u' eq' => ?_
  obtain ⟨v, -, rfl⟩ := Option.map_eq_some_iff.mp eq
  obtain ⟨v', -, rfl⟩ := Option.map_eq_some_iff.mp eq'
  exact lt

/-- ... and so are methods. -/
theorem pairwise_methodUses : ∀ {methods : List InjectedCall} {first index : Nat},
    (methodUses supplied earlier first index methods).Pairwise
      fun u u' => u.position < u'.position
  | [], _, _ => .nil
  | m :: rest, first, index => by
    refine List.pairwise_cons.mpr ⟨fun u mem => ?_, pairwise_methodUses⟩
    obtain ⟨k, m', -, rfl⟩ := mem_methodUses.mp mem
    show earlier + index < earlier + (index + 1 + k)
    omega

/-- Uses are listed in the order of their places. -/
theorem pairwise_uses (numbered : c.Numbered) :
    (uses supplied c).Pairwise fun u u' => u.position < u'.position := by
  have fields : ∀ (k : Nat) m, c.fields[k]? = some m → m.position = 0 + k :=
    fun k m at_k => (numbered.field k m at_k).trans (Nat.zero_add k).symm
  refine List.pairwise_append.mpr ⟨List.pairwise_append.mpr
    ⟨pairwise_memberUses fields, pairwise_memberUses numbered.property, fun u mem u' mem' => ?_⟩,
    pairwise_methodUses, fun u mem u' mem' => ?_⟩
  · obtain ⟨k, m, v, at_k, -, rfl⟩ := mem_memberUses.mp mem
    obtain ⟨k', m', v', at_k', -, rfl⟩ := mem_memberUses.mp mem'
    have lt := (List.getElem?_eq_some_iff.mp at_k).1
    show m.position < m'.position
    rw [numbered.field k m at_k, numbered.property k' m' at_k']
    omega
  · obtain ⟨k', m', -, rfl⟩ := mem_methodUses.mp mem'
    show u.position < c.fields.length + c.properties.length + (0 + k')
    rcases List.mem_append.mp mem with mem | mem
    · obtain ⟨k, m, v, at_k, -, rfl⟩ := mem_memberUses.mp mem
      have lt := (List.getElem?_eq_some_iff.mp at_k).1
      show m.position < _
      rw [numbered.field k m at_k]
      omega
    · obtain ⟨k, m, v, at_k, -, rfl⟩ := mem_memberUses.mp mem
      have lt := (List.getElem?_eq_some_iff.mp at_k).1
      show m.position < _
      rw [numbered.property k m at_k]
      omega

/-- Whatever part of the uses is put in order, it is in the order of injection. -/
theorem pairwise_before (numbered : c.Numbered) (p : RankedUse → Bool) :
    (RankedUse.inOrder ((uses supplied c).filter p)).Pairwise (MemberUse.Before c) :=
  RankedUse.pairwise_inOrder ((pairwise_uses numbered).filter p) fun _ mem _ mem' =>
    before_of_isLE numbered (List.mem_filter.mp mem).1 (List.mem_filter.mp mem').1

end Assembly

/-! ## All that is passed -/

/-- The arguments that are there, with the parts that they go to. -/
def Part.given (part : Nat → Part) (arguments : List (Option VariableId)) :
    List (Part × VariableId) :=
  arguments.zipIdx.filterMap fun (x, k) => x.map (part k, ·)

/-- What a use passes to the parts of a member. -/
def MemberUse.passed : MemberUse → List (Part × VariableId)
  | .field k v => [(.field k, v)]
  | .property k v => [(.property k, v)]
  | .method k arguments => Part.given (.argument k) arguments

/-- What an assembly passes on, with the parts that it goes to. -/
def Assembly.passed (as : Assembly) : List (Part × VariableId) :=
  Part.given .parameter as.constructor ++ (as.required ++ as.post).flatMap MemberUse.passed

/-- What is supplied for parts whose slots are numbered from `first` on. -/
def Part.owned (supplied : Nat → Option VariableId) (first : Nat) (parts : List Part) :
    List (Part × VariableId) :=
  (parts.zipIdx first).filterMap fun (part, slot) => (supplied slot).map (part, ·)

section Passed

variable {supplied : Nat → Option VariableId} {earlier : Nat}

theorem Part.owned_append (parts more : List Part) : owned supplied first (parts ++ more) =
    owned supplied first parts ++ owned supplied (first + parts.length) more := by
  rw [owned, List.zipIdx_append, List.filterMap_append]
  rfl

theorem Part.owned_range (part : Nat → Part) (count : Nat) :
    owned supplied first ((List.range count).map part) =
      (List.range count).filterMap fun k => (supplied (first + k)).map (part k, ·) := by
  have places : ((List.range count).map part).zipIdx first =
      (List.range count).map fun k => (part k, first + k) :=
    List.ext_getElem (by simp) fun k lt lt' => by simp
  rw [owned, places, List.filterMap_map]
  rfl

theorem Part.given_arguments (part : Nat → Part) (count : Nat) :
    given part (Assembly.arguments supplied first count) =
      owned supplied first ((List.range count).map part) := by
  have places : (Assembly.arguments supplied first count).zipIdx =
      (List.range count).map fun k => (supplied (first + k), k) :=
    List.ext_getElem (by simp [Assembly.length_arguments]) fun k lt lt' => by
      simp [Assembly.arguments]
  rw [owned_range, given, places, List.filterMap_map]
  rfl

namespace Assembly

/-- Each member is passed what its slot is supplied with ... -/
theorem passed_memberUses {use : Nat → VariableId → MemberUse} {part : Nat → Part}
    (passes : ∀ k v, (use k v).passed = [(part k, v)]) (members : List InjectedMember) :
    (memberUses supplied first use members).flatMap (·.use.passed) =
      Part.owned supplied first ((List.range members.length).map part) := by
  have single : ∀ x : InjectedMember × Nat, (((supplied (first + x.2)).map fun var =>
      { isRequired := x.1.isRequired, ordinal := x.1.ordinal, position := x.1.position,
        use := use x.2 var : RankedUse}).toList.flatMap (·.use.passed)) =
      ((supplied (first + x.2)).map (part x.2, ·)).toList := by
    rintro ⟨m, k⟩
    cases supplied (first + k) with
    | none => rfl
    | some v => simp [passes]
  rw [Part.owned_range, List.range_eq_range', ← List.zipIdx_map_snd 0 members, List.filterMap_map,
    List.filterMap_eq_flatMap_toList, memberUses, List.filterMap_eq_flatMap_toList, List.flatMap_assoc]
  exact List.flatMap_congr fun x _ => single x

/-- ... and each parameter of a method is. -/
theorem passed_methodUses : ∀ {methods : List InjectedCall} {first index : Nat},
    (methodUses supplied earlier first index methods).flatMap (·.use.passed) =
      Part.owned supplied first (Part.ofMethods index methods)
  | [], _, _ => rfl
  | m :: rest, first, index => by
    rw [methodUses, List.flatMap_cons, passed_methodUses, Part.ofMethods, Part.owned_append,
      List.length_map, List.length_range, ← Part.given_arguments]
    rfl

theorem passed_uses : (uses supplied c).flatMap (·.use.passed) =
    Part.owned supplied c.constructor.parameters.length
      (((List.range c.fields.length).map .field ++ (List.range c.properties.length).map .property) ++
        Part.ofMethods 0 c.methods) := by
  rw [uses, List.flatMap_append, List.flatMap_append, Part.owned_append, Part.owned_append,
    passed_memberUses (fun _ _ => rfl), passed_memberUses (fun _ _ => rfl), passed_methodUses]
  simp only [List.length_append, List.length_map, List.length_range, Nat.add_assoc]

/-- An assembly passes to each part what is supplied for its slot, and nothing else. -/
theorem passed_perm (c : Construction) (supplied : Nat → Option VariableId) :
    (of c supplied).passed.Perm (Part.owned supplied 0 c.parts) := by
  have members : ((of c supplied).required ++ (of c supplied).post).Perm
      ((uses supplied c).map (·.use)) := by
    have each (l : List RankedUse) : (RankedUse.inOrder l).Perm (l.map (·.use)) :=
      (List.mergeSort_perm _ _).map _
    refine ((each _).append (each _)).trans ?_
    rw [← List.map_append]
    exact (List.filter_append_perm _ _).map _
  have passed := members.flatMap_right MemberUse.passed
  rw [List.flatMap_map, passed_uses] at passed
  refine (passed.append_left _).trans (.of_eq ?_)
  simp only [of, Part.given_arguments, Construction.parts, List.append_assoc, Part.owned_append,
    List.length_map, List.length_range, Nat.zero_add]

end Assembly

end Passed

/-! ## Arguments of an instantiation -/

/-- With one supply for a slot at most, it is the one that counts. -/
theorem Instantiation.supplied?_eq_some_iff {i : Instantiation}
    (once : (i.supplies.map (·.slot)).Nodup) {v : VariableId} :
    i.supplied? slot = some v ↔ ∃ s ∈ i.supplies, s.slot = slot ∧ s.var = v := by
  rw [supplied?, Option.map_eq_some_iff]
  constructor
  · rintro ⟨s, found, var⟩
    exact ⟨s, List.mem_of_find?_eq_some found, by simpa using List.find?_some found, var⟩
  · rintro ⟨s, mem, rfl, rfl⟩
    obtain ⟨s', found⟩ : ∃ s', i.supplies.find? (·.slot == s.slot) = some s' :=
      Option.isSome_iff_exists.mp (List.find?_isSome.mpr ⟨s, mem, beq_self_eq_true _⟩)
    have same : s'.slot = s.slot := by simpa using List.find?_some found
    exact ⟨s', found, by
      rw [List.inj_on_of_nodup_map once (List.mem_of_find?_eq_some found) mem same]⟩

/-- A part owns what is supplied in its slot. -/
theorem Part.mem_owned {supplied : Nat → Option VariableId} {parts : List Part} {v : VariableId} :
    (part, v) ∈ owned supplied 0 parts ↔
      ∃ slot : Nat, parts[slot]? = some part ∧ supplied slot = some v := by
  simp [owned, List.mem_zipIdx_iff_getElem?]

theorem Part.owned_sublist (supplied : Nat → Option VariableId) (parts : List Part) :
    ((owned supplied first parts).map Prod.fst).Sublist parts := by
  induction parts generalizing first with
  | nil => exact .slnil
  | cons p rest ih =>
    rw [owned, List.zipIdx_cons, List.filterMap_cons]
    dsimp only
    cases supplied first with
    | none => exact ih.cons p
    | some v => exact ih.cons_cons p

/-- What is supplied for the parts is what the instantiation is handed, with the owners of the
    slots. -/
theorem Part.owned_perm {i : Instantiation} (once : (i.supplies.map (·.slot)).Nodup)
    (inside : ∀ s ∈ i.supplies, s.slot < c.requestCount) :
    ((owned i.supplied? 0 c.parts).map fun x => (some x.1, x.2)).Perm
      (i.supplies.map fun s => (c.parts[s.slot]?, s.var)) := by
  have owner {s : Supply} (mem : s ∈ i.supplies) : ∃ part, c.parts[s.slot]? = some part :=
    ⟨_, List.getElem?_eq_getElem (c.length_parts ▸ inside s mem)⟩
  refine (List.perm_ext_iff_of_nodup ?_ ?_).mpr ?_
  · refine List.Nodup.of_map Prod.fst ?_
    rw [List.map_map, show Prod.fst ∘ (fun x : Part × VariableId => (some x.1, x.2)) =
      some ∘ Prod.fst from rfl, ← List.map_map]
    exact (c.parts_nodup.sublist (owned_sublist _ _)).map fun _ _ => Option.some.inj
  · refine List.Nodup.of_map Prod.fst ?_
    rw [List.map_map]
    refine (List.Nodup.of_map _ once).map_on fun s mem s' mem' same => ?_
    -- a part owns one slot, and there is one supply for it
    obtain ⟨part, at_s⟩ := owner mem
    refine List.inj_on_of_nodup_map once mem mem' ?_
    have same : c.parts[s.slot]? = c.parts[s'.slot]? := same
    exact (List.getElem?_inj (List.getElem?_eq_some_iff.mp at_s).1 c.parts_nodup).mp same
  · rintro ⟨owner?, v⟩
    simp only [List.mem_map, Prod.mk.injEq, Prod.exists, mem_owned,
      Instantiation.supplied?_eq_some_iff once]
    constructor
    · rintro ⟨part, _, ⟨_, at_slot, s, mem, rfl, rfl⟩, rfl, rfl⟩
      exact ⟨s, mem, at_slot, rfl⟩
    · rintro ⟨s, mem, rfl, rfl⟩
      obtain ⟨part, at_s⟩ := owner mem
      exact ⟨part, s.var, ⟨s.slot, at_s, s, mem, rfl, rfl⟩, at_s.symm, rfl⟩

/-- The assembly passes what the instantiation is handed to the parts of the construction. -/
structure Assembly.Passes (c : Construction) (i : Instantiation) (as : Assembly) : Prop where
  /-- All that is handed out is passed once, to the part that owns the slot, and nothing else is. -/
  perm : (as.passed.map fun x => (some x.1, x.2)).Perm
    (i.supplies.map fun s => (c.parts[s.slot]?, s.var))
  length : as.constructor.length = c.constructor.parameters.length
  constructor : ∀ slot k, c.parts[slot]? = some (.parameter k) →
    as.constructor[k]? = some (i.supplied? slot)
  required : ∀ x, x ∈ as.required ↔ x.Serves c i.supplied? ∧ x.isRequired c = true
  post : ∀ x, x ∈ as.post ↔ x.Serves c i.supplied? ∧ x.isRequired c = false
  /-- No member comes twice, and all come in the order of injection. -/
  required_ordered : as.required.Pairwise (MemberUse.Before c)
  post_ordered : as.post.Pairwise (MemberUse.Before c)

theorem Assembly.passes_of (numbered : c.Numbered) {i : Instantiation}
    (once : (i.supplies.map (·.slot)).Nodup) (inside : ∀ s ∈ i.supplies, s.slot < c.requestCount) :
    (of c i.supplied?).Passes c i := by
  have members (keeps : RankedUse → Bool) {required : Bool}
      (same : ∀ u : RankedUse, keeps u = true ↔ u.isRequired = required) (x : MemberUse) :
      x ∈ RankedUse.inOrder ((uses i.supplied? c).filter keeps) ↔
        x.Serves c i.supplied? ∧ x.isRequired c = required := by
    rw [mem_inOrder, ← exists_use_iff]
    simp only [List.mem_filter, same]
    constructor
    · rintro ⟨u, ⟨mem, kept⟩, rfl⟩
      exact ⟨⟨u, mem, rfl⟩, (ranked_of_mem numbered mem).1 ▸ kept⟩
    · rintro ⟨⟨u, mem, rfl⟩, kept⟩
      exact ⟨u, ⟨mem, (ranked_of_mem numbered mem).1.trans kept⟩, rfl⟩
  exact {
    perm := ((passed_perm c i.supplied?).map _).trans (Part.owned_perm once inside)
    length := length_arguments _
    constructor := fun slot k owned => by
      obtain ⟨lt, rfl⟩ := Construction.getElem?_parts.mp owned
      exact (getElem?_arguments lt).trans (by rw [Nat.zero_add])
    required := members _ fun u => Iff.rfl
    post := members _ fun u => by rw [Bool.not_eq_true']
    required_ordered := pairwise_before numbered _
    post_ordered := pairwise_before numbered _ }

/-- For each construction that a binding gives: it is made of members of the class, the slots of its
    node belong to its parts, and whatever instantiation with one argument for a slot at most is
    assembled, each part gets what there is for its slot. -/
theorem Node.assembly_passes {rules : List AttributeRule} {canAnswer : Request → Bool}
    {start : NodeId} {b : Binding} {nodes : List Node}
    (built : Node.build rules canAnswer start b = .ok nodes) {n : Node} (mem : n ∈ nodes)
    (kind : n.kind = .construct c) {i : Instantiation} (once : (i.supplies.map (·.slot)).Nodup)
    (inside : ∀ s ∈ i.supplies, s.slot < c.requestCount) :
    (∃ cls, b.recipe = .construct cls ∧ c.Declared ⟨rules, cls.type, b.location⟩ cls) ∧
      c.OwnsSlots n.slots ∧ (Assembly.of c i.supplied?).Passes c i := by
  obtain ⟨cls, recipe, declared⟩ := declared_of_build built mem kind
  exact ⟨⟨cls, recipe, declared⟩, n.ownsSlots kind,
    Assembly.passes_of declared.numbered once inside⟩

/-! ## A class with all kinds of members -/

namespace Sample

/-- The attribute that gives a member an ordinal. -/
def order (ordinal : Int) : Attribute := { type := .plain "Order", args := [.int ordinal] }

/-- A binding of a class with two fields, an init-only property and two methods. -/
def gadget : Binding :=
  { (default : Binding) with
    recipe := .construct {
      type := .plain "G"
      constructors := [{
        parameters := [
          { name := "a", type := .plain "A" },
          { name := "b", type := .plain "B", hasDefault := true }] }]
      methods := [
        { name := "m", attributes := [order 5]
          parameters := [{ name := "x", type := .plain "X", hasDefault := true }] },
        { name := "n", attributes := [order 0], parameters := [{ name := "y", type := .plain "Y" }] }]
      fields := [
        { name := "f", type := .plain "F", isRequired := true },
        { name := "g", type := .plain "G", attributes := [order 5] }]
      properties := [
        { name := "p", type := .plain "P", isInitOnly := true, attributes := [order 1] }] } }

/-- What the rules make of it. -/
def gadgetNodes : Except (List Fault) (List Node) :=
  Node.build [{ role := .ordinal, type := .plain "Order" }] (fun _ => true) 0 gadget

/-- The constructions of some nodes. -/
def constructions (nodes : List Node) : List Construction :=
  nodes.filterMap fun n =>
    match n.kind with
    | .construct c => some c
    | _ => none

/-- Arguments for the slots of the gadget, out of order and with two of them left out. -/
def handedGadget : Instantiation :=
  { target := 9, supplies := [(6, 16), (0, 10), (2, 12), (4, 14), (3, 13)].map fun (slot, var) =>
      { slot, request := default, var } }

example : gadgetNodes.toOption.map (fun nodes =>
    (constructions nodes).map (Assembly.of · handedGadget.supplied?)) = some [{
      constructor := [some 10, none]
      required := [.property 0 14, .field 0 12]
      post := [.method 1 [some 16], .field 1 13, .method 0 [none]] }] := by
  cbv

end Sample

theorem Node.assembly_passes_gadget : ∃ nodes, Sample.gadgetNodes = .ok nodes ∧ ∃ n ∈ nodes,
    ∃ c, n.kind = .construct c ∧ c.requestCount = 7 ∧
      (∃ cls, Sample.gadget.recipe = .construct cls ∧ c.Declared
        ⟨[{ role := .ordinal, type := .plain "Order" }], cls.type, Sample.gadget.location⟩ cls) ∧
      c.OwnsSlots n.slots ∧
      (Assembly.of c Sample.handedGadget.supplied?).Passes c Sample.handedGadget := by
  have slots : Sample.gadgetNodes.toOption.map (fun nodes =>
      (Sample.constructions nodes).map (·.requestCount)) = some [7] := by decide +kernel
  obtain ⟨nodes, built, slots⟩ := Option.map_eq_some_iff.mp slots
  obtain ⟨c, found, count⟩ := List.mem_map.mp (slots ▸ List.mem_singleton_self 7)
  obtain ⟨n, mem, kind⟩ := List.mem_filterMap.mp found
  have built : Sample.gadgetNodes = .ok nodes := by
    cases built' : Sample.gadgetNodes with
    | error => rw [built'] at built; cases built
    | ok nodes' => rw [built'] at built; cases built; rfl
  have kind : n.kind = .construct c := by
    split at kind
    · rename_i c' eq
      cases kind
      exact eq
    · cases kind
  refine ⟨nodes, built, n, mem, c, kind, count, ?_⟩
  exact assembly_passes built mem kind (by decide) (by rw [count]; decide)

end ObjectGraph
