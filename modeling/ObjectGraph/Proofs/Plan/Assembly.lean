import ObjectGraph.Plan.Assembly
import ObjectGraph.Proofs.Graph.Queue

/-
  Assemblies have no holes.

  An assembly counts the slots of a construction on its own: constructor parameters, fields,
  properties, and the parameters of the methods.  The requests of a node are listed in the same order,
  so what is known of each slot is known of each part (`Served.append_iff`), and a part is an
  induction on its own list.

  What is known of a slot is that it has no variable exactly if its request may stay without an answer
  and has none (`Assembly.Served`).  Then the arguments have a hole exactly at the parameters that keep
  their default values, and all fields and properties are set (`Assembly.complete_of`).
-/

namespace ObjectGraph

/-- The arguments of a call have a hole exactly where a parameter has a default value and there is
    no answer to its request. -/
def InjectedCall.Served (answered : Request → Prop) (call : InjectedCall)
    (arguments : List (Option VariableId)) : Prop :=
  List.Forall₂ (fun p argument => argument = none ↔ p.hasDefault = true ∧ ¬ answered p.request)
    call.parameters arguments

namespace Assembly

/-- An assembly passes on all that a construction asks for. -/
structure Complete (answered : Request → Prop) (supplied : Nat → Option VariableId)
    (c : Construction) (a : Assembly) : Prop where
  constructor : c.constructor.Served answered a.constructor
  /-- Each field is set to the variable of its slot. -/
  field : ∀ index < c.fields.length, ∃ var,
    supplied (c.constructor.parameters.length + index) = some var ∧
      .field index var ∈ a.required ++ a.post
  /-- So is each property. -/
  property : ∀ index < c.properties.length, ∃ var,
    supplied (c.constructor.parameters.length + c.fields.length + index) = some var ∧
      .property index var ∈ a.required ++ a.post
  /-- Each method is called. -/
  method : ∀ index < c.methods.length, ∃ arguments, .method index arguments ∈ a.post
  call : ∀ index arguments, .method index arguments ∈ a.required ++ a.post →
    ∃ m, c.methods[index]? = some m ∧ m.Served answered arguments

/-- From `first` on, the slots of a list of requests have no variable exactly where a request may
    stay without an answer and has none. -/
def Served (answered : Request → Prop) (supplied : Nat → Option VariableId) (first : Nat)
    (requests : List (Request × Bool × Option BindingId)) : Prop :=
  ∀ k q isOptional pinned, requests[k]? = some (q, isOptional, pinned) →
    (supplied (first + k) = none ↔ isOptional = true ∧ ¬ answered q)

variable {answered : Request → Prop} {supplied : Nat → Option VariableId} {first : Nat}
  {c : Construction}

/-! ## The slots of the parts -/

theorem Served.of_append {requests more : List (Request × Bool × Option BindingId)}
    (served : Served answered supplied first (requests ++ more)) :
    Served answered supplied first requests ∧
      Served answered supplied (first + requests.length) more := by
  constructor
  · intro k q isOptional pinned at_k
    have lt : k < requests.length := (List.getElem?_eq_some_iff.mp at_k).1
    exact served k q isOptional pinned ((List.getElem?_append_left lt).trans at_k)
  · intro k q isOptional pinned at_k
    rw [Nat.add_assoc]
    refine served _ q isOptional pinned ?_
    rw [List.getElem?_append_right (Nat.le_add_right _ _), Nat.add_sub_cancel_left, at_k]

/-- The arguments of a method are what supplies the slots of its parameters. -/
theorem arguments_served {m : InjectedCall}
    (served : Served answered supplied first
      (m.parameters.map fun p => (p.request, p.hasDefault, none))) :
    m.Served answered (arguments supplied first m.parameters.length) := by
  refine List.forall₂_iff_get.mpr ⟨by simp [arguments], fun k lt lt' => ?_⟩
  have at_k := served k _ _ none (by rw [List.getElem?_map, List.getElem?_eq_getElem lt]; rfl)
  simpa [arguments] using at_k

/-! ## The uses of the parts -/

/-- A member is used if its slot is supplied. -/
theorem mem_memberUses {use : Nat → VariableId → MemberUse} {members : List InjectedMember}
    {u : RankedUse} : u ∈ memberUses supplied first use members ↔
      ∃ k m var, members[k]? = some m ∧ supplied (first + k) = some var ∧
        u = { isRequired := m.isRequired, ordinal := m.ordinal, position := m.position,
              use := use k var } := by
  simp only [memberUses, List.mem_filterMap, Option.map_eq_some_iff, Prod.exists,
    List.mem_zipIdx_iff_getElem?]
  constructor
  · rintro ⟨m, k, at_k, var, found, rfl⟩
    exact ⟨k, m, var, at_k, found, rfl⟩
  · rintro ⟨k, m, var, at_k, found, rfl⟩
    exact ⟨m, k, at_k, var, found, rfl⟩

/-- Fields and properties are required, so each of them has a use. -/
theorem exists_memberUse (use : Nat → VariableId → MemberUse) {members : List InjectedMember}
    (served : Served answered supplied first (members.map fun m => (m.request, false, none)))
    {k : Nat} (lt : k < members.length) :
    ∃ var, supplied (first + k) = some var ∧
      ∃ u ∈ memberUses supplied first use members, u.use = use k var := by
  have at_k := served k _ false .none (by rw [List.getElem?_map, List.getElem?_eq_getElem lt]; rfl)
  have required : supplied (first + k) ≠ none := fun none => nomatch (at_k.mp none).1
  obtain ⟨var, found⟩ := Option.ne_none_iff_exists'.mp required
  exact ⟨var, found, _,
    mem_memberUses.mpr ⟨k, _, var, List.getElem?_eq_getElem lt, found, rfl⟩, rfl⟩

/-- There is one call for each method, in order. -/
theorem methodUses_served (earlier : Nat) {methods : List InjectedCall} :
    ∀ {first : Nat} (index : Nat),
      Served answered supplied first
        ((methods.flatMap (·.parameters)).map fun p => (p.request, p.hasDefault, none)) →
      List.Forall₂ (fun m u => u.isRequired = false ∧
          ∃ arguments, u.use = .method m.2 arguments ∧ m.1.Served answered arguments)
        (methods.zipIdx index) (methodUses supplied earlier first index methods) := by
  induction methods with
  | nil => exact fun _ _ => .nil
  | cons m rest ih =>
    intro first index served
    rw [List.flatMap_cons, List.map_append] at served
    obtain ⟨head, tail⟩ := served.of_append
    rw [List.length_map] at tail
    exact .cons ⟨rfl, _, rfl, arguments_served head⟩ (ih (index + 1) tail)

/-! ## The uses in order -/

theorem mem_inOrder {uses : List RankedUse} {x : MemberUse} :
    x ∈ RankedUse.inOrder uses ↔ ∃ u ∈ uses, u.use = x := by
  simp only [RankedUse.inOrder, List.mem_map, List.mem_mergeSort]

/-- Afterwards come the uses that are not required. -/
theorem mem_post {x : MemberUse} :
    x ∈ (of c supplied).post ↔ ∃ u ∈ uses supplied c, u.isRequired = false ∧ u.use = x := by
  simp only [of, mem_inOrder, List.mem_filter, Bool.not_eq_true', and_assoc]

/-- Every use is in one of the two lists. -/
theorem mem_members {x : MemberUse} :
    x ∈ (of c supplied).required ++ (of c supplied).post ↔ ∃ u ∈ uses supplied c, u.use = x := by
  simp only [List.mem_append, of, mem_inOrder, List.mem_filter, Bool.not_eq_true']
  constructor
  · rintro (⟨u, ⟨mem, -⟩, use⟩ | ⟨u, ⟨mem, -⟩, use⟩) <;> exact ⟨u, mem, use⟩
  · rintro ⟨u, mem, use⟩
    cases required : u.isRequired with
    | true => exact .inl ⟨u, ⟨mem, required⟩, use⟩
    | false => exact .inr ⟨u, ⟨mem, required⟩, use⟩

/-- If slots are empty exactly where they may be and nothing answers them, the assembly is
    complete. -/
theorem complete_of (served : Served answered supplied 0 (Node.Kind.construct c).requests) :
    (of c supplied).Complete answered supplied c := by
  obtain ⟨served, inMethods⟩ := Served.of_append served
  obtain ⟨served, inProperties⟩ := Served.of_append served
  obtain ⟨inConstructor, inFields⟩ := Served.of_append served
  simp only [List.length_append, List.length_map, Nat.zero_add, Construction.methodParameters]
    at inMethods inProperties inFields
  have calls := methodUses_served (c.fields.length + c.properties.length) 0 inMethods
  constructor
  case constructor => exact arguments_served inConstructor
  case field =>
    intro index lt
    obtain ⟨var, found, u, mem, use⟩ := exists_memberUse .field inFields lt
    exact ⟨var, found, mem_members.mpr
      ⟨u, List.mem_append_left _ (List.mem_append_left _ mem), use⟩⟩
  case property =>
    intro index lt
    obtain ⟨var, found, u, mem, use⟩ := exists_memberUse .property inProperties lt
    exact ⟨var, found, mem_members.mpr
      ⟨u, List.mem_append_left _ (List.mem_append_right _ mem), use⟩⟩
  case method =>
    intro index lt
    have known : (c.methods[index], index) ∈ c.methods.zipIdx :=
      List.mem_zipIdx_iff_getElem?.mpr (List.getElem?_eq_getElem lt)
    obtain ⟨u, mem, post, arguments, use, -⟩ := forall₂_left calls known
    exact ⟨arguments, mem_post.mpr ⟨u, List.mem_append_right _ mem, post, use⟩⟩
  case call =>
    intro index arguments mem
    obtain ⟨u, mem, use⟩ := mem_members.mp mem
    rcases List.mem_append.mp mem with mem | mem
    · -- fields and properties are set, not called
      rcases List.mem_append.mp mem with mem | mem
      · obtain ⟨k, m, var, -, -, rfl⟩ := mem_memberUses.mp mem
        cases use
      · obtain ⟨k, m, var, -, -, rfl⟩ := mem_memberUses.mp mem
        cases use
    · obtain ⟨⟨m, k⟩, known, -, arguments', use', served⟩ := forall₂_right calls mem
      cases use'.symm.trans use
      exact ⟨m, List.mem_zipIdx_iff_getElem?.mp known, served⟩

end Assembly

end ObjectGraph
