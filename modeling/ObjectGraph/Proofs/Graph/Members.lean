import ObjectGraph.Proofs.Graph.Specialization

/-
  Which members of a class are injected.

  A construction lists the fields and properties of its class that are required or carry an ordinal,
  and the methods that carry one, in the order of the class.  An init-only property counts as
  required.  Fields and properties are numbered one after another, so that a number tells a field
  from a property.
-/

namespace ObjectGraph

/-- The member is what is read of one with the given name, type and attributes; its place is left
    open. -/
structure InjectedMember.ReadFrom (reader : AttributeReader) (name : String) (type : TypeTerm)
    (isRequired : Bool) (attributes : List Attribute) (m : InjectedMember) : Prop where
  named : m.name = name
  required : m.isRequired = isRequired
  ordinal : reader.ordinal? name attributes = .ok m.ordinal
  request : reader.request name type attributes = .ok m.request

/-- Fields and properties are numbered one after another. -/
structure Construction.Numbered (c : Construction) : Prop where
  field : ∀ (k : Nat) m, c.fields[k]? = some m → m.position = k
  property : ∀ (k : Nat) m, c.properties[k]? = some m → m.position = c.fields.length + k

/-- The construction is made of members of the class, as they are declared and read. -/
structure Construction.Declared (reader : AttributeReader) (cls : Class) (c : Construction) : Prop
  where
  constructor : ∃ m ∈ cls.constructors, reader.call m = .ok c.constructor
  fields : ∃ fields, fields.Sublist cls.fields ∧ List.Forall₂ (fun f m =>
    InjectedMember.ReadFrom reader f.name f.type f.isRequired f.attributes m) fields c.fields
  /-- An init-only property counts as required. -/
  properties : ∃ properties, properties.Sublist cls.properties ∧ List.Forall₂ (fun p m =>
    InjectedMember.ReadFrom reader p.name p.type (p.isRequired || p.isInitOnly) p.attributes m)
      properties c.properties
  methods : ∃ methods, methods.Sublist cls.methods ∧
    List.Forall₂ (fun m call => reader.call m = .ok call) methods c.methods
  numbered : c.Numbered

theorem AttributeReader.readFrom_of_member {reader : AttributeReader} {name : String}
    {type : TypeTerm} {isRequired : Bool} {attributes : List Attribute} {m : InjectedMember}
    (ok : reader.member name type isRequired attributes = .ok m) :
    m.ReadFrom reader name type isRequired attributes := by
  unfold member at ok
  cases ordinal : reader.ordinal? name attributes with
  | error => rw [ordinal] at ok; cases ok
  | ok o =>
    cases request : reader.request name type attributes with
    | error => rw [ordinal, request] at ok; cases ok
    | ok q =>
      rw [ordinal, request] at ok
      cases ok
      exact ⟨rfl, rfl, ordinal, request⟩

namespace Node

/-! ## What is kept of a list of members -/

/-- Without faults there is a result for each that is read. -/
theorem rel_successes {α β : Type} {read : α → Except Fault β} {l : List α}
    (faultless : faultsOf (l.map read) = []) :
    List.Forall₂ (fun x y => read x = .ok y) l (successes (l.map read)) := by
  induction l with
  | nil => exact .nil
  | cons x rest ih =>
    rw [List.map_cons] at faultless ⊢
    cases found : read x with
    | error f => rw [found] at faultless; cases faultless
    | ok y =>
      rw [found] at faultless
      exact .cons found (ih faultless)

theorem position_of_injected {first k : Nat} {members : List InjectedMember} {m : InjectedMember}
    (at_k : (injectedMembers first members)[k]? = some m) : m.position = first + k := by
  rw [injectedMembers, List.getElem?_mapIdx] at at_k
  obtain ⟨m', -, rfl⟩ := Option.map_eq_some_iff.mp at_k
  rfl

/-- The injected ones among some members of one kind, with what they are read off. -/
theorem exists_rel_injected {α : Type} {members : List α} {isInjectable : α → Bool} (first : Nat)
    {read : α → Except Fault InjectedMember} {P : α → InjectedMember → Prop}
    (reads : ∀ x m position, read x = .ok m → P x { m with position })
    (faultless : faultsOf ((members.filter isInjectable).map read) = []) :
    ∃ kept, kept.Sublist members ∧ List.Forall₂ P kept
      (injectedMembers first (successes ((members.filter isInjectable).map read))) := by
  obtain ⟨kept, sub, rel⟩ := exists_rel_filter (rel_successes faultless)
    fun m => m.ordinal.isSome || m.isRequired
  exact ⟨kept, sub.trans List.filter_sublist,
    rel_mapIdx rel fun k x m ok => reads x m (first + k) ok⟩

/-! ## The constructions of a class -/

theorem declared_of_mem_constructions {rules : List AttributeRule} {location : Location}
    {canAnswer : Request → Bool} {cls : Class} {cs : List Construction}
    (made : constructions rules location canAnswer cls = .ok cs) {c : Construction} (mem : c ∈ cs) :
    c.Declared ⟨rules, cls.type, location⟩ cls := by
  have calls := readsOff_of_mem_constructions made mem
  unfold constructions at made
  split at made
  · cases made
  · dsimp only at made
    split at made
    · cases made
    · rename_i faultless
      split at made
      · cases made
      · cases made
        simp only [List.isEmpty_iff, List.append_eq_nil_iff, Bool.not_eq_eq_eq_not, Bool.not_true,
          Bool.not_eq_false] at faultless
        obtain ⟨⟨⟨-, inFields⟩, inProperties⟩, inMethods⟩ := faultless
        obtain ⟨constructor, -, rfl⟩ := List.mem_map.mp mem
        refine {
          constructor := calls.constructor
          fields := exists_rel_injected 0 (fun f m position ok => ?_) inFields
          properties := exists_rel_injected _ (fun p m position ok => ?_) inProperties
          methods := ?_
          numbered := ⟨fun k m at_k => (position_of_injected at_k).trans (Nat.zero_add k),
            fun k m at_k => position_of_injected at_k⟩ }
        · obtain ⟨named, required, ordinal, request⟩ := AttributeReader.readFrom_of_member ok
          exact ⟨named, required, ordinal, request⟩
        · obtain ⟨named, required, ordinal, request⟩ := AttributeReader.readFrom_of_member ok
          exact ⟨named, required, ordinal, request⟩
        · obtain ⟨kept, sub, rel⟩ := exists_rel_filter (rel_successes inMethods)
            fun call => call.ordinal.isSome
          exact ⟨kept, sub.trans List.filter_sublist, rel⟩

/-- The nodes that a binding gives are made of members of its class. -/
theorem declared_of_build {rules : List AttributeRule} {canAnswer : Request → Bool}
    {first : NodeId} {b : Binding} {nodes : List Node}
    (built : build rules canAnswer first b = .ok nodes) {n : Node} (mem : n ∈ nodes)
    {c : Construction} (kind : n.kind = .construct c) :
    ∃ cls, b.recipe = .construct cls ∧ c.Declared ⟨rules, cls.type, b.location⟩ cls := by
  unfold build at built
  cases made : kinds rules canAnswer b with
  | error => rw [made] at built; cases built
  | ok ks =>
    rw [made] at built
    cases built
    obtain ⟨k, lt, rfl⟩ := List.mem_mapIdx.mp mem
    have known : .construct c ∈ ks := kind ▸ List.getElem_mem lt
    unfold kinds at made
    split at made
    · rename_i cls recipe
      refine ⟨cls, recipe, ?_⟩
      cases all : constructions rules b.location canAnswer cls with
      | error => rw [all] at made; cases made
      | ok cs =>
        rw [all] at made
        cases made
        obtain ⟨c', c'_mem, same⟩ := List.mem_map.mp known
        cases same
        exact declared_of_mem_constructions all c'_mem
    all_goals
      cases made
      cases List.mem_singleton.mp known

end Node

end ObjectGraph
