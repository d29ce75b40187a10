import ObjectGraph.Plan.Assembly
import ObjectGraph.Proofs.Lists

/-
  The slots of a construction and what they belong to.

  `Construction.parts` lists what the slots belong to, in their order, and the requests of a node are
  those of the parts (`Construction.asks_parts`).  Where the parameters of a method begin is not a
  fixed place, it depends on the methods in front of it (`InjectedCall.offset`).  So lists of methods
  are gone through by induction, and the rest is counting.
-/

namespace ObjectGraph

/-! ## The parts of a construction -/

/-- What a slot of a construction belongs to. -/
inductive Part where
  /-- A parameter of the constructor. -/
  | parameter (index : Nat)
  /-- A field. -/
  | field (index : Nat)
  /-- A property. -/
  | property (index : Nat)
  /-- A parameter of a method. -/
  | argument (method index : Nat)
  deriving DecidableEq

/-- The parameters of methods, the first of which has the given index. -/
def Part.ofMethods (index : Nat) : List InjectedCall → List Part
  | [] => []
  | m :: rest =>
    (List.range m.parameters.length).map (.argument index) ++ ofMethods (index + 1) rest

/-- The number of parameters that the methods in front of one have. -/
def InjectedCall.offset (methods : List InjectedCall) (index : Nat) : Nat :=
  ((methods.take index).flatMap (·.parameters)).length

namespace Construction

/-- The parts of a construction, in the order of their slots. -/
def parts (c : Construction) : List Part :=
  (List.range c.constructor.parameters.length).map .parameter ++
    (List.range c.fields.length).map .field ++
    (List.range c.properties.length).map .property ++ Part.ofMethods 0 c.methods

/-- What a part requests, and if it can stay without an argument. -/
def asks? (c : Construction) : Part → Option (Request × Bool)
  | .parameter k => (c.constructor.parameters[k]?).map fun p => (p.request, p.hasDefault)
  | .field k => (c.fields[k]?).map fun m => (m.request, false)
  | .property k => (c.properties[k]?).map fun m => (m.request, false)
  | .argument i k =>
    ((c.methods[i]?).bind (·.parameters[k]?)).map fun p => (p.request, p.hasDefault)

end Construction

variable {c : Construction} {methods : List InjectedCall} {part : Part} {first slot index : Nat}

theorem InjectedCall.offset_succ (m : InjectedCall) (rest : List InjectedCall) (k : Nat) :
    offset (m :: rest) (k + 1) = m.parameters.length + offset rest k := by
  simp [offset]

namespace Part

/-- The parameters of methods, each with its slot. -/
theorem getElem?_ofMethods : (ofMethods index methods)[slot]? = some part ↔
    ∃ k j m, methods[k]? = some m ∧ j < m.parameters.length ∧
      slot = InjectedCall.offset methods k + j ∧ part = .argument (index + k) j := by
  induction methods generalizing index slot with
  | nil => simp [ofMethods]
  | cons m rest ih =>
    rw [ofMethods, List.getElem?_append, List.length_map, List.length_range]
    split
    · rename_i lt
      rw [List.getElem?_map, List.getElem?_range lt, Option.map_some, Option.some.injEq]
      constructor
      · rintro rfl
        exact ⟨0, slot, m, rfl, lt, by simp [InjectedCall.offset], rfl⟩
      · rintro ⟨k, j, m', at_k, j_lt, eq, rfl⟩
        cases k with
        | zero => simp [InjectedCall.offset, eq]
        | succ k =>
          rw [InjectedCall.offset_succ] at eq
          omega
    · rename_i out
      rw [ih]
      constructor
      · rintro ⟨k, j, m', at_k, j_lt, eq, rfl⟩
        refine ⟨k + 1, j, m', at_k, j_lt, ?_, by rw [Nat.add_assoc, Nat.add_comm 1 k]⟩
        rw [InjectedCall.offset_succ]
        omega
      · rintro ⟨k, j, m', at_k, j_lt, eq, rfl⟩
        cases k with
        | zero =>
          cases at_k
          simp only [InjectedCall.offset, List.take_zero, List.flatMap_nil, List.length_nil] at eq
          omega
        | succ k =>
          rw [InjectedCall.offset_succ] at eq
          exact ⟨k, j, m', at_k, j_lt, by omega, by rw [Nat.add_assoc, Nat.add_comm 1 k]⟩

/-- The part is there, and has the slot. -/
def Owns (c : Construction) (slot : Nat) : Part → Prop
  | parameter k => k < c.constructor.parameters.length ∧ slot = k
  | field k => k < c.fields.length ∧ slot = c.constructor.parameters.length + k
  | property k => k < c.properties.length ∧
    slot = c.constructor.parameters.length + c.fields.length + k
  | argument i k => ∃ m, c.methods[i]? = some m ∧ k < m.parameters.length ∧
    slot = c.constructor.parameters.length + c.fields.length + c.properties.length +
      InjectedCall.offset c.methods i + k

end Part

namespace Construction

/-- The slots are numbered through the parameters, the fields, the properties and the methods. -/
theorem getElem?_parts : c.parts[slot]? = some part ↔ part.Owns c slot := by
  simp only [parts, getElem?_append_eq_some, getElem?_map_range, Part.getElem?_ofMethods,
    List.length_append, List.length_map, List.length_range]
  cases part with
  | parameter k => simp [Part.Owns]; omega
  | field k => simp [Part.Owns]; omega
  | property k => simp [Part.Owns]; omega
  | argument i k =>
    simp only [Part.Owns, Nat.add_assoc, Nat.zero_add, Part.argument.injEq, reduceCtorEq, and_false,
      exists_false, or_false, false_or]
    constructor
    · rintro ⟨_, rfl, i', k', m, at_i, lt, rfl, rfl, rfl⟩
      exact ⟨m, at_i, lt, rfl⟩
    · rintro ⟨m, at_i, lt, rfl⟩
      exact ⟨_, rfl, i, k, m, at_i, lt, rfl, rfl, rfl⟩

/-- A part owns one slot. -/
theorem parts_nodup (c : Construction) : c.parts.Nodup := by
  rw [List.nodup_iff_getElem?_ne_getElem?]
  intro i j lt j_lt same
  obtain ⟨part, at_j⟩ : ∃ part, c.parts[j]? = some part := ⟨_, List.getElem?_eq_getElem j_lt⟩
  have owns := getElem?_parts.mp at_j
  have owns' := getElem?_parts.mp (same.trans at_j)
  refine Nat.ne_of_lt lt ?_
  cases part with
  | parameter k => exact owns'.2.trans owns.2.symm
  | field k => exact owns'.2.trans owns.2.symm
  | property k => exact owns'.2.trans owns.2.symm
  | argument i k =>
    obtain ⟨-, -, -, eq⟩ := owns
    obtain ⟨-, -, -, eq'⟩ := owns'
    exact eq'.trans eq.symm

theorem asks_ofMethods (c : Construction) : ∀ {methods : List InjectedCall} {index : Nat},
    (∀ k, c.methods[index + k]? = methods[k]?) → (Part.ofMethods index methods).map c.asks? =
      (methods.flatMap (·.parameters)).map fun p => some (p.request, p.hasDefault)
  | [], _, _ => rfl
  | m :: rest, index, known => by
    have head : ((List.range m.parameters.length).map (Part.argument index)).map c.asks? =
        m.parameters.map fun p => some (p.request, p.hasDefault) := by
      rw [← map_range_length, List.map_map]
      refine List.map_congr_left fun k _ => ?_
      have here : c.methods[index]? = some m := known 0
      rw [Function.comp_apply, asks?, here, Option.bind_some]
    rw [Part.ofMethods, List.map_append, head, List.flatMap_cons, List.map_append,
      c.asks_ofMethods fun k => by rw [Nat.add_right_comm, Nat.add_assoc]; exact known (k + 1)]

/-- What the parts ask for are the requests of the construction. -/
theorem asks_parts (c : Construction) : c.parts.map c.asks? =
    (Node.Kind.construct c).requests.map fun (request, isOptional, _) =>
      some (request, isOptional) := by
  simp only [parts, Node.Kind.requests, methodParameters, List.map_append, List.map_map,
    Function.comp_def, asks?, map_range_length,
    c.asks_ofMethods fun k => congrArg (c.methods[·]?) (Nat.zero_add k)]

/-- There are as many parts as requests. -/
theorem length_parts (c : Construction) : c.parts.length = c.requestCount := by
  have lengths := congrArg List.length c.asks_parts
  rw [List.length_map, List.length_map] at lengths
  rw [lengths]
  simp [Node.Kind.requests, requestCount, Nat.add_assoc]

end Construction

/-- The slots of a node are those of the parts of the construction, in their order. -/
structure Construction.OwnsSlots (c : Construction) (slots : List Slot) : Prop where
  index : slots.map (·.index) = List.range c.requestCount
  asks : slots.map (fun s => some (s.request, s.isOptional)) = c.parts.map c.asks?
  once : c.parts.Nodup

theorem Node.ownsSlots {n : Node} (kind : n.kind = .construct c) : c.OwnsSlots n.slots := by
  refine ⟨?_, ?_, c.parts_nodup⟩
  · have counted : n.kind.requests.length = c.requestCount := by
      rw [kind, ← c.length_parts, ← List.length_map (f := c.asks?), c.asks_parts, List.length_map]
    rw [← counted]
    exact List.ext_getElem (by simp [slots]) fun k lt lt' => by simp [slots]
  · rw [c.asks_parts, ← kind]
    exact List.ext_getElem (by simp [slots]) fun k lt lt' => by simp [slots]

end ObjectGraph
