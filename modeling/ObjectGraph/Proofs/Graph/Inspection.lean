import Mathlib.Data.List.Perm.Subperm
import ObjectGraph.Node.Build
import ObjectGraph.Proofs.Lists
import ObjectGraph.Setup.Standard

/-
  Which faults of a class are reported when its nodes are built.

  To build the nodes of a class is to look up roles on the attributes of its members (`Lookup`).  The
  lookups on one member belong together: the reading of the member ends with the first one that has a
  fault (`Judges`, put together along the readings as they are).  So of the faults of each member
  (`Class.verdicts`) the first one is reported, and that a class has no usable constructor is
  reported when there is nothing else (`buildFaults_eq`).

  How that compares with the list of all faults is then a matter of lists of lists
  (`build_reportsAll_iff`).
-/

namespace ObjectGraph

/-! ## Lookups -/

/-- A role that is looked up on the attributes of a member or of a parameter. -/
structure Lookup where
  /-- The role. -/
  role : AttributeRole
  /-- The name of the member or parameter. -/
  name : String
  /-- Its attributes. -/
  attributes : List Attribute
  deriving DecidableEq

/-- The lookups on a parameter, in order. -/
def Parameter.lookups (p : Parameter) : List Lookup :=
  [⟨.type, p.name, p.attributes⟩, ⟨.tag, p.name, p.attributes⟩]

/-- The lookups on a constructor or a method and its parameters, in order. -/
def Method.lookups (m : Method) : List Lookup :=
  ⟨.ordinal, m.name, m.attributes⟩ :: m.parameters.flatMap (·.lookups)

/-- The lookups on a field or a property, in order. -/
def Lookup.ofMember (name : String) (attributes : List Attribute) : List Lookup :=
  [⟨.ordinal, name, attributes⟩, ⟨.type, name, attributes⟩, ⟨.tag, name, attributes⟩]

/-- The lookups on each member of a class that injection can use. -/
def Class.inspections (c : Class) : List (List Lookup) :=
  (c.constructors.filter Method.isInjectable).map (·.lookups) ++
    (c.fields.filter Field.isInjectable).map (fun f => Lookup.ofMember f.name f.attributes) ++
    (c.properties.filter Property.isInjectable).map (fun p => Lookup.ofMember p.name p.attributes) ++
    (c.methods.filter Method.isInjectable).map (·.lookups)

/-- The fault that a reading ends with. -/
def faultOf {α : Type} : Except Fault α → Option Fault
  | .ok _ => none
  | .error f => some f

/-- The fault of a lookup: a conflict, or an argument that is not there. -/
def AttributeReader.fault? (reader : AttributeReader) (l : Lookup) : Option Fault :=
  faultOf (reader.constant? l.role l.name l.attributes)

/-- The faults of the lookups on each member. -/
def Class.verdicts (reader : AttributeReader) (c : Class) : List (List Fault) :=
  c.inspections.map (·.filterMap reader.fault?)

/-- A class needs a constructor that can be called. -/
def Class.constructorFaults (location : Location) (c : Class) : List Fault :=
  if c.constructors.filter Method.isInjectable = [] then [.noAccessibleConstructor c.type location]
  else []

/-- Everything that is wrong with a class, one fault for each lookup that fails. -/
def Class.allFaults (reader : AttributeReader) (c : Class) : List Fault :=
  (c.verdicts reader).flatten ++ c.constructorFaults reader.location

/-! ## The first fault of each member -/

namespace AttributeReader

variable (reader : AttributeReader)

/-- A lookup fails if more than one use of an attribute plays the role, or if the only one does not
    have the argument that its rule looks for. -/
theorem fault?_eq_some_iff {l : Lookup} {f : Fault} : reader.fault? l = some f ↔
    2 ≤ (reader.uses l.role l.attributes).length ∧
        f = .conflictingAttributes l.name reader.owner reader.location ∨
      ∃ rule use, reader.uses l.role l.attributes = [(rule, use)] ∧
        use.args.length ≤ rule.position ∧
        f = .attributePosition rule.type rule.position use.args.length rule.location := by
  rw [fault?, constant?]
  match reader.uses l.role l.attributes with
  | [] => simp [faultOf]
  | [(rule, use)] =>
    dsimp only
    cases at_position : use.args[rule.position]? with
    | some constant =>
      have lt := (List.getElem?_eq_some_iff.mp at_position).1
      simp [faultOf, Nat.not_le.mpr lt]
    | none =>
      have le := List.getElem?_eq_none_iff.mp at_position
      simp [faultOf, le, eq_comm]
  | _ :: _ :: _ => simp [faultOf, eq_comm]

/-- The reading ends with the fault of the first of the lookups that has one. -/
structure Judges {α : Type} (x : Except Fault α) (ls : List Lookup) : Prop where
  fault : faultOf x = (ls.filterMap reader.fault?).head?

variable {reader} {α β : Type} {x : Except Fault α} {ls ls' : List Lookup}

/-- What looks nothing up has no fault. -/
theorem Judges.ok (a : α) : reader.Judges (.ok a) [] := ⟨rfl⟩

/-- One lookup after the other: the first fault counts. -/
theorem Judges.bind {f : α → Except Fault β} (first : reader.Judges x ls)
    (next : ∀ a, reader.Judges (f a) ls') : reader.Judges (x >>= f) (ls ++ ls') := by
  refine ⟨?_⟩
  rw [List.filterMap_append, List.head?_append, ← first.fault]
  cases x with
  | error e => rfl
  | ok a => exact (next a).fault

/-- The same for all items of a list. -/
theorem Judges.mapM {f : α → Except Fault β} {lookups : α → List Lookup}
    (each : ∀ a, reader.Judges (f a) (lookups a)) (l : List α) :
    reader.Judges (l.mapM f) (l.flatMap lookups) := by
  induction l with
  | nil => exact .ok []
  | cons a l ih =>
    rw [List.mapM_cons, List.flatMap_cons, ← List.append_nil (l.flatMap lookups)]
    exact (each a).bind fun _ => ih.bind fun _ => .ok _

variable (reader)

theorem judges_constant? (l : Lookup) :
    reader.Judges (reader.constant? l.role l.name l.attributes) [l] := by
  refine ⟨?_⟩
  rw [← fault?, List.filterMap_cons]
  cases reader.fault? l <;> rfl

theorem judges_ordinal? (name : String) (attributes : List Attribute) :
    reader.Judges (reader.ordinal? name attributes) [⟨.ordinal, name, attributes⟩] :=
  (reader.judges_constant? ⟨.ordinal, name, attributes⟩).bind fun _ => .ok _

theorem judges_request (name : String) (type : TypeTerm) (attributes : List Attribute) :
    reader.Judges (reader.request name type attributes)
      [⟨.type, name, attributes⟩, ⟨.tag, name, attributes⟩] :=
  (reader.judges_constant? ⟨.type, name, attributes⟩).bind fun _ =>
    (reader.judges_constant? ⟨.tag, name, attributes⟩).bind fun _ => .ok _

theorem judges_parameter (p : Parameter) : reader.Judges (reader.parameter p) p.lookups :=
  (reader.judges_request p.name p.type p.attributes).bind fun _ => .ok _

/-- A method is judged by the lookups of the method itself and of its parameters. -/
theorem judges_call (m : Method) : reader.Judges (reader.call m) m.lookups := by
  rw [Method.lookups, ← List.append_nil (m.parameters.flatMap _)]
  exact (reader.judges_ordinal? m.name m.attributes).bind fun _ =>
    (Judges.mapM reader.judges_parameter m.parameters).bind fun _ => .ok _

theorem judges_member (name : String) (type : TypeTerm) (isRequired : Bool)
    (attributes : List Attribute) : reader.Judges (reader.member name type isRequired attributes)
      (Lookup.ofMember name attributes) :=
  (reader.judges_ordinal? name attributes).bind fun _ =>
    (reader.judges_request name type attributes).bind fun _ => .ok _

/-- Each item that is read tells its first fault. -/
theorem faultsOf_map {read : α → Except Fault β} {lookups : α → List Lookup}
    (each : ∀ a, reader.Judges (read a) (lookups a)) (l : List α) :
    Node.faultsOf (l.map read) =
      ((l.map lookups).map (·.filterMap reader.fault?)).filterMap List.head? := by
  rw [Node.faultsOf, List.filterMap_map, List.map_map, List.filterMap_map]
  refine List.filterMap_congr fun a _ => ?_
  refine Eq.trans ?_ (each a).fault
  rw [Function.comp_apply]
  cases read a <;> rfl

/-- Of each member the first fault is found, in the order of the members. -/
theorem faultsOf_members (c : Class) :
    Node.faultsOf (reader.constructors c) ++ Node.faultsOf (reader.fields c) ++
      Node.faultsOf (reader.properties c) ++ Node.faultsOf (reader.methods c) =
        (c.verdicts reader).filterMap List.head? := by
  rw [constructors, fields, properties, methods, reader.faultsOf_map reader.judges_call,
    reader.faultsOf_map reader.judges_call,
    reader.faultsOf_map fun f : Field => reader.judges_member f.name f.type _ f.attributes,
    reader.faultsOf_map fun p : Property => reader.judges_member p.name p.type _ p.attributes,
    Class.verdicts, Class.inspections]
  simp only [List.map_append, List.filterMap_append]

end AttributeReader

/-! ## Building -/

namespace Node

variable {rules : List AttributeRule} {canAnswer : Request → Bool} {location : Location}
  {first : NodeId} {b : Binding} {c : Class}

/-- The faults that building the nodes of a binding ends with, none if it succeeds. -/
def buildFaults (rules : List AttributeRule) (canAnswer : Request → Bool) (first : NodeId)
    (b : Binding) : List Fault :=
  match build rules canAnswer first b with
  | .ok _ => []
  | .error faults => faults

/-- A class gives constructions unless a member has a fault or there is no constructor. -/
theorem constructions_eq (rules : List AttributeRule) (location : Location)
    (canAnswer : Request → Bool) (concrete : c.isAbstract = false) :
    ∃ cs, constructions rules location canAnswer c =
      if (c.verdicts ⟨rules, c.type, location⟩).filterMap List.head? = [] then
        if c.constructors.filter Method.isInjectable = [] then
          .error [.noAccessibleConstructor c.type location]
        else .ok cs
      else .error ((c.verdicts ⟨rules, c.type, location⟩).filterMap List.head?) := by
  unfold constructions
  dsimp only
  rw [concrete, if_neg Bool.false_ne_true, AttributeReader.faultsOf_members]
  cases reported : (c.verdicts ⟨rules, c.type, location⟩).filterMap List.head? with
  | cons fault rest => exact ⟨[], rfl⟩
  | nil =>
    simp only [AttributeReader.constructors, List.isEmpty_iff, List.map_eq_nil_iff, if_true]
    exact ⟨_, rfl⟩

/-- The faults of building a binding of a class are those of reading the class. -/
theorem buildFaults_of_recipe (recipe : b.recipe = .construct c) :
    buildFaults rules canAnswer first b =
      match constructions rules b.location canAnswer c with
      | .ok _ => []
      | .error faults => faults := by
  rw [buildFaults, build, kinds, recipe]
  dsimp only
  cases constructions rules b.location canAnswer c <;> rfl

/-- Building reports the first fault of each member; that there is no constructor is reported only
    if no member has a fault. -/
theorem buildFaults_eq (recipe : b.recipe = .construct c) (concrete : c.isAbstract = false) :
    buildFaults rules canAnswer first b =
      if (c.verdicts ⟨rules, c.type, b.location⟩).flatten = [] then c.constructorFaults b.location
      else (c.verdicts ⟨rules, c.type, b.location⟩).filterMap List.head? := by
  obtain ⟨cs, made⟩ := constructions_eq rules b.location canAnswer concrete
  rw [buildFaults_of_recipe recipe, made, Class.constructorFaults]
  simp only [heads_eq_nil_iff]
  split_ifs <;> rfl

/-- Building succeeds exactly if it reports nothing. -/
theorem build_ok_iff (recipe : b.recipe = .construct c) (concrete : c.isAbstract = false) :
    (∃ nodes, build rules canAnswer first b = .ok nodes) ↔
      buildFaults rules canAnswer first b = [] := by
  have made : (∃ nodes, build rules canAnswer first b = .ok nodes) ↔
      ∃ cs, constructions rules b.location canAnswer c = .ok cs := by
    rw [build, kinds, recipe]
    dsimp only
    cases constructions rules b.location canAnswer c with
    | ok cs => exact iff_of_true ⟨_, rfl⟩ ⟨cs, rfl⟩
    | error faults => exact iff_of_false (fun ⟨_, ok⟩ => nomatch ok) (fun ⟨_, ok⟩ => nomatch ok)
  obtain ⟨cs, eq⟩ := constructions_eq rules b.location canAnswer concrete
  rw [made, buildFaults_of_recipe recipe, eq]
  split_ifs with faultless
  · exact iff_of_false (fun ⟨_, ok⟩ => nomatch ok) nofun
  · exact iff_of_true ⟨cs, rfl⟩ rfl
  · exact iff_of_false (fun ⟨_, ok⟩ => nomatch ok) faultless

/-- A fault of building is one of a lookup on a member, or about the class itself. -/
theorem exists_of_mem_buildFaults {fault : Fault}
    (mem : fault ∈ buildFaults rules canAnswer first b) :
    ∃ c, b.recipe = .construct c ∧ (fault = .abstractClass c.type b.location ∨
      fault = .noAccessibleConstructor c.type b.location ∨ ∃ l ∈ c.inspections.flatten,
        AttributeReader.fault? ⟨rules, c.type, b.location⟩ l = some fault) := by
  cases recipe : b.recipe with
  | factory | outside | builtin =>
    rw [buildFaults, build, kinds, recipe] at mem
    cases mem
  | construct c =>
    refine ⟨c, rfl, ?_⟩
    cases concrete : c.isAbstract with
    | true =>
      rw [buildFaults_of_recipe recipe, constructions, if_pos concrete] at mem
      exact .inl (List.mem_singleton.mp mem)
    | false =>
      rw [buildFaults_eq recipe concrete] at mem
      split at mem
      · unfold Class.constructorFaults at mem
        split at mem
        · exact .inr (.inl (List.mem_singleton.mp mem))
        · cases mem
      · have mem := (heads_sublist _).subset mem
        rw [Class.verdicts, List.mem_flatten] at mem
        obtain ⟨_, verdict, mem⟩ := mem
        obtain ⟨ls, inspected, rfl⟩ := List.mem_map.mp verdict
        obtain ⟨l, looked, found⟩ := List.mem_filterMap.mp mem
        exact .inr (.inr ⟨l, List.mem_flatten_of_mem inspected looked, found⟩)

/-- What building reports are faults of the class, in their order, and it succeeds exactly if there
    are none.  They are all the faults of the class exactly if no member has two of them and a class
    without a usable constructor has no other fault. -/
theorem build_reportsAll_iff (rules : List AttributeRule) (canAnswer : Request → Bool)
    (first : NodeId) {b : Binding} {c : Class} (recipe : b.recipe = .construct c)
    (concrete : c.isAbstract = false) :
    ((∃ nodes, build rules canAnswer first b = .ok nodes) ↔
      c.allFaults ⟨rules, c.type, b.location⟩ = []) ∧
    (buildFaults rules canAnswer first b).Sublist (c.allFaults ⟨rules, c.type, b.location⟩) ∧
    ((c.allFaults ⟨rules, c.type, b.location⟩).Subperm (buildFaults rules canAnswer first b) ↔
      (∀ faults ∈ c.verdicts ⟨rules, c.type, b.location⟩, faults.length ≤ 1) ∧
        (c.constructors.filter Method.isInjectable = [] →
          (c.verdicts ⟨rules, c.type, b.location⟩).flatten = [])) := by
  rw [build_ok_iff recipe concrete, buildFaults_eq recipe concrete, Class.allFaults]
  generalize c.verdicts ⟨rules, c.type, b.location⟩ = verdicts
  split
  · rename_i none
    rw [none, List.nil_append]
    refine ⟨Iff.rfl, List.Sublist.refl _, iff_of_true (List.Subperm.refl _) ⟨?_, fun _ => rfl⟩⟩
    intro faults mem
    rw [List.flatten_eq_nil_iff.mp none faults mem]
    exact Nat.zero_le 1
  · rename_i some
    have reported : verdicts.filterMap List.head? ≠ [] := mt (heads_eq_nil_iff verdicts).mp some
    have sub := (heads_sublist verdicts).trans
      (List.sublist_append_left _ (c.constructorFaults b.location))
    refine ⟨iff_of_false reported fun none => some (List.append_eq_nil_iff.mp none).1, sub, ?_⟩
    -- a part that contains all is all
    have subperm_iff : (verdicts.flatten ++ c.constructorFaults b.location).Subperm
        (verdicts.filterMap List.head?) ↔
          verdicts.filterMap List.head? = verdicts.flatten ∧ c.constructorFaults b.location = [] := by
      constructor
      · intro contains
        have eq := sub.eq_of_length_le contains.length_le
        have lengths := congrArg List.length eq
        have shorter := (heads_sublist verdicts).length_le
        rw [List.length_append] at lengths
        have none : c.constructorFaults b.location = [] := List.length_eq_zero_iff.mp (by omega)
        exact ⟨by rw [eq, none, List.append_nil], none⟩
      · rintro ⟨eq, none⟩
        rw [none, List.append_nil, eq]
    rw [subperm_iff, heads_eq_flatten_iff]
    refine and_congr_right fun _ => ?_
    rw [Class.constructorFaults]
    split
    · rename_i noConstructor
      exact iff_of_false nofun fun this => some (this noConstructor)
    · rename_i constructor
      exact iff_of_true rfl fun noConstructor => (constructor noConstructor).elim

end Node

namespace Sample

/-- An attribute of the standard setup without arguments. -/
def argless (role : String) : Attribute := { type := .plain (role ++ "Attribute") }

/-- A class with fields of the given attributes and a constructor with such parameters. -/
def attributed (fields parameters : List (List Attribute)) : Class where
  type := .plain "A"
  constructors := [
    { parameters := parameters.map fun attributes =>
        { name := "p", type := .plain "B", attributes } }]
  fields := fields.map fun attributes => { name := "f", type := .plain "B", attributes }

/-- The binding of a class. -/
def bindingOf (c : Class) : Binding := { (default : Binding) with recipe := .construct c }

end Sample

namespace Node

open Sample

/-- Two fields and the constructor have one fault each, and all three are reported. -/
theorem build_reportsAll_spread :
    let c := attributed [[argless "Ordinal"], [argless "Tag", argless "Tag"]] [[], [argless "Type"]]
    c.isAbstract = false ∧
      (c.allFaults ⟨Setup.standard.rules, c.type, {}⟩).map Fault.kind =
        [.attributePosition, .attributePosition, .configuration] ∧
      (c.allFaults ⟨Setup.standard.rules, c.type, {}⟩).Subperm
        (buildFaults Setup.standard.rules (fun _ => true) 0 (bindingOf c)) := by
  intro c
  have reports := build_reportsAll_iff Setup.standard.rules (fun _ => true) 0
    (b := bindingOf c) (c := c) rfl rfl
  exact ⟨rfl, by decide, reports.2.2.mpr ⟨by decide, by decide⟩⟩

/-- A field of two ordinals and a tag that is not there has two faults, of which one is reported. -/
theorem not_always_reportsAll :
    ¬ ∀ (rules : List AttributeRule) (canAnswer : Request → Bool) (first : NodeId) (b : Binding)
      (c : Class), b.recipe = .construct c → c.isAbstract = false →
        (c.allFaults ⟨rules, c.type, b.location⟩).Subperm (buildFaults rules canAnswer first b) ∧
          ((∃ nodes, build rules canAnswer first b = .ok nodes) ↔
            c.allFaults ⟨rules, c.type, b.location⟩ = []) := by
  intro all
  let c := attributed [[argless "Ordinal", argless "Ordinal", argless "Tag"]] []
  have contained := (all Setup.standard.rules (fun _ => true) 0 (bindingOf c) c rfl rfl).1
  exact absurd contained.length_le (by decide)

end Node

end ObjectGraph
