import ObjectGraph.Fault
import ObjectGraph.Journal
import ObjectGraph.Node.Basic

/-
  Building the nodes of a binding.

  The attributes on the members of a class are read by the rules of the setup: which members are
  injected, in which order, and what they request.  All usable constructors become variants of the
  binding.  If a constructor carries an ordinal, only those that do are kept, in ascending order;
  otherwise the constructor with the most answerable parameters comes first.

  Faults of all members are collected; a method or constructor reports its first one.
-/

namespace ObjectGraph

/-- Reads attributes of one class by the rules of a setup. -/
structure AttributeReader where
  /-- The rules. -/
  rules : List AttributeRule
  /-- The type of the class. -/
  owner : TypeTerm
  /-- Where the binding was declared. -/
  location : Location

namespace AttributeReader

/-- The attributes that the rules of a role apply to, each with its rule. -/
def uses (reader : AttributeReader) (role : AttributeRole) (attributes : List Attribute) :
    List (AttributeRule × Attribute) :=
  (reader.rules.filter (·.role == role)).flatMap fun rule =>
    (attributes.filter (·.type == rule.type)).map (rule, ·)

/-- The constant that attributes give a member for a role.  More than one use is a conflict, and
    a use has to have the argument that its rule looks for. -/
def constant? (reader : AttributeReader) (role : AttributeRole) (member : String)
    (attributes : List Attribute) : Except Fault (Option Constant) :=
  match reader.uses role attributes with
  | [] => .ok none
  | [(rule, use)] =>
    match use.args[rule.position]? with
    | some constant => .ok (some constant)
    | none =>
      .error (.attributePosition rule.type rule.position use.args.length rule.location)
  | _ => .error (.conflictingAttributes member reader.owner reader.location)

/-- The ordinal that attributes give a member. -/
def ordinal? (reader : AttributeReader) (member : String) (attributes : List Attribute) :
    Except Fault (Option Int) := do
  return (← reader.constant? .ordinal member attributes).bind Constant.ordinal?

/-- What a member of a type requests: its own type untagged, unless attributes say otherwise. -/
def request (reader : AttributeReader) (member : String) (type : TypeTerm)
    (attributes : List Attribute) : Except Fault Request := do
  let injected ← reader.constant? .type member attributes
  let tag ← reader.constant? .tag member attributes
  return ⟨(injected.bind Constant.type?).getD type, (tag.bind Constant.tag?).getD .untagged⟩

/-- Reads a parameter. -/
def parameter (reader : AttributeReader) (p : Parameter) : Except Fault InjectedParameter := do
  let request ← reader.request p.name p.type p.attributes
  return { name := p.name, request, hasDefault := p.hasDefault }

/-- Reads a constructor or a method with its parameters. -/
def call (reader : AttributeReader) (m : Method) : Except Fault InjectedCall := do
  let ordinal ← reader.ordinal? m.name m.attributes
  let parameters ← m.parameters.mapM reader.parameter
  return { name := m.name, visibility := m.visibility, ordinal, parameters }

/-- Reads a field or a property; its position is set later. -/
def member (reader : AttributeReader) (name : String) (type : TypeTerm) (isRequired : Bool)
    (attributes : List Attribute) : Except Fault InjectedMember := do
  let ordinal ← reader.ordinal? name attributes
  let request ← reader.request name type attributes
  return { name, ordinal, isRequired, request, position := 0 }

/-- Reads the fields that injection can write. -/
def fields (reader : AttributeReader) (c : Class) : List (Except Fault InjectedMember) :=
  (c.fields.filter Field.isInjectable).map fun f =>
    reader.member f.name f.type f.isRequired f.attributes

/-- Reads the properties that injection can write.  An init-only property counts as required. -/
def properties (reader : AttributeReader) (c : Class) : List (Except Fault InjectedMember) :=
  (c.properties.filter Property.isInjectable).map fun p =>
    reader.member p.name p.type (p.isRequired || p.isInitOnly) p.attributes

/-- Reads the methods that injection can call. -/
def methods (reader : AttributeReader) (c : Class) : List (Except Fault InjectedCall) :=
  (c.methods.filter Method.isInjectable).map reader.call

/-- Reads the constructors that can be called. -/
def constructors (reader : AttributeReader) (c : Class) : List (Except Fault InjectedCall) :=
  (c.constructors.filter Method.isInjectable).map reader.call

end AttributeReader

/-! ## Ranking of constructors -/

/-- A constructor with the number of its parameters that can be answered. -/
structure ConstructorCandidate where
  /-- The constructor. -/
  call : InjectedCall
  /-- The number of answerable parameters. -/
  answerable : Nat

namespace ConstructorCandidate

/-- Counts the answerable parameters of a constructor. -/
def of (canAnswer : Request → Bool) (call : InjectedCall) : ConstructorCandidate :=
  ⟨call, call.parameters.countP fun p => canAnswer p.request⟩

/-- The order of constructors with ordinals: the least ordinal first, then the most answerable
    parameters. -/
def byOrdinal (a b : ConstructorCandidate) : Bool :=
  let first := compare a.call.ordinal b.call.ordinal
  first.then (compare b.answerable a.answerable) != .gt

/-- The order of constructors without ordinals: the most answerable parameters first, then the
    widest visibility. -/
def byAnswerable (a b : ConstructorCandidate) : Bool :=
  let first := compare b.answerable a.answerable
  first.then (compare b.call.visibility a.call.visibility) != .gt

/-- The constructors in the order of preference.  Equal ones stay in the order of declaration. -/
def rank (canAnswer : Request → Bool) (calls : List InjectedCall) : List InjectedCall :=
  let candidates := calls.map (of canAnswer)
  let marked := candidates.filter (·.call.ordinal.isSome)
  let ranked :=
    if marked.isEmpty then candidates.mergeSort byAnswerable else marked.mergeSort byOrdinal
  ranked.map (·.call)

end ConstructorCandidate

/-! ## Nodes -/

namespace Node

/-- The results without the faults. -/
def successes {α : Type} (results : List (Except Fault α)) : List α :=
  results.filterMap fun
    | .ok a => some a
    | .error _ => none

/-- The faults without the results. -/
def faultsOf {α : Type} (results : List (Except Fault α)) : List Fault :=
  results.filterMap fun
    | .ok _ => none
    | .error f => some f

/-- The fields or properties that are injected: those with an ordinal and the required ones.  They
    are numbered from `first` on. -/
def injectedMembers (first : Nat) (members : List InjectedMember) : List InjectedMember :=
  (members.filter fun m => m.ordinal.isSome || m.isRequired).mapIdx fun place m =>
    { m with position := first + place }

/-- The constructions of a class in the order of preference. -/
def constructions (rules : List AttributeRule) (location : Location)
    (canAnswer : Request → Bool) (c : Class) : Except (List Fault) (List Construction) :=
  if c.isAbstract then .error [.abstractClass c.type location]
  else
    let reader : AttributeReader := ⟨rules, c.type, location⟩
    let constructors := reader.constructors c
    let fields := reader.fields c
    let properties := reader.properties c
    let methods := reader.methods c
    let faults :=
      faultsOf constructors ++ faultsOf fields ++ faultsOf properties ++ faultsOf methods
    if !faults.isEmpty then .error faults
    else if constructors.isEmpty then .error [.noAccessibleConstructor c.type location]
    else
      let fields := injectedMembers 0 (successes fields)
      let properties := injectedMembers fields.length (successes properties)
      let methods := (successes methods).filter (·.ordinal.isSome)
      .ok <| (ConstructorCandidate.rank canAnswer (successes constructors)).map fun constructor =>
        { type := c.type, constructor, methods, fields, properties }

/-- The kinds of node that a binding gives, from the first choice on. -/
def kinds (rules : List AttributeRule) (canAnswer : Request → Bool) (b : Binding) :
    Except (List Fault) (List Kind) :=
  match b.recipe with
  | .construct c => (constructions rules b.location canAnswer c).map (·.map .construct)
  | .factory f => .ok [.factory f]
  | .outside o => .ok [.outside o]
  | .builtin kind => .ok [.provide { kind, type := b.contract, items := [] }]

/-- The nodes of a binding, numbered from `first` on.  The items of a collection are left out. -/
def build (rules : List AttributeRule) (canAnswer : Request → Bool) (first : NodeId)
    (b : Binding) : Except (List Fault) (List Node) :=
  (kinds rules canAnswer b).map fun kinds =>
    kinds.mapIdx fun variant kind =>
      { id := first + variant
        binding := b.id
        key := b.key
        variant
        lifetime := b.lifetime
        contract := b.contract
        kind
        location := b.location }

/-- What building the nodes of a binding tells. -/
def buildJournal (b : Binding) (built : Except (List Fault) (List Node)) : Journal :=
  match built with
  | .ok nodes => Journal.trace s!"Built {nodes.length} node(s) for {b.instanceType}."
  | .error _ => #[]

end Node

end ObjectGraph
