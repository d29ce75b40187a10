import ObjectGraph.Binding.Basic

/-
  Nodes: the concrete ways in which a binding can be satisfied.

  A class with several usable constructors gives one node for each of them, ranked from the first
  choice on (the variants of the binding); every other recipe gives one node.  The requests of a
  node are numbered as its slots: constructor parameters, then fields, then properties, then the
  parameters of the methods.
-/

namespace ObjectGraph

/-- The place of a node in its graph. -/
abbrev NodeId := Nat

/-! ## Injected members -/

/-- A parameter that receives what it requests. -/
structure InjectedParameter where
  /-- Its name. -/
  name : String
  /-- What it requests. -/
  request : Request
  /-- A parameter with a default value can be left without an argument. -/
  hasDefault : Bool
  deriving DecidableEq, Inhabited

/-- A constructor or a method that is called with what its parameters request. -/
structure InjectedCall where
  /-- Its name. -/
  name : String
  /-- Its visibility. -/
  visibility : Visibility
  /-- Its place in the order of injection, if it has one. -/
  ordinal : Option Int
  /-- Its parameters. -/
  parameters : List InjectedParameter
  deriving DecidableEq, Inhabited

/-- A field or a property that is set to what it requests. -/
structure InjectedMember where
  /-- Its name. -/
  name : String
  /-- Its place in the order of injection, if it has one. -/
  ordinal : Option Int
  /-- A required member is supplied together with the constructor call. -/
  isRequired : Bool
  /-- What it requests. -/
  request : Request
  /-- Its place among the fields and properties of the class that are injected. -/
  position : Nat
  deriving DecidableEq, Inhabited

/-- One constructor of a class together with the members that are injected. -/
structure Construction where
  /-- The constructed type. -/
  type : TypeTerm
  /-- The constructor. -/
  constructor : InjectedCall
  /-- The methods. -/
  methods : List InjectedCall
  /-- The fields. -/
  fields : List InjectedMember
  /-- The properties. -/
  properties : List InjectedMember
  deriving DecidableEq, Inhabited

/-- The parameters of all methods, in order. -/
def Construction.methodParameters (c : Construction) : List InjectedParameter :=
  c.methods.flatMap (·.parameters)

/-- The number of requests that a construction makes. -/
def Construction.requestCount (c : Construction) : Nat :=
  c.constructor.parameters.length + c.fields.length + c.properties.length +
    c.methodParameters.length

/-- What the compiler provides itself. -/
structure Provision where
  /-- What it is. -/
  kind : Builtin
  /-- The type under which it is requested. -/
  type : TypeTerm
  /-- The items of a collection, each with the binding that it comes from. -/
  items : List (Request × BindingId)
  deriving DecidableEq, Inhabited

/-! ## Nodes -/

/-- How a node comes by its instance. -/
inductive Node.Kind where
  /-- By a constructor call. -/
  | construct (c : Construction)
  /-- By a factory. -/
  | factory (f : Factory)
  /-- From outside. -/
  | outside (o : Outside)
  /-- From the compiler. -/
  | provide (p : Provision)
  deriving DecidableEq, Inhabited

/-- A concrete way to satisfy a binding. -/
structure Node where
  /-- Its place in the graph. -/
  id : NodeId
  /-- The binding that it satisfies. -/
  binding : BindingId
  /-- The storage key of the binding. -/
  key : BindingKey
  /-- Its rank among the nodes of the binding, 0 for the first choice. -/
  variant : Nat
  /-- The lifetime of the instances. -/
  lifetime : Lifetime
  /-- The bound type. -/
  contract : TypeTerm
  /-- How it comes by its instance. -/
  kind : Node.Kind
  /-- Where the binding was declared. -/
  location : Location
  deriving DecidableEq, Inhabited

/-- A numbered request of a node. -/
structure Slot where
  /-- Its number. -/
  index : Nat
  /-- The request. -/
  request : Request
  /-- An optional slot can stay empty. -/
  isOptional : Bool
  /-- The binding that has to fill the slot, for the items of collections. -/
  pinned : Option BindingId
  deriving DecidableEq, Inhabited

namespace Node

/-- The slots of a kind of node before they are numbered: request, optional, pinned binding. -/
def Kind.requests : Kind → List (Request × Bool × Option BindingId)
  | .construct c =>
    c.constructor.parameters.map (fun p => (p.request, p.hasDefault, none)) ++
      c.fields.map (fun m => (m.request, false, none)) ++
      c.properties.map (fun m => (m.request, false, none)) ++
      c.methodParameters.map (fun p => (p.request, p.hasDefault, none))
  | .factory f => f.requests.map fun r => (r, false, none)
  | .outside _ => []
  | .provide p => p.items.map fun item => (item.1, false, some item.2)

/-- The slots of a node in order. -/
def slots (n : Node) : List Slot :=
  n.kind.requests.mapIdx fun index (request, isOptional, pinned) =>
    { index, request, isOptional, pinned }

/-- The type of the instances. -/
def instanceType (n : Node) : TypeTerm :=
  match n.kind with
  | .construct c => c.type
  | .factory f => f.type
  | .outside o => o.type
  | .provide p => p.type

/-- The text of a node: the type of its instances. -/
def text (n : Node) : String := n.instanceType.text

instance : ToString Node := ⟨text⟩

/-- Tells nodes that a factory serves. -/
def isFactory (n : Node) : Bool :=
  match n.kind with
  | .factory _ => true
  | _ => false

/-- Tells nodes of deferred factories.  What they depend on is not needed to make them, so a cycle
    through such a node is none. -/
def isDeferred (n : Node) : Bool :=
  match n.kind with
  | .factory f => f.isDeferred
  | _ => false

/-- Tells nodes of values from outside. -/
def isOutside (n : Node) : Bool :=
  match n.kind with
  | .outside _ => true
  | _ => false

/-- What the compiler provides by this node. -/
def builtin? (n : Node) : Option Builtin :=
  match n.kind with
  | .provide p => some p.kind
  | _ => none

/-- Tells lazy sequences. -/
def isEnumerable (n : Node) : Bool := n.builtin? == some .enumerable

end Node

end ObjectGraph
