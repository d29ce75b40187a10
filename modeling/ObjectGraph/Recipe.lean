import ObjectGraph.Class.Basic

/-
  Recipes: the ways in which the instances of a binding come about.

  An instance is built by a constructor of a class, made by a factory of the user, handed in from
  outside, or provided by the compiler itself (collections, the composition, the last resort for
  requests that nothing answers).
-/

namespace ObjectGraph

/-- Substitutes in the type of a request. -/
def Request.substitute (s : Substitution) (r : Request) : Request :=
  { r with type := r.type.substitute s }

/-- A factory that makes instances of a type. -/
structure Factory where
  /-- Its name. -/
  name : String
  /-- The type of what it makes. -/
  type : TypeTerm
  /-- What it asks for. -/
  requests : List Request := []
  /-- A deferred factory asks for its dependencies when the made value is used, not before. -/
  isDeferred : Bool := false
  /-- Stands for a fallback handler. -/
  isFallback : Bool := false
  deriving DecidableEq, Inhabited

/-- Substitutes in the made type and in the requests. -/
def Factory.substitute (s : Substitution) (f : Factory) : Factory :=
  { f with type := f.type.substitute s, requests := f.requests.map (·.substitute s) }

/-- A value handed in from outside. -/
structure Outside where
  /-- Its name. -/
  name : String
  /-- Its type. -/
  type : TypeTerm
  deriving DecidableEq, Inhabited

/-- What the compiler provides itself. -/
inductive Builtin where
  /-- A lazy sequence of all instances of the element type. -/
  | enumerable
  /-- An array of all instances of the element type. -/
  | array
  /-- A span of all instances of the element type. -/
  | span
  /-- The composition instance. -/
  | composition
  /-- The last resort for requests that nothing else answers. -/
  | onCannotResolve
  deriving DecidableEq, Inhabited

/-- Collections gather all bindings of their element type. -/
def Builtin.isCollection : Builtin → Bool
  | .enumerable | .array | .span => true
  | _ => false

/-- The way in which the instances of a binding come about. -/
inductive Recipe where
  /-- Built by a constructor of the class. -/
  | construct (c : Class)
  /-- Made by the factory. -/
  | factory (f : Factory)
  /-- Handed in from outside. -/
  | outside (o : Outside)
  /-- Provided by the compiler. -/
  | builtin (b : Builtin)
  deriving DecidableEq, Inhabited

namespace Recipe

/-- Substitutes in all types that the recipe mentions. -/
def substitute (s : Substitution) : Recipe → Recipe
  | .construct c => .construct (c.substitute s)
  | .factory f => .factory (f.substitute s)
  | .outside o => .outside { o with type := o.type.substitute s }
  | .builtin b => .builtin b

/-- The type of the instances, when the recipe fixes it. -/
def type? : Recipe → Option TypeTerm
  | .construct c => some c.type
  | .factory f => some f.type
  | .outside o => some o.type
  | .builtin _ => none

/-- Tells recipes of values from outside. -/
def isOutside : Recipe → Bool
  | .outside _ => true
  | _ => false

/-- Tells recipes of what the compiler provides. -/
def isBuiltin : Recipe → Bool
  | .builtin _ => true
  | _ => false

/-- Tells the last resort. -/
def isLastResort : Recipe → Bool
  | .builtin .onCannotResolve => true
  | _ => false

end Recipe

end ObjectGraph
