import ObjectGraph.Lifetime
import ObjectGraph.Recipe
import ObjectGraph.Setup.Hints

/-
  Setups: what the user writes down about one composition.

  A setup lists declarations (which types are bound to which recipe), the roots to resolve, and
  what goes with them: hints, accumulators, fallback handlers and attribute rules.  Setups are
  combined by appending (`Setup.append`), and since later declarations win over earlier ones, a
  setup is appended after everything that it is to override.
-/

namespace ObjectGraph

/-- Binds types to a recipe.  One declaration can bind several types. -/
structure Declaration where
  /-- The bound types; when there are none, the type of the recipe is bound, and for a class also
      its base types. -/
  contracts : List TypeTerm := []
  /-- The tags that the bindings answer. -/
  tags : List Tag := []
  /-- The lifetime of the instances, transient if none is given. -/
  lifetime : Option Lifetime := none
  /-- How instances come about. -/
  recipe : Recipe
  /-- Where it was declared. -/
  location : Location := {}
  deriving DecidableEq, Inhabited

/-- How a root is exposed in the generated code.  The compiler hands this on. -/
structure Exposure where
  /-- Visible from outside. -/
  isPublic : Bool := true
  /-- Static. -/
  isStatic : Bool := false
  /-- A method rather than a property. -/
  isMethod : Bool := false
  /-- Partial. -/
  isPartial : Bool := false
  deriving DecidableEq, Inhabited

/-- A root as it is declared: a name for a request to be resolved. -/
structure RootDeclaration where
  /-- Its name. -/
  name : String
  /-- The requested type. -/
  type : TypeTerm
  /-- The requested tag. -/
  tag : Tag := .untagged
  /-- How it is exposed. -/
  exposure : Exposure := {}
  /-- Where it was declared. -/
  location : Location := {}
  deriving DecidableEq, Inhabited

/-- The request that a root makes. -/
def RootDeclaration.request (r : RootDeclaration) : Request := ⟨r.type, r.tag⟩

/-- Gathers the created instances of a type, for instance those to be disposed of. -/
structure Accumulator where
  /-- Its name. -/
  name : String
  /-- Instances assignable to this type are gathered. -/
  captured : TypeTerm
  /-- The type of the accumulator itself. -/
  type : TypeTerm
  /-- The lifetimes of the instances that are gathered. -/
  lifetimes : List Lifetime := []
  /-- A root accumulator also gathers instances of shared lifetimes. -/
  isRoot : Bool := false
  deriving DecidableEq, Inhabited

/-- Tells if instances of the lifetime are gathered. -/
def Accumulator.capturesLifetime (a : Accumulator) (l : Lifetime) : Bool :=
  a.lifetimes.contains l && (a.isRoot || !l.isShared)

/-- A handler that is asked at run time for what no binding answers. -/
structure Handler where
  /-- Its name. -/
  name : String
  /-- The type that it serves; a generic marker serves every type. -/
  type : TypeTerm
  /-- The tag that it serves; the wildcard serves every tag. -/
  tag : Tag := .untagged
  /-- Where it was declared. -/
  location : Location := {}
  deriving DecidableEq, Inhabited

/-- The kind of composition that a setup describes. -/
inductive Setup.Kind where
  /-- A composition that is visible everywhere. -/
  | exported
  /-- A composition for its own project. -/
  | internal
  /-- No composition of its own: part of every other one. -/
  | global
  deriving DecidableEq, Inhabited

/-- All that is declared about one composition. -/
structure Setup where
  /-- Its name. -/
  name : String := ""
  /-- Its kind. -/
  kind : Setup.Kind := .exported
  /-- Declarations of bindings. -/
  declarations : List Declaration := []
  /-- Declared roots. -/
  roots : List RootDeclaration := []
  /-- Hints. -/
  hints : Hints := ∅
  /-- Accumulators. -/
  accumulators : List Accumulator := []
  /-- Fallback handlers. -/
  handlers : List Handler := []
  /-- Attribute rules. -/
  rules : List AttributeRule := []
  /-- Names of the setups that are merged before this one. -/
  dependsOn : List String := []
  /-- Where it was declared. -/
  location : Location := {}
  deriving DecidableEq, Inhabited

namespace Setup

/-- Tells setups that are part of every composition. -/
def isGlobal (s : Setup) : Bool := s.kind == .global

/-- The setup with the declarations of another one after its own; hints of the other one win.  The
    name, the kind, the dependencies and the location are kept. -/
def append (s other : Setup) : Setup :=
  { s with
    declarations := s.declarations ++ other.declarations
    roots := s.roots ++ other.roots
    hints := s.hints.union other.hints
    accumulators := s.accumulators ++ other.accumulators
    handlers := s.handlers ++ other.handlers
    rules := s.rules ++ other.rules }

end Setup

end ObjectGraph
