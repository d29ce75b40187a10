import ObjectGraph.Diagnostic
import ObjectGraph.Request

/-
  Faults: the causes for which a composition cannot be compiled.

  Stages collect the faults they find; a `Failure` carries all faults of one compilation.
-/

namespace ObjectGraph

/-- A cause for which a composition cannot be compiled. -/
inductive Fault where
  /-- A class to be constructed is abstract. -/
  | abstractClass (type : TypeTerm) (location : Location)
  /-- A class to be constructed has no constructor that can be used. -/
  | noAccessibleConstructor (type : TypeTerm) (location : Location)
  /-- Several attributes of one role on one member. -/
  | conflictingAttributes (member : String) (type : TypeTerm) (location : Location)
  /-- A rule looks for an argument that an attribute does not have. -/
  | attributePosition (type : TypeTerm) (position count : Nat) (location : Location)
  /-- A request that nothing answers. -/
  | missingBinding (request : Request) (requester : String) (location : Location)
  /-- Dependencies that lead back to where they started. -/
  | cycle (path : List String) (location : Location)
  /-- A setup depends on a setup that is not there. -/
  | unknownDependency (setup dependency : String) (location : Location)
  /-- The compilation was cancelled. -/
  | cancelled (setup : String)
  deriving DecidableEq, Inhabited

namespace Fault

/-- What a fault is about. -/
inductive Kind where
  /-- Unusable metadata or dependencies between setups. -/
  | configuration
  /-- A request that nothing answers. -/
  | resolution
  /-- A cycle of dependencies. -/
  | cycle
  /-- An attribute without the argument that a rule looks for. -/
  | attributePosition
  /-- A cancelled compilation. -/
  | cancelled
  deriving DecidableEq, Inhabited

/-- The kind of a fault. -/
def kind : Fault → Kind
  | abstractClass .. | noAccessibleConstructor .. | conflictingAttributes ..
  | unknownDependency .. => .configuration
  | attributePosition .. => .attributePosition
  | missingBinding .. => .resolution
  | cycle .. => .cycle
  | cancelled _ => .cancelled

/-- The place that a fault is about; only a cancellation has none. -/
def location? : Fault → Option Location
  | abstractClass _ l | noAccessibleConstructor _ l | conflictingAttributes _ _ l
  | attributePosition _ _ _ l | missingBinding _ _ l | cycle _ l | unknownDependency _ _ l => some l
  | cancelled _ => none

/-- The text of a fault. -/
def message : Fault → String
  | abstractClass type _ =>
    s!"The {type} cannot be constructed due to being an abstract type."
  | noAccessibleConstructor type _ =>
    s!"The instance of {type} cannot be instantiated due to no accessible constructor available."
  | conflictingAttributes member type _ =>
    s!"{member} of the type {type} cannot be processed because it is marked with multiple mutually exclusive attributes."
  | attributePosition type position count _ =>
    s!"The argument position {position} of attribute {type} is out of range [0..{count}]."
  | missingBinding request requester _ =>
    s!"Unable to resolve \"{request}\" in {requester}."
  | cycle path _ =>
    "Cyclic dependency has been found: " ++ " -> ".intercalate path ++ "."
  | unknownDependency setup dependency _ =>
    s!"Setup {setup} depends on an unknown setup {dependency}."
  | cancelled setup => s!"Compilation of {setup} has been cancelled."

/-- The code under which faults of a kind are reported. -/
def Kind.code : Kind → Diagnostic.Code
  | configuration | attributePosition => .invalidMetadata
  | resolution => .unableToResolve
  | cycle => .cyclicDependency
  | cancelled => .cancelled

/-- The diagnostic that reports a fault. -/
def toDiagnostic (f : Fault) : Diagnostic :=
  { severity := .error, code := f.kind.code, lines := [f.message], location := f.location? }

end Fault

/-- All faults of one compilation. -/
structure Failure where
  /-- The name of the compiled setup. -/
  setup : String
  /-- The faults in the order in which they were found. -/
  faults : List Fault
  deriving DecidableEq, Inhabited

namespace Failure

/-- The text of a failure: the texts of all faults. -/
def message (f : Failure) : String :=
  s!"Compilation of {f.setup} failed: " ++ " ".intercalate (f.faults.map Fault.message)

/-- The diagnostics of the faults. -/
def diagnostics (f : Failure) : List Diagnostic := f.faults.map Fault.toDiagnostic

/-- Tells if a cancellation is among the faults. -/
def isCancelled (f : Failure) : Bool := f.faults.any (·.kind == .cancelled)

end Failure

end ObjectGraph
