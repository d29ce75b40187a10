import ObjectGraph.Location

/-
  Diagnostics: structured records of what a user is to be told, each with a stable code.
-/

namespace ObjectGraph

namespace Diagnostic

/-- How serious a diagnostic is. -/
inductive Severity where
  /-- For information. -/
  | info
  /-- Suspicious, but not fatal. -/
  | warning
  /-- Fatal. -/
  | error
  deriving DecidableEq, Inhabited

/-- The name of a severity. -/
def Severity.text : Severity → String
  | .info => "Info"
  | .warning => "Warning"
  | .error => "Error"

/-- What a diagnostic is about. -/
inductive Code where
  /-- The metadata of a class or a setup cannot be used. -/
  | invalidMetadata
  /-- A cycle of dependencies. -/
  | cyclicDependency
  /-- A request that nothing answers. -/
  | unableToResolve
  /-- The compilation was cancelled. -/
  | cancelled
  /-- A binding that a later one replaces. -/
  | overriddenBinding
  deriving DecidableEq, Inhabited

/-- The stable identifier of a code. -/
def Code.text : Code → String
  | .invalidMetadata => "DIE001"
  | .cyclicDependency => "DIE002"
  | .unableToResolve => "DIE003"
  | .cancelled => "DIE004"
  | .overriddenBinding => "DIW001"

end Diagnostic

/-- A record of what a user is to be told. -/
structure Diagnostic where
  /-- How serious it is. -/
  severity : Diagnostic.Severity
  /-- What it is about. -/
  code : Diagnostic.Code
  /-- Its text in lines. -/
  lines : List String
  /-- The place that it is about, if there is one. -/
  location : Option Location
  deriving DecidableEq, Inhabited

namespace Diagnostic

/-- The lines in one line. -/
def message (d : Diagnostic) : String := " ".intercalate d.lines

/-- The text of a diagnostic: severity, code and message. -/
def text (d : Diagnostic) : String := s!"{d.severity.text} {d.code.text}: {d.message}"

end Diagnostic

end ObjectGraph
