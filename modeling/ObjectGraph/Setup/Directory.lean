import ObjectGraph.Journal
import ObjectGraph.Setup.Basic

/-
  Directories of setups, in which every name stands once.
-/

namespace ObjectGraph

/-- Setups by their names. -/
abbrev SetupDirectory := NameMap Setup

namespace SetupDirectory

/-- A setup with a name that is taken. -/
structure DuplicateName where
  /-- The name. -/
  name : String
  deriving DecidableEq, Inhabited

/-- The text of the refusal. -/
def DuplicateName.message (d : DuplicateName) : String :=
  s!"Attempted to register a duplicated setup with name: {d.name}"

/-- The directory with one more setup, whose name must be free. -/
def register (directory : SetupDirectory) (s : Setup) : Except DuplicateName SetupDirectory :=
  if directory.contains s.name then .error ⟨s.name⟩ else .ok (directory.insert s.name s)

/-- The directory of a list of setups. -/
def ofSetups (setups : List Setup) : Except DuplicateName SetupDirectory :=
  setups.foldlM register ∅

/-- What filling a directory tells. -/
def journal (directory : SetupDirectory) : Journal :=
  Journal.debug s!"Registered {directory.size} setup(s)."

/-- The global setups in the order of their names. -/
def globals (directory : SetupDirectory) : List Setup := directory.values.filter (·.isGlobal)

/-- The setups of compositions in the order of their names. -/
def compositions (directory : SetupDirectory) : List Setup :=
  directory.values.filter (!·.isGlobal)

end SetupDirectory

end ObjectGraph
