/-
  Places in source files, by which faults and diagnostics are located.
-/

namespace ObjectGraph

/-- A position in a source file. -/
structure Location where
  /-- The file. -/
  file : String := ""
  /-- The line. -/
  line : Nat := 0
  /-- The column. -/
  column : Nat := 0
  deriving DecidableEq, Inhabited

/-- The text of a location: `file:line:column`. -/
def Location.text (l : Location) : String := s!"{l.file}:{l.line}:{l.column}"

instance : ToString Location := ⟨Location.text⟩

end ObjectGraph
