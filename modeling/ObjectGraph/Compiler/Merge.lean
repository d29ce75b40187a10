import ObjectGraph.Fault
import ObjectGraph.Setup.Directory
import ObjectGraph.Setup.Standard
import ObjectGraph.Type.Oracle

/-
  What goes into a composition besides its own setup.

  A compiler knows global setups, which are part of every composition, and a catalog of setups that
  others can depend on by name.  The contributions to a composition are the globals, then the setups
  it depends on, depth-first with dependencies before dependents, and then its own setup.  Later
  declarations win, so this is the order from the weakest to the strongest.
-/

namespace ObjectGraph

/-- What a compiler knows. -/
structure Compiler where
  /-- What is asked about types. -/
  types : TypeOracle := .standard
  /-- Whether the standard setup is part of every composition. -/
  includesStandard : Bool := true
  /-- Further setups that are part of every composition. -/
  globals : List Setup := []
  /-- Setups that others can depend on. -/
  catalog : NameMap Setup := ∅

namespace Compiler

/-- Makes a setup part of every composition. -/
def addGlobal (c : Compiler) (s : Setup) : Compiler := { c with globals := c.globals ++ [s] }

/-- Lets other setups depend on a setup.  It replaces one of the same name. -/
def addSetup (c : Compiler) (s : Setup) : Compiler :=
  { c with catalog := c.catalog.insert s.name s }

/-- Adds all setups of a directory: the globals are made part of every composition, others can
    depend on the rest. -/
def addDirectory (c : Compiler) (d : SetupDirectory) : Compiler :=
  d.compositions.foldl addSetup (d.globals.foldl addGlobal c)

/-- All global setups. -/
def allGlobals (c : Compiler) : List Setup :=
  if c.includesStandard then .standard :: c.globals else c.globals

end Compiler

/-! ## Dependencies -/

/-- The state of the search for the setups that a setup depends on. -/
structure DependencySearch where
  /-- The names met so far. -/
  met : List String
  /-- The setups found so far, dependencies before dependents. -/
  found : List Setup := []
  /-- The faults found so far. -/
  faults : List Fault := []

namespace DependencySearch

/-- Follows the dependencies of a setup.  A name is followed once, and a global setup not at all,
    since it is part of the composition anyway.  Each level follows a new name of the catalog, so the
    depth never exceeds their number by more than one. -/
def follow (catalog : NameMap Setup) (depth : Nat) (st : DependencySearch) (s : Setup) :
    DependencySearch :=
  match depth with
  | 0 => st
  | depth + 1 =>
    s.dependsOn.foldl (fun st name =>
      if name ∈ st.met then st
      else
        let st := { st with met := name :: st.met }
        match catalog.get? name with
        | some d =>
          if d.isGlobal then st
          else
            let st := follow catalog depth st d
            { st with found := st.found ++ [d] }
        | none =>
          { st with faults := st.faults ++ [.unknownDependency s.name name s.location] }) st

end DependencySearch

/-! ## Merging -/

namespace Compiler

/-- The search for the setups that a setup depends on. -/
def dependencies (c : Compiler) (s : Setup) : DependencySearch :=
  .follow c.catalog (c.catalog.size + 1) { met := [s.name] } s

/-- The contributions to the composition of a setup, from the weakest to the strongest.  A global
    setup of the same name is left out. -/
def contributions (c : Compiler) (s : Setup) : Except (List Fault) (List Setup) :=
  let d := c.dependencies s
  if d.faults.isEmpty then
    .ok (c.allGlobals.filter (·.name ≠ s.name) ++ d.found ++ [s])
  else .error d.faults

/-- Binds the name of a setup to the composition itself. -/
def ownDeclaration (s : Setup) : Declaration :=
  { contracts := [.plain s.name], recipe := .builtin .composition, location := s.location }

/-- A setup that declares nothing but the composition itself. -/
def emptyOf (s : Setup) : Setup :=
  { name := s.name, kind := s.kind, declarations := [ownDeclaration s], dependsOn := s.dependsOn,
    location := s.location }

/-- The setup with all that contributes to its composition. -/
def merge (c : Compiler) (s : Setup) : Except (List Fault) Setup :=
  (c.contributions s).map fun all => all.foldl Setup.append (emptyOf s)

end Compiler

end ObjectGraph
