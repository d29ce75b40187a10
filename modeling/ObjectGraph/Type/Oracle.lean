import ObjectGraph.Type.System

/-
  What a compiler asks about types.

  A compiler does not know the types of a program.  It asks a `TypeOracle` and takes the answers as
  they are.  A `TypeSystem` is one such oracle.
-/

namespace ObjectGraph

/-- Answers questions about types. -/
structure TypeOracle where
  /-- Tells if an instance of the first type can be used where the second one is expected. -/
  isAssignable (concrete requested : TypeTerm) : Bool
  /-- The types to put for the markers of the first type so that it becomes the second one. -/
  unify (pattern target : TypeTerm) : Option Substitution
  /-- Tells if the type is a generic marker. -/
  isMarker (t : TypeTerm) : Bool

/-- The answers of a type system. -/
def TypeSystem.oracle (ts : TypeSystem) : TypeOracle where
  isAssignable := ts.isAssignable
  unify := ts.unify
  isMarker := ts.isMarker

instance : Coe TypeSystem TypeOracle := ⟨TypeSystem.oracle⟩

namespace TypeOracle

/-- The answers of the standard type system. -/
def standard : TypeOracle := TypeSystem.standard

/-- Tells if a generic marker occurs in the type. -/
def isOpen (o : TypeOracle) (t : TypeTerm) : Bool := t.any o.isMarker

/-- The types to put for the markers of a bound type so that it becomes the requested one. -/
def matchContract (o : TypeOracle) (contract requested : TypeTerm) : Option Substitution :=
  if contract = requested then some ∅
  else if o.isOpen contract then o.unify contract requested
  else none

end TypeOracle

end ObjectGraph
