import ObjectGraph.Class.Member

/-
  Implementation classes.  All that the compiler knows about a type that it is to construct stands
  in a `Class`; source text is never looked at.
-/

namespace ObjectGraph

/-- An implementation class with its members and base types. -/
structure Class where
  /-- The type of the class. -/
  type : TypeTerm
  /-- An abstract class cannot be constructed. -/
  isAbstract : Bool := false
  /-- Its constructors; a class that declares none has the public one without parameters. -/
  constructors : List Method := [{}]
  /-- Its methods. -/
  methods : List Method := []
  /-- Its fields. -/
  fields : List Field := []
  /-- Its properties. -/
  properties : List Property := []
  /-- The types that it extends. -/
  baseTypes : List TypeTerm := []
  deriving DecidableEq, Inhabited

/-- Substitutes in all types that the class and its members declare. -/
def Class.substitute (s : Substitution) (c : Class) : Class where
  type := c.type.substitute s
  isAbstract := c.isAbstract
  constructors := c.constructors.map (·.substitute s)
  methods := c.methods.map (·.substitute s)
  fields := c.fields.map (·.substitute s)
  properties := c.properties.map (·.substitute s)
  baseTypes := c.baseTypes.map (·.substitute s)

end ObjectGraph
