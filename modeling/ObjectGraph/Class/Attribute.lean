import ObjectGraph.Location
import ObjectGraph.Request

/-
  Attributes on the members of a class, and the rules that give them a meaning.

  An attribute is a use of an attribute type with constant arguments.  By itself it means nothing
  to the compiler: an `AttributeRule` of a setup says that the argument at a certain position of a
  certain attribute type is an injection ordinal, the type to inject, or the tag to ask for.
-/

namespace ObjectGraph

/-- A constant argument of an attribute. -/
inductive Constant where
  /-- An integer. -/
  | int (value : Int)
  /-- A text. -/
  | str (value : String)
  /-- A type. -/
  | type (value : TypeTerm)
  deriving DecidableEq, Inhabited

namespace Constant

/-- The constant read as an ordinal: only integers are ordinals. -/
def ordinal? : Constant → Option Int
  | .int value => some value
  | _ => none

/-- The constant read as a tag: the text itself, or the decimal digits of an integer. -/
def tag? : Constant → Option Tag
  | .int value => some (.named (toString value))
  | .str value => some (.named value)
  | .type _ => none

/-- The constant read as a type. -/
def type? : Constant → Option TypeTerm
  | .type value => some value
  | _ => none

end Constant

/-- One attribute on a member. -/
structure Attribute where
  /-- The attribute type. -/
  type : TypeTerm
  /-- Its arguments. -/
  args : List Constant := []
  deriving DecidableEq, Inhabited

/-- What the argument of an attribute says about the annotated member. -/
inductive AttributeRole where
  /-- The order of injection; it also marks the member as injected. -/
  | ordinal
  /-- The type to request instead of the type of the member. -/
  | type
  /-- The tag to request. -/
  | tag
  deriving DecidableEq, Inhabited

/-- Gives a role to the argument at one position of an attribute type. -/
structure AttributeRule where
  /-- The role. -/
  role : AttributeRole
  /-- The attribute type that plays it. -/
  type : TypeTerm
  /-- The position of the argument that carries the value. -/
  position : Nat := 0
  /-- Where the rule was declared. -/
  location : Location := {}
  deriving DecidableEq, Inhabited

end ObjectGraph
