import ObjectGraph.Class.Attribute

/-
  Members of implementation classes: parameters, methods, fields and properties.

  Substituting in a member touches the types that it declares.  Attributes are left as they are
  written.
-/

namespace ObjectGraph

/-- From where a member can be used, from the narrowest scope to the widest. -/
inductive Visibility where
  /-- Inside its own class only. -/
  | hidden
  /-- In derived classes. -/
  | inherited
  /-- In its own project. -/
  | internal
  /-- Everywhere. -/
  | exported
  deriving DecidableEq, Inhabited

namespace Visibility

/-- Generated code reaches internal and exported members. -/
def isAccessible : Visibility → Bool
  | .internal | .exported => true
  | _ => false

/-- The place of a visibility in the order from narrow to wide. -/
def rank : Visibility → Nat
  | .hidden => 0
  | .inherited => 1
  | .internal => 2
  | .exported => 3

instance : Ord Visibility := ⟨fun a b => compare a.rank b.rank⟩

end Visibility

/-- A parameter of a constructor or a method. -/
structure Parameter where
  /-- Its name. -/
  name : String
  /-- Its type. -/
  type : TypeTerm
  /-- A parameter with a default value can be left without an argument. -/
  hasDefault : Bool := false
  /-- Its attributes. -/
  attributes : List Attribute := []
  deriving DecidableEq, Inhabited

/-- A constructor or a method. -/
structure Method where
  /-- Its name; constructors are called `.ctor`. -/
  name : String := ".ctor"
  /-- Its visibility. -/
  visibility : Visibility := .exported
  /-- Static methods belong to the class and are never injected. -/
  isStatic : Bool := false
  /-- Its parameters in order. -/
  parameters : List Parameter := []
  /-- Its attributes. -/
  attributes : List Attribute := []
  deriving DecidableEq, Inhabited

/-- A field. -/
structure Field where
  /-- Its name. -/
  name : String
  /-- Its type. -/
  type : TypeTerm
  /-- Its visibility. -/
  visibility : Visibility := .exported
  /-- Static fields belong to the class and are never injected. -/
  isStatic : Bool := false
  /-- A read-only field cannot be injected. -/
  isReadOnly : Bool := false
  /-- A required field has to be supplied together with the constructor call. -/
  isRequired : Bool := false
  /-- Its attributes. -/
  attributes : List Attribute := []
  deriving DecidableEq, Inhabited

/-- A property. -/
structure Property where
  /-- Its name. -/
  name : String
  /-- Its type. -/
  type : TypeTerm
  /-- Its visibility. -/
  visibility : Visibility := .exported
  /-- Static properties belong to the class and are never injected. -/
  isStatic : Bool := false
  /-- A property without a setter cannot be injected. -/
  hasSetter : Bool := true
  /-- An init-only setter can run during construction only. -/
  isInitOnly : Bool := false
  /-- A required property has to be supplied together with the constructor call. -/
  isRequired : Bool := false
  /-- Its attributes. -/
  attributes : List Attribute := []
  deriving DecidableEq, Inhabited

/-- Substitutes in the type of a parameter. -/
def Parameter.substitute (s : Substitution) (p : Parameter) : Parameter :=
  { p with type := p.type.substitute s }

/-- Substitutes in the types of the parameters. -/
def Method.substitute (s : Substitution) (m : Method) : Method :=
  { m with parameters := m.parameters.map (·.substitute s) }

/-- Substitutes in the type of a field. -/
def Field.substitute (s : Substitution) (f : Field) : Field :=
  { f with type := f.type.substitute s }

/-- Substitutes in the type of a property. -/
def Property.substitute (s : Substitution) (p : Property) : Property :=
  { p with type := p.type.substitute s }

/-- Members that injection can reach: accessible and not static. -/
def Method.isInjectable (m : Method) : Bool := m.visibility.isAccessible && !m.isStatic

/-- Fields that injection can write: accessible, not static and not read-only. -/
def Field.isInjectable (f : Field) : Bool :=
  f.visibility.isAccessible && !f.isStatic && !f.isReadOnly

/-- Properties that injection can write: accessible, not static and with a setter. -/
def Property.isInjectable (p : Property) : Bool :=
  p.visibility.isAccessible && !p.isStatic && p.hasSetter

end ObjectGraph
