import ObjectGraph.Plan.Call

/-
  Events: the calls of the handlers in brief.

  An event names what is rendered and the variables that take part in it.  It says nothing of the
  signatures, of the requests behind the variables and of the steps of the block.
-/

namespace ObjectGraph

/-- Something that an emitter of code has to render. -/
inductive Event where
  /-- A block of a root begins. -/
  | block (root : String) (var : VariableId)
  /-- A constructor is called. -/
  | construct (target : VariableId) (type : TypeTerm) (assembly : Assembly)
  /-- A field is set afterwards. -/
  | setField (target : VariableId) (name : String) (var : VariableId)
  /-- A property is set afterwards. -/
  | setProperty (target : VariableId) (name : String) (var : VariableId)
  /-- A method is called afterwards. -/
  | callMethod (target : VariableId) (name : String) (arguments : List (Option VariableId))
  /-- A factory is used. -/
  | factory (target : VariableId) (name : String) (isFallback : Bool)
  /-- A value from outside is used. -/
  | outside (target : VariableId) (name : String)
  /-- The compiler provides something. -/
  | provide (kind : Builtin) (target : VariableId) (type : TypeTerm) (items : Nat)
  deriving DecidableEq, Inhabited

/-- A call in brief. -/
def Call.event (c : Call) : Event :=
  match c.subject with
  | .block => .block c.plan.name c.block.root
  | .construct i k assembly => .construct i.target k.type assembly
  | .setField i field var => .setField i.target field.name var
  | .setProperty i property var => .setProperty i.target property.name var
  | .callMethod i method arguments => .callMethod i.target method.name arguments
  | .factory i f => .factory i.target f.name f.isFallback
  | .outside i o => .outside i.target o.name
  | .provide i p => .provide p.kind i.target p.type p.items.length

end ObjectGraph
