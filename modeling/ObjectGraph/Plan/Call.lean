import ObjectGraph.Graph.Basic
import ObjectGraph.Plan.Assembly

/-
  Calls: what the handlers of an emitter are handed, one call after another.

  There is a handler for blocks, and one for each way in which an instantiation comes by its instance;
  a constructor call is followed by the members that are injected after it.  A call also says in which
  block of which plan it is made.  The graph and the variables, which a handler may look at as well,
  are those of the composition.
-/

namespace ObjectGraph

/-- What a handler is asked to render. -/
inductive Call.Subject where
  /-- The beginning of a block. -/
  | block
  /-- A constructor call. -/
  | construct (i : Instantiation) (c : Construction) (assembly : Assembly)
  /-- A field that is set afterwards. -/
  | setField (i : Instantiation) (field : InjectedMember) (var : VariableId)
  /-- A property that is set afterwards. -/
  | setProperty (i : Instantiation) (property : InjectedMember) (var : VariableId)
  /-- A method that is called afterwards. -/
  | callMethod (i : Instantiation) (method : InjectedCall) (arguments : List (Option VariableId))
  /-- The use of a factory. -/
  | factory (i : Instantiation) (f : Factory)
  /-- The use of a value from outside. -/
  | outside (i : Instantiation) (o : Outside)
  /-- Something that the compiler provides; there is a handler for each kind of it. -/
  | provide (i : Instantiation) (p : Provision)
  deriving DecidableEq, Inhabited

/-- A call of a handler. -/
structure Call where
  /-- The plan. -/
  plan : Plan
  /-- The block of the plan. -/
  block : Block
  /-- What is to be rendered. -/
  subject : Call.Subject
  deriving DecidableEq, Inhabited

namespace Call

/-- A member that is injected after construction. -/
def Subject.ofMember (i : Instantiation) (c : Construction) : MemberUse → Subject
  | .field index var => .setField i (c.fields.getD index default) var
  | .property index var => .setProperty i (c.properties.getD index default) var
  | .method index arguments => .callMethod i (c.methods.getD index default) arguments

/-- What there is to render of an instantiation. -/
def Subject.ofInstantiation (g : Graph) (a : Arena) (i : Instantiation) : List Subject :=
  match (g.node (a.var i.target).node).kind with
  | .construct c =>
    let assembly := Assembly.of c i.supplied?
    .construct i c assembly :: assembly.post.map (ofMember i c)
  | .factory f => [.factory i f]
  | .outside o => [.outside i o]
  | .provide p => [.provide i p]

/-- What there is to render of a block. -/
def Subject.ofBlock (g : Graph) (a : Arena) (b : Block) : List Subject :=
  .block :: b.instantiations.flatMap (ofInstantiation g a)

/-- The calls for plans. -/
def ofPlans (g : Graph) (a : Arena) (plans : List Plan) : List Call :=
  plans.flatMap fun p => p.blocks.flatMap fun b => (Subject.ofBlock g a b).map (⟨p, b, ·⟩)

end Call

end ObjectGraph
