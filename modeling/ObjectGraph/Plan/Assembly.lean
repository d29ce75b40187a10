import ObjectGraph.Plan.Basic

/-
  Assemblies: which variable goes to which parameter and member of a constructed instance.

  Slots are numbered constructor parameters first, then fields, properties and the parameters of the
  methods.  Required members are supplied together with the constructor call; the others, and all
  method calls, follow afterwards in the order of their ordinals.
-/

namespace ObjectGraph

/-- A member that is set or called. -/
inductive MemberUse where
  /-- The field at an index is set. -/
  | field (index : Nat) (var : VariableId)
  /-- The property at an index is set. -/
  | property (index : Nat) (var : VariableId)
  /-- The method at an index is called; a parameter without a variable keeps its default value. -/
  | method (index : Nat) (arguments : List (Option VariableId))
  deriving DecidableEq, Inhabited

/-- A member with what decides about its place in the order of injection. -/
structure RankedUse where
  /-- Supplied together with the constructor call. -/
  isRequired : Bool
  /-- Its ordinal. -/
  ordinal : Option Int
  /-- Its place among all members. -/
  position : Nat
  /-- The use. -/
  use : MemberUse
  deriving DecidableEq, Inhabited

namespace RankedUse

/-- By ordinal, members without one last, and then by position. -/
def cmp (a b : RankedUse) : Ordering :=
  (compare a.ordinal.isNone b.ordinal.isNone).then <|
    (compare a.ordinal b.ordinal).then (compare a.position b.position)

/-- The uses in the order of injection. -/
def inOrder (uses : List RankedUse) : List MemberUse :=
  (uses.mergeSort fun a b => a.cmp b != .gt).map (·.use)

end RankedUse

/-- The variables of one instantiation, in the order of their use. -/
structure Assembly where
  /-- The arguments of the constructor; without a variable, a parameter keeps its default value. -/
  constructor : List (Option VariableId) := []
  /-- The members supplied together with the constructor call. -/
  required : List MemberUse := []
  /-- The members that follow. -/
  post : List MemberUse := []
  deriving DecidableEq, Inhabited

namespace Assembly

/-- The variables of `count` slots from `first` on. -/
def arguments (supplied : Nat → Option VariableId) (first count : Nat) :
    List (Option VariableId) :=
  (List.range' first count).map supplied

/-- The uses of members of one kind, whose slots are numbered from `first` on.  A member without a
    variable is left out. -/
def memberUses (supplied : Nat → Option VariableId) (first : Nat)
    (use : Nat → VariableId → MemberUse) (members : List InjectedMember) : List RankedUse :=
  members.zipIdx.filterMap fun (m, index) =>
    (supplied (first + index)).map fun var =>
      { isRequired := m.isRequired, ordinal := m.ordinal, position := m.position,
        use := use index var }

/-- The calls of methods.  The method at the head has the given index, its first slot is `first`, and
    it comes after `earlier` members. -/
def methodUses (supplied : Nat → Option VariableId) (earlier : Nat) (first index : Nat) :
    List InjectedCall → List RankedUse
  | [] => []
  | m :: rest =>
    { isRequired := false, ordinal := m.ordinal, position := earlier + index,
      use := .method index (arguments supplied first m.parameters.length) } ::
      methodUses supplied earlier (first + m.parameters.length) (index + 1) rest

/-- All uses of members of a construction. -/
def uses (supplied : Nat → Option VariableId) (c : Construction) : List RankedUse :=
  let fields := c.constructor.parameters.length
  let properties := fields + c.fields.length
  let methods := properties + c.properties.length
  memberUses supplied fields .field c.fields ++
    memberUses supplied properties .property c.properties ++
    methodUses supplied (c.fields.length + c.properties.length) methods 0 c.methods

/-- The assembly of a construction from the variables supplied for its slots. -/
def of (c : Construction) (supplied : Nat → Option VariableId) : Assembly :=
  let uses := uses supplied c
  { constructor := arguments supplied 0 c.constructor.parameters.length
    required := RankedUse.inOrder (uses.filter (·.isRequired))
    post := RankedUse.inOrder (uses.filter (!·.isRequired)) }

end Assembly

end ObjectGraph
