import ObjectGraph.Binding.Basic
import ObjectGraph.Node.Basic

/-
  Variables and their arena.

  A variable stands for one constructed value.  A variable with a link holds no value of its own: it
  refers to the value of another variable.  The arena holds all variables of a composition by their
  ids and remembers, by storage key, those that later requests may use again.

  The lemmas at the end say what `allocate`, `update` and `store` do to the variables that are found
  by id (`var`) and by storage key (`lookup`).
-/

namespace ObjectGraph

/-- The place of a variable in its arena. -/
abbrev VariableId := Nat

/-- A constructed value, or a reference to one. -/
structure Variable where
  /-- Its place in the arena. -/
  id : VariableId
  /-- The node that it is an instance of. -/
  node : NodeId
  /-- The request that it was created for. -/
  request : Request
  /-- Kept in storage of the composition. -/
  isDeclared : Bool := false
  /-- Already there at this point of the current root. -/
  isCreated : Bool := false
  /-- Created by a block of its own. -/
  isBlockRoot : Bool := false
  /-- The variable that holds the value instead. -/
  link : Option VariableId := none
  deriving DecidableEq, Inhabited

/-- The variable that a variable refers to, or itself. -/
def Variable.storage (v : Variable) : VariableId := v.link.getD v.id

/-- Where a variable that can be used again is found. -/
inductive StorageKey where
  /-- The one instance of a binding. -/
  | binding (key : BindingKey)
  /-- The instance that the uses within a block share. -/
  | hoisted (key : BindingKey) (block : VariableId)
  deriving DecidableEq, Inhabited

namespace StorageKey

/-- The storage key of the binding. -/
def bindingKey : StorageKey → BindingKey
  | binding key => key
  | hoisted key _ => key

/-- The block that the instance belongs to. -/
def block? : StorageKey → Option VariableId
  | binding _ => none
  | hoisted _ block => some block

/-- By binding, and there the instance outside all blocks first. -/
def cmp (a b : StorageKey) : Ordering :=
  (compare a.bindingKey b.bindingKey).then (compare a.block? b.block?)

end StorageKey

/-- All variables of a composition, and those that can be used again. -/
structure Arena where
  /-- The variables by their ids. -/
  vars : Array Variable := #[]
  /-- The variables that can be used again, one for each storage key. -/
  stored : List (StorageKey × VariableId) := []
  deriving DecidableEq, Inhabited

namespace Arena

/-- The variable of an id. -/
def var (a : Arena) (id : VariableId) : Variable := a.vars.getD id default

/-- The storage of the variable of an id. -/
def storage (a : Arena) (id : VariableId) : VariableId := (a.var id).storage

/-- The variable found under a storage key. -/
def lookup (a : Arena) (key : StorageKey) : Option VariableId := a.stored.lookup key

/-- Tells if there is an instance of a binding to use again. -/
def contains (a : Arena) (key : BindingKey) : Bool := (a.lookup (.binding key)).isSome

/-- The arena with one more variable, which is not created yet. -/
def allocate (a : Arena) (node : NodeId) (request : Request) (link : Option VariableId) :
    VariableId × Arena :=
  let id := a.vars.size
  (id, { a with vars := a.vars.push { id, node, request, link } })

/-- Changes the variable of an id. -/
def update (a : Arena) (id : VariableId) (f : Variable → Variable) : Arena :=
  { a with vars := a.vars.modify id f }

/-- Marks a variable as created or not. -/
def setCreated (a : Arena) (id : VariableId) (created : Bool) : Arena :=
  a.update id fun v => { v with isCreated := created }

/-- Marks a variable as kept in storage of the composition. -/
def setDeclared (a : Arena) (id : VariableId) : Arena :=
  a.update id fun v => { v with isDeclared := true }

/-- Marks a variable as created by a block of its own. -/
def setBlockRoot (a : Arena) (id : VariableId) : Arena :=
  a.update id fun v => { v with isBlockRoot := true }

/-- Lets a variable be found under a storage key. -/
def store (a : Arena) (key : StorageKey) (id : VariableId) : Arena :=
  { a with stored := (key, id) :: a.stored.filter (·.1 ≠ key) }

/-- Forgets the stored variables that are not to be kept, and marks the kept ones as not created. -/
def evict (a : Arena) (keep : Variable → Bool) : Arena :=
  let kept := a.stored.filter fun entry => keep (a.var entry.2)
  kept.foldl (fun a entry => a.setCreated entry.2 false) { a with stored := kept }

/-- The stored variables in the order of their keys. -/
def listing (a : Arena) : List (StorageKey × VariableId) :=
  a.stored.mergeSort fun x y => x.1.cmp y.1 != .gt

/-! ## What lookups see -/

theorem var_allocate_self (a : Arena) (node : NodeId) (request : Request)
    (link : Option VariableId) :
    (a.allocate node request link).2.var a.vars.size =
      { id := a.vars.size, node, request, link } := by
  simp [var, allocate, Array.getD_eq_getD_getElem?]

theorem var_allocate_of_ne (a : Arena) (node : NodeId) (request : Request)
    (link : Option VariableId) {id : VariableId} (ne : id ≠ a.vars.size) :
    (a.allocate node request link).2.var id = a.var id := by
  simp [var, allocate, Array.getD_eq_getD_getElem?, Array.getElem?_push, ne]

theorem var_update_self (a : Arena) {id : VariableId} (h : id < a.vars.size)
    (f : Variable → Variable) : (a.update id f).var id = f (a.var id) := by
  simp [var, update, Array.getD_eq_getD_getElem?, Array.getElem_modify, h]

theorem var_update_of_ne (a : Arena) {id other : VariableId} (ne : other ≠ id)
    (f : Variable → Variable) : (a.update id f).var other = a.var other := by
  simp [var, update, Array.getD_eq_getD_getElem?, Array.getElem?_modify, ne.symm]

@[simp] theorem lookup_store_self (a : Arena) (key : StorageKey) (id : VariableId) :
    (a.store key id).lookup key = some id := by
  simp [lookup, store]

theorem lookup_store_of_ne (a : Arena) {key other : StorageKey} (id : VariableId)
    (ne : other ≠ key) : (a.store key id).lookup other = a.lookup other := by
  simp only [lookup, store, List.lookup_cons, beq_false_of_ne ne]
  induction a.stored with
  | nil => rfl
  | cons head rest ih =>
    obtain ⟨known, var⟩ := head
    by_cases h : known = key
    · rw [List.filter_cons_of_neg (by simp [h]), ih, List.lookup_cons, beq_false_of_ne (h ▸ ne)]
    · rw [List.filter_cons_of_pos (by simp [h])]
      simp only [List.lookup_cons]
      split
      · rfl
      · exact ih

end Arena

end ObjectGraph
