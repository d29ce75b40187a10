import ObjectGraph.Binding.Basic
import ObjectGraph.Diagnostic
import ObjectGraph.Journal
import ObjectGraph.Setup.Basic
import ObjectGraph.Type.Oracle

/-
  The table of bindings of one setup.

  `BindingTable.register` turns the declarations of a setup into bindings, one for each type that
  they bind.  Afterwards the table only grows at its end: `specialize` adds the instance of a
  generic binding under a substitution, `addFallback` the binding that hands a request to a
  fallback handler.  Both remember what they added, and asking again changes nothing.

  The declared bindings and the derived ones stand in two lists, so that the declared ones are
  fixed by the form of the type.  A storage key is the place of an origin (a source under a
  substitution) in the list of origins seen so far.
-/

namespace ObjectGraph

/-- What determines a storage key: a source, under a substitution. -/
structure BindingTable.Origin where
  /-- The declaration or the fallback request. -/
  source : Binding.Source
  /-- The types put for its markers. -/
  substitution : Substitution
  deriving DecidableEq, Inhabited

/-- The bindings of one setup. -/
structure BindingTable where
  /-- The bindings that were declared. -/
  declared : List Binding := []
  /-- The bindings that were added later. -/
  derived : List Binding := []
  /-- The origins that have a storage key, which is their place in the list. -/
  origins : List BindingTable.Origin := []
  /-- The specializations made so far, latest first. -/
  specialized : List ((BindingId × Substitution) × BindingId) := []
  /-- The fallback bindings made so far, latest first. -/
  fallbacks : List ((String × Request) × BindingId) := []
  deriving DecidableEq, Inhabited

namespace BindingTable

/-- All bindings in the order of their ids. -/
def bindings (t : BindingTable) : List Binding := t.declared ++ t.derived

/-- The number of bindings. -/
def size (t : BindingTable) : Nat := t.declared.length + t.derived.length

/-- The binding of an id. -/
def binding? (t : BindingTable) (id : BindingId) : Option Binding := t.bindings[id]?

/-- Tells if a binding still mentions a generic marker. -/
def isGeneric (t : BindingTable) (ts : TypeOracle) (id : BindingId) : Bool :=
  (t.binding? id).any fun b => ts.isOpen b.contract

/-! ## Storage keys -/

/-- The origins with one more, which stays where it is if it is known already. -/
def addOrigin (origins : List Origin) (o : Origin) : List Origin :=
  if o ∈ origins then origins else origins ++ [o]

/-- The key of an origin. -/
def keyOf (origins : List Origin) (o : Origin) : BindingKey := origins.idxOf o

/-! ## Registration -/

/-- The list without later repetitions of an element. -/
def distinct {α : Type} [DecidableEq α] : List α → List α
  | [] => []
  | x :: xs => x :: (distinct xs).filter (· ≠ x)

/-- The types that a declaration binds. -/
def contractsOf (d : Declaration) : List TypeTerm :=
  if d.contracts.isEmpty then
    match d.recipe with
    | .construct c => distinct (c.type :: c.baseTypes)
    | .factory f => [f.type]
    | .outside o => [o.type]
    | .builtin _ => []
  else distinct d.contracts

/-- Adds the bindings of the declaration at an index. -/
def addDeclaration (t : BindingTable) (index : Nat) (d : Declaration) : BindingTable :=
  let contracts := contractsOf d
  if contracts.isEmpty then t
  else
    let origin : Origin := ⟨.declared index, ∅⟩
    let origins := addOrigin t.origins origin
    let added := contracts.mapIdx fun place contract =>
      { id := t.declared.length + place
        key := keyOf origins origin
        source := .declared index
        contract
        tags := d.tags
        lifetime := d.lifetime.getD .transient
        recipe := d.recipe
        location := d.location
        specializes := none : Binding }
    { t with declared := t.declared ++ added, origins }

/-- The bindings of a list of declarations, numbered from `first` on. -/
def addDeclarations (t : BindingTable) (first : Nat) : List Declaration → BindingTable
  | [] => t
  | d :: ds => (t.addDeclaration first d).addDeclarations (first + 1) ds

/-- The table of a setup. -/
def register (s : Setup) : BindingTable := addDeclarations {} 0 s.declarations

/-! ## Overridden bindings -/

/-- What identifies the requests that a binding answers: its type and its tags in order. -/
def signature (b : Binding) : TypeTerm × List Tag :=
  (b.contract, b.tags.mergeSort fun x y => compare x y != .gt)

/-- The pairs of a binding and the next later one of the same signature. -/
def successions : List Binding → List (Binding × Binding)
  | [] => []
  | b :: later =>
    (later.find? fun next => signature next = signature b).toList.map (b, ·) ++ successions later

/-- The pairs of a closed binding and the binding of another declaration that overrides it, in the
    order of the overriding ones. -/
def overrides (t : BindingTable) (ts : TypeOracle) : List (Binding × Binding) :=
  let pairs := successions (t.declared.filter fun b => !ts.isOpen b.contract)
  (pairs.filter fun p => p.1.source ≠ p.2.source).mergeSort fun p q => p.2.id ≤ q.2.id

/-- The warning that a binding is overridden. -/
def overrideWarning (overridden : Binding) : Diagnostic :=
  { severity := .warning
    code := .overriddenBinding
    lines := [s!"The binding of {overridden.contract} has been overridden by a later binding."]
    location := some overridden.location }

/-- The warnings about overridden bindings. -/
def diagnostics (t : BindingTable) (ts : TypeOracle) : List Diagnostic :=
  (t.overrides ts).map fun p => overrideWarning p.1

/-- What registration tells about a setup. -/
def registrationJournal (s : Setup) (ts : TypeOracle) : Journal :=
  let t := register s
  let skipped := s.declarations.mapIdx fun index d =>
    if (contractsOf d).isEmpty then
      Journal.debug s!"Skipping declaration {index} without any contract in {s.name}."
    else #[]
  let overridden := (t.overrides ts).map fun p =>
    Journal.warn
      s!"Binding of {p.2.contract} at {p.2.location} overrides the one at {p.1.location}." []
  let registered :=
    Journal.debug s!"Registered {t.declared.length} bindings for {s.name}."
  skipped.foldl (· ++ ·) #[] ++ overridden.foldl (· ++ ·) #[] ++ registered

/-! ## Derived bindings -/

/-- The specialization of a binding under a substitution, added to the table unless it is there.
    An unknown id is its own specialization. -/
def specialize (t : BindingTable) (id : BindingId) (s : Substitution) : BindingId × BindingTable :=
  match t.specialized.lookup (id, s), t.binding? id with
  | some known, _ => (known, t)
  | none, none => (id, t)
  | none, some generic =>
    let origin : Origin := ⟨generic.source, s⟩
    let origins := addOrigin t.origins origin
    let added : Binding :=
      { generic with
        id := t.size
        key := keyOf origins origin
        contract := generic.contract.substitute s
        recipe := generic.recipe.substitute s
        specializes := some id }
    (added.id,
      { t with
        derived := t.derived ++ [added], origins
        specialized := ((id, s), added.id) :: t.specialized })

/-- What `specialize` tells: nothing when the specialization is known. -/
def specializationJournal (t : BindingTable) (id : BindingId) (s : Substitution) : Journal :=
  match t.specialized.lookup (id, s), t.binding? id with
  | none, some generic =>
    Journal.trace s!"Specialized {generic.contract} as {generic.contract.substitute s}."
  | _, _ => #[]

/-- The binding that hands a request to a fallback handler, added to the table unless it is
    there.  It is transient and answers the tag of the request. -/
def addFallback (t : BindingTable) (h : Handler) (r : Request) : BindingId × BindingTable :=
  match t.fallbacks.lookup (h.name, r) with
  | some known => (known, t)
  | none =>
    let origin : Origin := ⟨.fallback t.fallbacks.length, ∅⟩
    let origins := addOrigin t.origins origin
    let added : Binding :=
      { id := t.size
        key := keyOf origins origin
        source := origin.source
        contract := r.type
        tags := [r.tag]
        lifetime := .transient
        recipe := .factory { name := h.name, type := r.type, isFallback := true }
        location := h.location
        specializes := none }
    (added.id,
      { t with
        derived := t.derived ++ [added], origins
        fallbacks := ((h.name, r), added.id) :: t.fallbacks })

end BindingTable

end ObjectGraph
