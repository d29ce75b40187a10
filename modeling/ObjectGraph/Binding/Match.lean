import ObjectGraph.Binding.Table

/-
  Which binding answers a request.

  A declared binding matches when its type is the requested one, or unifies with it, and its tags
  fit the requested tag.  Among the matches the best tag rank wins, then the exact type over the
  generic one, then the binding registered last.  Bindings of the last resort form a class of their
  own: they are only looked at when everything else has failed.
-/

namespace ObjectGraph

/-- A binding that matches a request. -/
structure Match where
  /-- How well its tags fit, 0 being best. -/
  rank : Nat
  /-- Whether its type mentions a marker. -/
  isGeneric : Bool
  /-- The binding. -/
  id : BindingId
  /-- The types to put for the markers. -/
  substitution : Substitution
  deriving DecidableEq, Inhabited

namespace Match

/-- Compares two matches, the better one being less. -/
def cmp (a b : Match) : Ordering :=
  (compare a.rank b.rank).then <| (compare a.isGeneric b.isGeneric).then (compare b.id a.id)

/-- The best match of a list. -/
def best? : List Match → Option Match
  | [] => none
  | m :: ms =>
    match best? ms with
    | none => some m
    | some other => if m.cmp other == .gt then some other else some m

/-- The match of a binding with a request, if it is one. -/
def of? (ts : TypeOracle) (r : Request) (b : Binding) : Option Match := do
  let rank ← b.rank? r.tag
  let substitution ← ts.matchContract b.contract r.type
  return { rank, isGeneric := ts.isOpen b.contract, id := b.id, substitution }

end Match

namespace BindingTable

/-- All matches of a request, of the last resort or of all other bindings. -/
def candidates (t : BindingTable) (ts : TypeOracle) (lastResort : Bool) (r : Request) :
    List Match :=
  (t.declared.filter (·.recipe.isLastResort == lastResort)).filterMap (Match.of? ts r)

/-- The best match of a request. -/
def bestMatch? (t : BindingTable) (ts : TypeOracle) (lastResort : Bool) (r : Request) :
    Option Match :=
  Match.best? (t.candidates ts lastResort r)

/-- The bindings whose instances are the items of a collection, each with the types to put for its
    markers, in the order of their registration. -/
def itemMatches (t : BindingTable) (ts : TypeOracle) (element : TypeTerm) :
    List (Binding × Substitution) :=
  (t.declared.filter (!·.recipe.isBuiltin)).filterMap fun b =>
    (ts.matchContract b.contract element).map (b, ·)

end BindingTable

end ObjectGraph
