import ObjectGraph.NameMap

/-
  Type terms: a name applied to arguments, `Map<String, List<Int>>`.

  Terms are purely structural.  Whether a name is a generic marker is not part of the term; it is
  the type system that says so.  Every function that descends into the arguments comes with a twin
  on argument lists, so that both recursions follow the data.
-/

namespace ObjectGraph

/-- A type name applied to type arguments. -/
structure TypeTerm where
  /-- The applied name. -/
  name : String
  /-- The arguments, none for a plain type. -/
  args : List TypeTerm
  deriving Inhabited

namespace TypeTerm

/-- The type of a name without arguments. -/
def plain (name : String) : TypeTerm := ⟨name, []⟩

/-! ## Equality and order -/

mutual

/-- Decides equality of two terms. -/
def decEq : (a b : TypeTerm) → Decidable (a = b)
  | ⟨n, as⟩, ⟨m, bs⟩ =>
    if hn : n = m then
      match decEqArgs as bs with
      | isTrue ha => isTrue (by rw [hn, ha])
      | isFalse ha => isFalse fun h => ha (by injection h)
    else isFalse fun h => hn (by injection h)

/-- Decides equality of two argument lists. -/
def decEqArgs : (as bs : List TypeTerm) → Decidable (as = bs)
  | [], [] => isTrue rfl
  | [], _ :: _ => isFalse nofun
  | _ :: _, [] => isFalse nofun
  | a :: as, b :: bs =>
    match decEq a b, decEqArgs as bs with
    | isTrue h, isTrue hs => isTrue (by rw [h, hs])
    | isFalse h, _ => isFalse fun e => h (by injection e)
    | _, isFalse hs => isFalse fun e => hs (by injection e)

end

instance : DecidableEq TypeTerm := decEq

mutual

/-- Compares names first and then the arguments from left to right. -/
def cmp : TypeTerm → TypeTerm → Ordering
  | ⟨n, as⟩, ⟨m, bs⟩ => (compare n m).then (cmpArgs as bs)

/-- Compares argument lists; a proper beginning comes before the longer list. -/
def cmpArgs : List TypeTerm → List TypeTerm → Ordering
  | [], [] => .eq
  | [], _ :: _ => .lt
  | _ :: _, [] => .gt
  | a :: as, b :: bs => (cmp a b).then (cmpArgs as bs)

end

instance : Ord TypeTerm := ⟨cmp⟩

/-! ## Text -/

mutual

/-- The text of a term: `Name`, or `Name<A, B>` when there are arguments. -/
def text : TypeTerm → String
  | ⟨name, []⟩ => name
  | ⟨name, a :: as⟩ => name ++ "<" ++ text a ++ textTail as ++ ">"

/-- The text of the arguments after the first one, each with the comma before it. -/
def textTail : List TypeTerm → String
  | [] => ""
  | a :: as => ", " ++ text a ++ textTail as

end

instance : ToString TypeTerm := ⟨text⟩

/-! ## Subterms -/

mutual

/-- Tells if the term or one of the terms inside it has the property. -/
def any (p : TypeTerm → Bool) : TypeTerm → Bool
  | ⟨name, args⟩ => p ⟨name, args⟩ || anyArgs p args

/-- Tells if one of the terms, or one inside them, has the property. -/
def anyArgs (p : TypeTerm → Bool) : List TypeTerm → Bool
  | [] => false
  | a :: as => any p a || anyArgs p as

end

/-- The first argument, which for a collection type is the type of its elements. -/
def element? (t : TypeTerm) : Option TypeTerm := t.args.head?

end TypeTerm

/-! ## Substitution -/

/-- Types to put in the place of generic markers. -/
abbrev Substitution := NameMap TypeTerm

namespace TypeTerm

mutual

/-- Replaces each plain name that the substitution binds. -/
def substitute (s : Substitution) : TypeTerm → TypeTerm
  | ⟨name, []⟩ => (s.get? name).getD ⟨name, []⟩
  | ⟨name, a :: as⟩ => ⟨name, substitute s a :: substituteArgs s as⟩

/-- Substitutes in each of the terms. -/
def substituteArgs (s : Substitution) : List TypeTerm → List TypeTerm
  | [] => []
  | a :: as => substitute s a :: substituteArgs s as

end

end TypeTerm

end ObjectGraph
