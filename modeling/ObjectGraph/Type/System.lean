import ObjectGraph.Type.Term

/-
  Types that are told by their structure.

  A `TypeSystem` lists the names that act as generic markers and the declared base types.  Three
  questions are answered about it: whether a type is open (mentions a marker), which types to put
  for the markers of an open type so that it becomes a given one (`unify`), and whether instances of
  one type can stand where another is expected (`isAssignable`).
-/

namespace ObjectGraph

/-- Generic markers and declared base types. -/
structure TypeSystem where
  /-- Names that are markers when they stand without arguments. -/
  markers : List String
  /-- Declared base types; a type may be listed several times. -/
  bases : List (TypeTerm × List TypeTerm)
  deriving DecidableEq, Inhabited

namespace TypeSystem

/-- Markers that are always available: `TT` and `TT1` to `TT9`. -/
def standardMarkers : List String :=
  ["TT", "TT1", "TT2", "TT3", "TT4", "TT5", "TT6", "TT7", "TT8", "TT9"]

/-- The system with the standard markers and no base types. -/
def standard : TypeSystem := ⟨standardMarkers, []⟩

/-- Tells if the type is a generic marker. -/
def isMarker (ts : TypeSystem) (t : TypeTerm) : Bool :=
  t.args.isEmpty && ts.markers.contains t.name

/-- Tells if a generic marker occurs in the type. -/
def isOpen (ts : TypeSystem) (t : TypeTerm) : Bool := t.any ts.isMarker

/-! ## Unification -/

mutual

/-- Extends a substitution so that it turns the pattern into the target, if that is possible: a
    marker takes what stands at its place, and twice the same marker takes twice the same type. -/
def extend (ts : TypeSystem) (s : Substitution) : TypeTerm → TypeTerm → Option Substitution
  | ⟨name, args⟩, target =>
    if ts.isMarker ⟨name, args⟩ then
      match s.get? name with
      | some bound => if bound = target then some s else none
      | none => some (s.insert name target)
    else if name = target.name then extendArgs ts s args target.args
    else none

/-- Extends a substitution over two argument lists of one length, from left to right. -/
def extendArgs (ts : TypeSystem) (s : Substitution) :
    List TypeTerm → List TypeTerm → Option Substitution
  | [], [] => some s
  | p :: ps, t :: rest => (extend ts s p t).bind fun s => extendArgs ts s ps rest
  | _, _ => none

end

/-- The types to put for the markers of `pattern` so that it becomes `target`. -/
def unify (ts : TypeSystem) (pattern target : TypeTerm) : Option Substitution :=
  ts.extend ∅ pattern target

/-! ## Assignability -/

/-- The base types declared for a type, in the order of their declaration. -/
def basesOf (ts : TypeSystem) (t : TypeTerm) : List TypeTerm :=
  (ts.bases.filter fun e => e.1 == t).flatMap (·.2)

/-- The base types that are declared for types not yet seen. -/
def unseenBases (ts : TypeSystem) (seen : List TypeTerm) : List TypeTerm :=
  (ts.bases.filter fun e => !seen.contains e.1).flatMap (·.2)

/-- A search through declared base types. -/
structure Search where
  /-- The types to look at, next first. -/
  pending : List TypeTerm
  /-- The types whose base types have been taken up. -/
  seen : List TypeTerm := []

namespace Search

/-- One turn of the search for `goal`: its answer, or the search after it.  A type that was seen
    before is passed over; of any other one the base types come next, the last of them first. -/
def turn (ts : TypeSystem) (goal : TypeTerm) (s : Search) : Bool ⊕ Search :=
  match s.pending with
  | [] => .inl false
  | t :: rest =>
    if t = goal then .inl true
    else if s.seen.contains t then .inr { s with pending := rest }
    else .inr { pending := (ts.basesOf t).reverse ++ rest, seen := t :: s.seen }

/-- The number of turns that can follow: one for each pending type, and one for each base type that
    is yet to be taken up. -/
def turnsLeft (ts : TypeSystem) (s : Search) : Nat :=
  s.pending.length + (ts.unseenBases s.seen).length

end Search

/-- The base types of a type are taken up when it is seen for the first time. -/
theorem length_unseenBases_cons (ts : TypeSystem) {t : TypeTerm} {seen : List TypeTerm}
    (fresh : seen.contains t = false) :
    (ts.basesOf t).length + (ts.unseenBases (t :: seen)).length = (ts.unseenBases seen).length := by
  simp only [basesOf, unseenBases, List.contains_cons]
  induction ts.bases with
  | nil => rfl
  | cons e rest ih =>
    simp only [List.filter_cons]
    by_cases own : e.1 = t
    · simp only [own, fresh, beq_self_eq_true, Bool.true_or, Bool.not_true, Bool.not_false,
        if_true, Bool.false_eq_true, if_false, List.flatMap_cons, List.length_append]
      omega
    · simp only [beq_false_of_ne own, Bool.false_or, Bool.false_eq_true, if_false]
      split
      · simp only [List.flatMap_cons, List.length_append]
        omega
      · exact ih

/-- Each turn uses up one of those that were left. -/
theorem Search.turnsLeft_turn {ts : TypeSystem} {goal : TypeTerm} {s s' : Search}
    (next : s.turn ts goal = .inr s') : s'.turnsLeft ts + 1 = s.turnsLeft ts := by
  obtain ⟨pending, seen⟩ := s
  cases pending with
  | nil => cases next
  | cons t rest =>
    simp only [turn] at next
    split at next
    · cases next
    · split at next
      · cases next
        simp only [turnsLeft, List.length_cons]
        omega
      · rename_i fresh
        cases next
        have taken := ts.length_unseenBases_cons (Bool.eq_false_iff.mpr fresh)
        simp only [turnsLeft, List.length_append, List.length_reverse, List.length_cons]
        omega

/-- The answer that a search for `goal` comes to. -/
def Search.answer (ts : TypeSystem) (goal : TypeTerm) (s : Search) : Bool :=
  match _next : s.turn ts goal with
  | .inl found => found
  | .inr s' => s'.answer ts goal
termination_by s.turnsLeft ts
decreasing_by
  have used := turnsLeft_turn _next
  omega

/-- Tells if an instance of `concrete` can be used where `requested` is expected: the two are equal
    or linked by declared base types. -/
def isAssignable (ts : TypeSystem) (concrete requested : TypeTerm) : Bool :=
  Search.answer ts requested { pending := [concrete] }

end TypeSystem

end ObjectGraph
