import ObjectGraph.Plan.Interruption

/-
  The checks of a walk decide whether it goes on, and nothing else.

  `Guards x plain` says that `x` is the computation `plain` with checks in between: what the token
  lets through comes to the plain result, and a token that is never cancelled lets all through.
  Sequences of such computations are again such (`Guards.bind`), and so the walk with checks is the
  walk, function by function.  What holds of the tours of a walk therefore holds of those that were
  over when a visit was interrupted (`toursUntil_prefix`), and `Graph.visit` is a visit under one of
  the two tokens that nobody touches on the way.
-/

namespace ObjectGraph

namespace Guarded

variable {α β : Type} {x : Guarded α} {plain : Option α}

/-- What a computation comes to under a token. -/
def outcome (x : Guarded α) (token : Token) : Option (Except Journal (α × Token)) :=
  (x.run token).run

/-- The computation is the plain one with checks in between. -/
structure Guards (x : Guarded α) (plain : Option α) : Prop where
  through : ∀ token r left, x.outcome token = some (.ok (r, left)) → plain = some r
  free : x.outcome none = plain.map fun r => .ok (r, none)

/-- A sequence goes on where its first part comes to its end. -/
theorem outcome_bind (x : Guarded α) (f : α → Guarded β) (token : Token) :
    (x >>= f).outcome token =
      match x.outcome token with
      | none => none
      | some (.error told) => some (.error told)
      | some (.ok (r, left)) => (f r).outcome left := by
  show Option.bind (x.outcome token) _ = _
  cases x.outcome token with
  | none => rfl
  | some result =>
    cases result with
    | error told => rfl
    | ok pair => rfl

theorem Guards.pure (r : α) : Guards (pure r) (some r) where
  through token r' left out := by
    cases out
    rfl
  free := rfl

theorem guards_exhausted : Guards (exhausted : Guarded α) none where
  through _ _ _ out := by cases out
  free := rfl

/-- One computation after another one keeps to what the plain ones do. -/
theorem Guards.bind {f : α → Guarded β} {next : α → Option β} (first : Guards x plain)
    (later : ∀ r, plain = some r → Guards (f r) (next r)) :
    Guards (x >>= f) (plain.bind next) where
  through token r left out := by
    rw [outcome_bind] at out
    split at out
    · cases out
    · cases out
    · rename_i r' left' out'
      have reached := first.through token r' left' out'
      rw [reached, Option.bind_some]
      exact (later r' reached).through left' r left out
  free := by
    rw [outcome_bind, first.free]
    cases plain with
    | none => rfl
    | some r => exact (later r rfl).free

/-- What always comes to its end is passed through. -/
theorem Guards.after {f : α → Guarded β} {r : α} {rest : Option β} (first : Guards x (some r))
    (later : Guards (f r) rest) : Guards (x >>= f) rest := by
  have all : Guards (x >>= f) ((some r).bind fun _ => rest) := first.bind fun r' eq => by
    cases eq
    exact later
  exact all

theorem guards_check : Guards check (some ()) where
  through _ _ _ _ := rfl
  free := rfl

/-- A check in front changes nothing. -/
theorem Guards.check {f : Unit → Guarded α} (later : Guards (f ()) plain) :
    Guards (Guarded.check >>= f) plain := guards_check.after later

theorem outcome_telling (told : Journal) (x : Guarded α) (token : Token) :
    (telling told x).outcome token = (x.outcome token).map (Except.mapError (told ++ ·)) := rfl

/-- What was told before shows only where a computation is stopped. -/
theorem Guards.telling (told : Journal) (guards : Guards x plain) :
    Guards (telling told x) plain where
  through token r left out := by
    rw [outcome_telling] at out
    obtain ⟨result, out', eq⟩ := Option.map_eq_some_iff.mp out
    cases result with
    | error told' => cases eq
    | ok pair =>
      cases eq
      exact guards.through token r left out'
  free := by
    rw [outcome_telling, guards.free, Option.map_map]
    rfl

end Guarded

open Guarded

/-! ## The walk with checks -/

namespace Walk

variable (g : Graph)

/-- Looking for a cancellation changes nothing about how an edge is supplied ... -/
theorem guards_supply (block : VariableId) (n : Node) (w : Walk) (e : Edge) :
    Guards (w.supplyGuarded g block n e) (some (w.supply g block n e)) := by
  simp only [supplyGuarded]
  split
  · exact .check (.pure _)
  · exact .pure _

theorem guards_supplyAll (block : VariableId) (n : Node) (edges : List Edge) :
    ∀ w : Walk, Guards (w.supplyAllGuarded g block n edges) (some (w.supplyAll g block n edges)) := by
  induction edges with
  | nil => intro w; exact .pure _
  | cons e rest ih =>
    intro w
    exact .after (guards_supply g block n w e) (.after (ih _) (.pure _))

/-- ... nor about the targets of a block ... -/
theorem guards_makeTargets (block : VariableId) (limit : Nat) :
    ∀ (w : Walk) (made : List Instantiation),
      Guards (makeTargetsGuarded g block limit w made) (makeTargets g block limit w made) := by
  induction limit with
  | zero =>
    intro w made
    simp only [makeTargetsGuarded, makeTargets]
    split
    · exact .pure _
    · exact guards_exhausted
  | succ limit ih =>
    intro w made
    simp only [makeTargetsGuarded, makeTargets]
    cases w.targets with
    | nil => exact .pure _
    | cons target targets => exact .check (.after (guards_supplyAll g block _ _ _) (ih _ _))

/-- ... nor about the blocks of a walk ... -/
theorem guards_makeBlocks (inner limit : Nat) :
    ∀ (w : Walk) (found : List Block),
      Guards (makeBlocksGuarded g inner limit w found) (makeBlocks g inner limit w found) := by
  induction limit with
  | zero =>
    intro w found
    simp only [makeBlocksGuarded, makeBlocks]
    split
    · exact .pure _
    · exact guards_exhausted
  | succ limit ih =>
    intro w found
    simp only [makeBlocksGuarded, makeBlocks]
    cases w.pending with
    | nil => exact .pure _
    | cons root pending =>
      exact .check (.bind (guards_makeTargets g root inner _ _) fun _ _ => (ih _ _).telling _)

end Walk

namespace Graph

variable {g : Graph} {a : Arena} {token : Token}

/-- ... nor, in the end, about the walk of a root. -/
theorem guards_tour (g : Graph) (limit : Nat) (a : Arena) (root : Root) :
    Guards (g.tourGuarded limit a root) (g.tour limit a root) :=
  .check (.bind (Walk.guards_makeBlocks g limit limit _ _) fun _ _ => .pure _)

/-- The tours that were over when a visit ended are those of the first roots. -/
theorem toursUntil_prefix {limit : Nat} {roots : List Root} {tours : List Tour}
    {after : Except Journal Arena} (ends : g.toursUntil limit token a roots = some (tours, after)) :
    ∃ done rest a', roots = done ++ rest ∧ g.tours limit a done = some (tours, a') ∧
      ∀ a'', after = .ok a'' → rest = [] ∧ a'' = a' := by
  induction roots generalizing token a tours with
  | nil =>
    cases ends
    exact ⟨[], [], a, rfl, rfl, fun a'' ok => ⟨rfl, by cases ok; rfl⟩⟩
  | cons root rest ih =>
    obtain ⟨result, out, ends⟩ := Option.bind_eq_some_iff.mp ends
    cases result with
    | error told =>
      cases ends
      exact ⟨[], root :: rest, a, rfl, rfl, nofun⟩
    | ok pair =>
      obtain ⟨t, left⟩ := pair
      obtain ⟨⟨others, after⟩, later, eq⟩ := Option.bind_eq_some_iff.mp ends
      cases eq
      obtain ⟨done, rest', a', rfl, walked, complete⟩ := ih later
      have first := (guards_tour g limit a root).through token t left out
      refine ⟨root :: done, rest', a', rfl, ?_, complete⟩
      rw [tours, first, Option.bind_eq_bind, Option.bind_some, walked]
      rfl

/-- Under a token that is never cancelled all roots are walked. -/
theorem toursUntil_none (limit : Nat) (roots : List Root) :
    g.toursUntil limit none a roots = (g.tours limit a roots).map fun p => (p.1, .ok p.2) := by
  induction roots generalizing a with
  | nil => rfl
  | cons root rest ih =>
    have first := (guards_tour g limit a root).free
    unfold outcome at first
    rw [toursUntil, tours, first]
    cases g.tour limit a root with
    | none => rfl
    | some t =>
      simp only [Option.map_some, Option.bind_eq_bind, Option.bind_some, ih]
      cases g.tours limit (t.remaining g) rest with
      | none => rfl
      | some pair => rfl

/-- A visit that is not cancelled is one under a token that never is. -/
theorem visitUntil_none (g : Graph) (a : Arena) : g.visitUntil none a = g.visit false a := by
  rw [visitUntil, visit, toursUntil_none, Bool.false_and, if_neg Bool.false_ne_true]
  cases g.tours g.walkLimit a g.roots with
  | none => rfl
  | some pair => rfl

/-- A visit that is cancelled is one under a token that passes no check. -/
theorem visitUntil_zero (g : Graph) (a : Arena) : g.visitUntil (some 0) a = g.visit true a := by
  rw [visitUntil, visit]
  cases g.roots with
  | nil => rfl
  | cons root rest =>
    have stops : (g.tourGuarded g.walkLimit a root).outcome (some 0) = some (.error #[]) := by
      rw [tourGuarded, outcome_bind]
      rfl
    unfold outcome at stops
    rw [toursUntil, stops]
    rfl

end Graph

end ObjectGraph
