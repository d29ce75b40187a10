import ObjectGraph.Proofs.Lists
import ObjectGraph.Proofs.Plan.Visits
import ObjectGraph.Proofs.Sample

/-
  What the variables of a composition stand for, whatever was visited over its arena.

  `makes_once` is the law of a single plan: it makes no storage twice, and whatever one of its
  instantiations is handed is made by exactly one instantiation of the same plan.

  `storage_by_lifetime` is the law across plans: which variables of a binding end in one storage.
  Values from outside and singletons have one storage in the whole composition, scoped instances and
  those of a resolution have one in each root, and no root makes a shared instance twice.

  Both are read off the books that every leg closes with (`Leg.Sound`) and off the rest in between.
-/

namespace ObjectGraph

open Arena

variable {g : Graph} {a : Arena} {legs : List Leg} {l l' : Leg}

/-! ## Every value is made once, where it is handed out -/

/-- In every plan of every visit, no two instantiations make the same storage, and each variable
    that is handed to an instantiation is made by exactly one instantiation of the plan. -/
theorem makes_once (resolved : g.IsResolved) (visits : g.Visits legs a) (mem : l ∈ legs) :
    l.tour.plan.targets.Nodup ∧ (l.tour.plan.targets.map a.terminal).Nodup ∧
      ∀ i ∈ l.tour.plan.instantiations, ∀ s ∈ i.supplies,
        l.tour.plan.instantiations.countP
          (fun m => a.terminal m.target == a.terminal s.var) = 1 := by
  have uniform := resolved.uniform
  have toured := visits.toured
  obtain ⟨consistent, provided, -⟩ := toured.sound uniform mem
  have grows := toured.extends_of_mem uniform mem
  have linked := (toured.rested uniform).1.linked
  have targets := consistent.map_terminal_eq grows linked
  have nodup : (l.tour.plan.targets.map a.terminal).Nodup := by
    rw [targets]
    exact consistent.due_nodup
  refine ⟨List.Nodup.of_map _ nodup, nodup, fun i mem s mem' => ?_⟩
  obtain ⟨lt, made⟩ := provided i mem s mem'
  rw [← targets, ← grows.terminal_eq consistent.linked linked s.var lt, Plan.targets,
    List.map_map] at made
  rw [Plan.targets, List.map_map] at nodup
  exact countP_eq_one nodup made

/-- Two contracts of one class, a singleton and a value from outside, reached directly and through
    a factory that comes later. -/
def Sample.mixed : Graph := Sample.graph <| Sample.setup [
  Sample.outside "A",
  Sample.bound ["I", "J"] "P" ["A"] .perResolve,
  Sample.service "S" ["A"] .singleton,
  Sample.later "F" ["S", "I"],
  Sample.service "R" ["F", "J", "S"] .transient] ["S", "R"]

theorem makes_once_mixed : Sample.mixed.IsResolved ∧ ∃ legs a, Sample.mixed.Visits legs a ∧
    legs.length = 2 ∧ ∀ l ∈ legs, l.tour.plan.targets.Nodup ∧
      (l.tour.plan.targets.map a.terminal).Nodup ∧
      ∀ i ∈ l.tour.plan.instantiations, ∀ s ∈ i.supplies,
        l.tour.plan.instantiations.countP
          (fun m => a.terminal m.target == a.terminal s.var) = 1 := by
  have resolved : Sample.mixed.IsResolved := Sample.isResolved _ (by decide +kernel)
  obtain ⟨v, ends⟩ := Option.isSome_iff_exists.mp
    (show (Sample.mixed.visit false {}).isSome = true by decide +kernel)
  refine ⟨resolved, _, _, .visit .start ends, by decide +kernel, fun l mem => ?_⟩
  exact makes_once resolved (.visit .start ends) mem

/-! ## Storage by lifetime -/

namespace Leg

variable {v w : Nat}

/-- A variable that was allocated in the walk through a root. -/
def Allocates (l : Leg) (v : Nat) : Prop :=
  l.before.vars.size ≤ v ∧ v < l.tour.arena.vars.size

/-- A variable of a shared instance that the leg allocated, or that outlives roots, ends in the
    storage that is found under its key. -/
theorem Sound.lookup_terminal (sound : l.Sound g) (grows : l.tour.arena.Extends a)
    (linked : a.Linked) (lt : v < l.tour.arena.vars.size) (shared : (a.node g v).isShared = true)
    (reach : (a.node g v).outlivesRoot = true ∨ l.before.vars.size ≤ v) :
    l.tour.arena.lookup (.binding (a.node g v).key) = some (a.terminal v) := by
  rw [grows.node_eq lt] at shared reach ⊢
  rw [grows.terminal_eq sound.consistent.linked linked v lt]
  exact sound.consistent.kept v lt shared reach

/-- What does not outlive its root ends in a storage that the root allocated. -/
theorem Sound.le_terminal (uniform : g.Uniform) (sound : l.Sound g)
    (grows : l.tour.arena.Extends a) (linked : a.Linked) (allocates : l.Allocates v)
    (shared : (a.node g v).isShared = true) (ends : (a.node g v).outlivesRoot = false) :
    l.before.vars.size ≤ a.terminal v := by
  obtain ⟨le, lt⟩ := allocates
  have found := sound.lookup_terminal grows linked lt shared (.inr le)
  refine Nat.le_of_not_lt fun old => ?_
  have outlives := (sound.consistent.stored_old _ _ found old).2
  rw [grows.node_eq lt] at found ends
  have profile := sound.consistent.profile_of_lookup uniform
    (sound.consistent.node_lt v lt) found rfl
  rw [Node.outlivesRoot_eq profile] at outlives
  exact absurd (ends.symm.trans outlives) Bool.false_ne_true

/-- Whatever is due stands for a storage of its own, so a plan makes the instance of a shared
    binding at most once. -/
theorem Sound.once (sound : l.Sound g) (grows : l.tour.arena.Extends a) (linked : a.Linked)
    (key : BindingKey) : l.tour.plan.targets.countP (fun t => (a.node g t).key == key &&
      ((a.node g t).isOutside || (a.node g t).lifetime.isShared)) ≤ 1 := by
  have nodup : (l.tour.plan.targets.map a.terminal).Nodup := by
    rw [sound.consistent.map_terminal_eq grows linked]
    exact sound.consistent.due_nodup
  have found {t : Nat} (mem : t ∈ l.tour.plan.targets) (shared : (a.node g t).isShared = true) :
      l.tour.arena.lookup (.binding (a.node g t).key) = some (a.terminal t) := by
    have lt := sound.consistent.due_lt t mem
    have reach := sound.consistent.due_reach t mem
    rw [← grows.node_eq lt] at reach
    exact sound.lookup_terminal grows linked lt shared reach
  refine countP_le_one nodup fun t mem t' mem' kind kind' => ?_
  simp only [Bool.and_eq_true, beq_iff_eq] at kind kind'
  have first := found mem kind.2
  have second := found mem' kind'.2
  rw [kind.1] at first
  rw [kind'.1, first] at second
  exact Option.some.inj second

end Leg

namespace Node

variable {n : Node}

/-- Scoped instances and those of a resolution are shared, but not across roots. -/
theorem isShared_of_lifetime (inside : n.isOutside = false)
    (lifetime : n.lifetime = .scoped ∨ n.lifetime = .perResolve) :
    n.isShared = true ∧ n.outlivesRoot = false := by
  rcases lifetime with lifetime | lifetime <;>
    exact ⟨by rw [isShared, lifetime, inside]; rfl, by rw [outlivesRoot, lifetime, inside]; rfl⟩

end Node

namespace Graph.Toured

/-- In one root, a shared instance has one storage. -/
theorem terminal_eq_of_root (uniform : g.Uniform) (toured : g.Toured legs a) (mem : l ∈ legs)
    {v w : Nat} (v_in : l.Allocates v) (w_in : l.Allocates w)
    (shared : (a.node g v).isShared = true) (key : (a.node g v).key = (a.node g w).key) :
    a.terminal v = a.terminal w := by
  have sound := toured.sound uniform mem
  have grows := toured.extends_of_mem uniform mem
  have rested := (toured.rested uniform).1
  have linked := rested.linked
  have same := rested.profile_eq uniform (Nat.lt_of_lt_of_le v_in.2 grows.size_le)
    (Nat.lt_of_lt_of_le w_in.2 grows.size_le) key
  have found := sound.lookup_terminal grows linked v_in.2 shared (.inr v_in.1)
  have found' := sound.lookup_terminal grows linked w_in.2
    (by rw [Node.isShared_eq same, shared]) (.inr w_in.1)
  rw [← key, found] at found'
  exact Option.some.inj found'

/-- In two roots, a shared instance that does not outlive the first has two storages. -/
theorem terminal_ne_of_roots (uniform : g.Uniform) (toured : g.Toured legs a)
    (first : Precedes legs l l') {v w : Nat} (v_in : l.Allocates v) (w_in : l'.Allocates w)
    (shared : (a.node g v).isShared = true) (ends : (a.node g v).outlivesRoot = false)
    (key : (a.node g v).key = (a.node g w).key) : a.terminal v ≠ a.terminal w := by
  have sound := toured.sound uniform first.right_mem
  have grows := toured.extends_of_mem uniform first.left_mem
  have grows' := toured.extends_of_mem uniform first.right_mem
  have rested := (toured.rested uniform).1
  have linked := rested.linked
  have v_lt := Nat.lt_of_lt_of_le v_in.2 grows.size_le
  have same := rested.profile_eq uniform v_lt (Nat.lt_of_lt_of_le w_in.2 grows'.size_le) key
  -- the one storage is there when the second root begins, the other one is not
  have le := linked.terminal_le v v_lt
  have le' := sound.le_terminal uniform grows' linked w_in
    (by rw [Node.isShared_eq same, shared]) (by rw [Node.outlivesRoot_eq same, ends])
  have apart := (toured.extends_of_precedes uniform first).size_le
  intro eq
  rw [← eq] at le'
  exact absurd (Nat.le_trans le' le) (Nat.not_le_of_lt (Nat.lt_of_lt_of_le v_in.2 apart))

end Graph.Toured

/-- The law of lifetimes, for the legs of a sequence of visits that ended in the arena `a`. -/
structure LifetimeLaw (g : Graph) (legs : List Leg) (a : Arena) : Prop where
  /-- All variables of a value from outside or of a singleton end in one storage, over all roots. -/
  composition : ∀ v w : Nat, v < a.vars.size → w < a.vars.size →
    (a.node g v).isOutside = true ∨ (a.node g v).lifetime = .singleton →
    (a.node g v).key = (a.node g w).key → a.terminal v = a.terminal w
  /-- All variables of a scoped instance or of an instance of a resolution that a root allocates end
      in one storage. -/
  root : ∀ l ∈ legs, ∀ v w : Nat, l.Allocates v → l.Allocates w →
    (a.node g v).isOutside = false →
    (a.node g v).lifetime = .scoped ∨ (a.node g v).lifetime = .perResolve →
    (a.node g v).key = (a.node g w).key → a.terminal v = a.terminal w
  /-- And in another one than those that any other root allocates. -/
  apart : ∀ l l', Precedes legs l l' → ∀ v w : Nat, l.Allocates v → l'.Allocates w →
    (a.node g v).isOutside = false →
    (a.node g v).lifetime = .scoped ∨ (a.node g v).lifetime = .perResolve →
    (a.node g v).key = (a.node g w).key → a.terminal v ≠ a.terminal w
  /-- No plan makes two variables for one of these bindings. -/
  once : ∀ l ∈ legs, ∀ key, l.tour.plan.targets.countP (fun t => (a.node g t).key == key &&
    ((a.node g t).isOutside || (a.node g t).lifetime.isShared)) ≤ 1

/-- Whatever is visited, and however often: contracts, tags, collections and deferred factories that
    reach a binding make no difference. -/
theorem storage_by_lifetime (resolved : g.IsResolved) (visits : g.Visits legs a) :
    LifetimeLaw g legs a := by
  have uniform := resolved.uniform
  have toured := visits.toured
  constructor
  case composition =>
    intro v w v_lt w_lt kind key
    exact (toured.rested uniform).terminal_eq uniform v_lt w_lt (Node.outlivesRoot_iff.mpr kind) key
  case root =>
    intro l mem v w v_in w_in inside lifetime key
    obtain ⟨shared, -⟩ := Node.isShared_of_lifetime inside lifetime
    exact toured.terminal_eq_of_root uniform mem v_in w_in shared key
  case apart =>
    intro l l' first v w v_in w_in inside lifetime key
    obtain ⟨shared, ends⟩ := Node.isShared_of_lifetime inside lifetime
    exact toured.terminal_ne_of_roots uniform first v_in w_in shared ends key
  case once =>
    intro l mem key
    exact (toured.sound uniform mem).once (toured.extends_of_mem uniform mem)
      (toured.rested uniform).1.linked key

theorem storage_by_lifetime_mixed : Sample.mixed.IsResolved ∧ ∃ legs a,
    Sample.mixed.Visits legs a ∧ legs.length = 2 ∧ LifetimeLaw Sample.mixed legs a := by
  have resolved : Sample.mixed.IsResolved := Sample.isResolved _ (by decide +kernel)
  obtain ⟨v, ends⟩ := Option.isSome_iff_exists.mp
    (show (Sample.mixed.visit false {}).isSome = true by decide +kernel)
  exact ⟨resolved, _, _, .visit .start ends, by decide +kernel,
    storage_by_lifetime resolved (.visit .start ends)⟩

end ObjectGraph
