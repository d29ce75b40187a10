import Mathlib.Data.List.Sigma
import ObjectGraph.Plan.Annotate
import ObjectGraph.Proofs.Plan.Blocks

/-
  What the steps of a plan amount to.

  The steps of a block are those that open it, one for each accumulation, and those that close it
  (`Block.stepsOf_eq`).  Which steps open and close it depends on nothing but its kind and on whether
  the code is thread-safe.  So what holds of the order of steps and of the lock is checked for each
  kind in both modes, and shown for accumulations of any number (`Block.Kind.ordered`).

  What is fed over all blocks of a plan are its instantiations paired with the accumulators.  The
  targets of a plan are distinct, and so no pair occurs twice.
-/

namespace ObjectGraph

open Arena

variable {g : Graph} {a : Arena} {legs : List Leg} {l : Leg} {b : Block} {p : Plan}
variable {ts : TypeOracle} {threadSafe : Bool}

/-! ## Steps -/

namespace Step

/-- Tells the steps that feed accumulators. -/
def isAccumulate : Step → Bool
  | accumulate .. => true
  | _ => false

/-- Tells the steps that are there for the lock only. -/
def isLocking : Step → Bool
  | acquireLock | recheckCreated | releaseLock => true
  | _ => false

/-- Whether the lock is held after a step.  It is not entered when it is held already, nor left when
    it is not. -/
def lock : Bool → Step → Option Bool
  | false, acquireLock => some true
  | true, releaseLock => some false
  | true, acquireLock => none
  | false, releaseLock => none
  | held, _ => some held

/-- What happens between the steps in front and those behind happens in one lock. -/
structure InLock (front back : List Step) : Prop where
  entered : front.count acquireLock = 1
  held : releaseLock ∉ front
  left : back.count releaseLock = 1
  alone : acquireLock ∉ back

/-- The steps of a block are in order. -/
structure Ordered (threadSafe : Bool) (steps : List Step) : Prop where
  constructs : steps.count construct = 1
  /-- What is fed has been made, and is fed before it is published. -/
  accumulates : ∀ front back k v, steps = front ++ accumulate k v :: back →
    construct ∈ front ∧ publish ∉ front
  /-- The lock is free again in the end. -/
  balanced : steps.foldlM lock false = some false
  /-- In thread-safe code accumulators and storage are reached in the lock only. -/
  guarded : threadSafe = true → ∀ front s back, steps = front ++ s :: back →
    s.isAccumulate = true ∨ s = publish → InLock front back

variable {s : Step} {steps : List Step}

theorem ne_of_isAccumulate {t : Step} (feeds : s.isAccumulate = true)
    (other : t.isAccumulate = false) : s ≠ t := by
  rintro rfl
  exact Bool.false_ne_true (other.symm.trans feeds)

/-- Other steps are not among accumulations. -/
theorem not_mem_of_isAccumulate (feeds : ∀ s ∈ steps, s.isAccumulate = true)
    (other : s.isAccumulate = false) : s ∉ steps :=
  fun mem => ne_of_isAccumulate (feeds s mem) other rfl

theorem lock_of_isAccumulate (feeds : s.isAccumulate = true) (held : Bool) :
    lock held s = some held := by
  cases s with
  | accumulate => cases held <;> rfl
  | _ => cases feeds

/-- Accumulations leave the lock as it is. -/
theorem foldlM_lock (feeds : ∀ s ∈ steps, s.isAccumulate = true) (held : Bool) :
    steps.foldlM lock held = some held := by
  induction steps with
  | nil => rfl
  | cons s steps ih =>
    rw [List.foldlM_cons, lock_of_isAccumulate (feeds s List.mem_cons_self)]
    exact ih fun s mem => feeds s (List.mem_cons_of_mem _ mem)

/-- Between the steps that enter and leave the only lock, everything is in it. -/
theorem inLock_of_split (before inner : List Step) {front back : List Step}
    (eq : before ++ [acquireLock] ++ inner ++ [releaseLock] = front ++ s :: back)
    (no_enter : acquireLock ∉ before ++ inner) (no_leave : releaseLock ∉ before ++ inner)
    (not_mem : s ∉ before ++ [acquireLock]) (ne : s ≠ releaseLock) : InLock front back := by
  obtain ⟨f, c, rfl, rfl, rfl⟩ := exists_split eq not_mem (List.mem_singleton.not.mpr ne)
  simp only [List.mem_append, List.mem_cons, not_or] at no_enter no_leave
  obtain ⟨enter, enter_f, -, enter_c⟩ := no_enter
  obtain ⟨leave, leave_f, -, leave_c⟩ := no_leave
  constructor
  · simp [List.count_append, List.count_eq_zero.mpr, enter, enter_f]
  · simp [leave, leave_f]
  · simp [List.count_append, List.count_eq_zero.mpr, leave_c]
  · simp [enter_c]

end Step

/-! ## Kinds of blocks -/

namespace Block

/-- What has to be done around the instantiations of a block. -/
inductive Kind where
  /-- The block fills storage of the composition. -/
  | storing
  /-- The block does not, but feeds accumulators. -/
  | feeding
  /-- Nothing has to be done. -/
  | plain
  deriving DecidableEq

/-- The kind of a block. -/
def kind (ts : TypeOracle) (g : Graph) (a : Arena) (b : Block) : Kind :=
  if b.fillsStorage g a then .storing
  else if (b.accumulations ts g a).isEmpty then .plain else .feeding

namespace Kind

/-- The steps up to the accumulations. -/
def opening : Kind → (threadSafe : Bool) → List Step
  | storing, true => [.checkCreated, .acquireLock, .recheckCreated, .construct]
  | storing, false => [.checkCreated, .construct]
  | feeding, true => [.construct, .acquireLock]
  | feeding, false | plain, _ => [.construct]

/-- The steps after the accumulations. -/
def closing : Kind → (threadSafe : Bool) → List Step
  | storing, true => [.publish, .releaseLock]
  | storing, false => [.publish]
  | feeding, true => [.releaseLock]
  | feeding, false | plain, _ => []

variable {steps : List Step}

/-- The steps around the accumulations do not feed accumulators. -/
theorem isAccumulate_eq_false {s : Step} (k : Kind) (threadSafe : Bool)
    (mem : s ∈ k.opening threadSafe ++ k.closing threadSafe) : s.isAccumulate = false := by
  have all : ∀ s ∈ k.opening threadSafe ++ k.closing threadSafe, s.isAccumulate = false := by
    cases k <;> cases threadSafe <;> decide
  exact all s mem

theorem construct_mem_opening (k : Kind) (threadSafe : Bool) : .construct ∈ k.opening threadSafe := by
  cases k <;> cases threadSafe <;> decide

theorem publish_not_mem_opening (k : Kind) (threadSafe : Bool) :
    .publish ∉ k.opening threadSafe := by
  cases k <;> cases threadSafe <;> decide

/-- The closing steps leave the lock that the opening ones entered. -/
theorem exists_held (k : Kind) (threadSafe : Bool) : ∃ held,
    (k.opening threadSafe).foldlM Step.lock false = some held ∧
      (k.closing threadSafe).foldlM Step.lock held = some false := by
  cases k <;> cases threadSafe <;> decide

section Around

variable (k : Kind) (feeds : ∀ s ∈ steps, s.isAccumulate = true) {front back : List Step}
include feeds

theorem count_construct (threadSafe : Bool) :
    (k.opening threadSafe ++ steps ++ k.closing threadSafe).count .construct = 1 := by
  rw [List.count_append, List.count_append,
    List.count_eq_zero.mpr (Step.not_mem_of_isAccumulate feeds rfl)]
  cases k <;> cases threadSafe <;> rfl

/-- What is in front of an accumulation constructs, and does not publish. -/
theorem front_of_accumulate {s : Step} (fed : s.isAccumulate = true)
    (eq : k.opening threadSafe ++ steps ++ k.closing threadSafe = front ++ s :: back) :
    .construct ∈ front ∧ .publish ∉ front := by
  have outer (mem : s ∈ k.opening threadSafe ++ k.closing threadSafe) : False :=
    Step.ne_of_isAccumulate fed (isAccumulate_eq_false k threadSafe mem) rfl
  obtain ⟨f, c, rfl, rfl, rfl⟩ := exists_split eq
    (fun mem => outer (List.mem_append_left _ mem))
    (fun mem => outer (List.mem_append_right _ mem))
  refine ⟨List.mem_append_left _ (construct_mem_opening k threadSafe), ?_⟩
  exact List.not_mem_append (publish_not_mem_opening k threadSafe)
    fun mem => Step.not_mem_of_isAccumulate feeds rfl (List.mem_append_left _ mem)

theorem foldlM_lock (threadSafe : Bool) :
    (k.opening threadSafe ++ steps ++ k.closing threadSafe).foldlM Step.lock false =
      some false := by
  obtain ⟨held, enters, leaves⟩ := exists_held k threadSafe
  simp only [List.foldlM_append, enters, Step.foldlM_lock feeds, leaves, Option.bind_eq_bind,
    Option.bind_some]

/-- In thread-safe code accumulations and publishing are in the lock. -/
theorem inLock (plain : k = .plain → steps = []) {s : Step}
    (reaches : s.isAccumulate = true ∨ s = .publish)
    (eq : k.opening true ++ steps ++ k.closing true = front ++ s :: back) :
    Step.InLock front back := by
  have ne {t : Step} (other : t.isAccumulate = false) (apart : t ≠ .publish) : s ≠ t := by
    obtain fed | rfl := reaches
    · exact Step.ne_of_isAccumulate fed other
    · exact apart.symm
  have enter : .acquireLock ∉ steps := Step.not_mem_of_isAccumulate feeds rfl
  have leave : .releaseLock ∉ steps := Step.not_mem_of_isAccumulate feeds rfl
  cases k with
  | storing =>
    refine Step.inLock_of_split [.checkCreated]
      ([.recheckCreated, .construct] ++ steps ++ [.publish]) ?_ (by simpa using enter)
      (by simpa using leave) ?_ (ne rfl nofun)
    · simpa only [opening, closing, List.append_assoc, List.cons_append, List.nil_append] using eq
    · simpa using ⟨ne (t := .checkCreated) rfl nofun, ne (t := .acquireLock) rfl nofun⟩
  | feeding =>
    refine Step.inLock_of_split [.construct] steps eq (by simpa using enter)
      (by simpa using leave) ?_ (ne rfl nofun)
    simpa using ⟨ne (t := .construct) rfl nofun, ne (t := .acquireLock) rfl nofun⟩
  | plain =>
    -- nothing is fed, and all there is constructs
    rw [plain rfl, List.append_nil] at eq
    have mem : s ∈ [Step.construct] := by
      rw [show [Step.construct] = front ++ s :: back from eq]
      exact List.mem_append_right _ List.mem_cons_self
    exact absurd (List.mem_singleton.mp mem) (ne rfl nofun)

/-- Whatever is fed, the steps are in order. -/
theorem ordered (threadSafe : Bool) (plain : k = .plain → steps = []) :
    Step.Ordered threadSafe (k.opening threadSafe ++ steps ++ k.closing threadSafe) where
  constructs := k.count_construct feeds threadSafe
  accumulates _ _ _ _ eq := k.front_of_accumulate feeds rfl eq
  balanced := k.foldlM_lock feeds threadSafe
  guarded safe front s back eq reaches := by
    subst safe
    exact k.inLock feeds plain reaches eq

end Around

/-- Without the lock the steps around the accumulations are those of code that is not thread-safe. -/
theorem filter_isLocking (k : Kind) :
    (k.opening true).filter (!·.isLocking) = k.opening false ∧
      (k.closing true).filter (!·.isLocking) = k.closing false := by
  cases k <;> exact ⟨rfl, rfl⟩

end Kind

variable {s : Step} {i : Instantiation} {k : Nat} {v : VariableId}

theorem mem_accumulationsOf : s ∈ accumulationsOf ts g a i ↔ ∃ k, ∃ acc ∈ g.accumulators[k]?,
    captures ts (a.node g i.target) acc = true ∧ .accumulate k i.target = s := by
  simp only [accumulationsOf, List.mem_map, List.mem_filter, List.mem_zipIdx_iff_getElem?,
    Prod.exists, Option.mem_def, and_assoc]
  exact exists_comm

/-- An instantiation is fed to each accumulator once. -/
theorem accumulationsOf_nodup : (accumulationsOf ts g a i).Nodup := by
  have eq : accumulationsOf ts g a i = ((g.accumulators.zipIdx.filter fun pair =>
      captures ts (a.node g i.target) pair.1).map Prod.snd).map (.accumulate · i.target) := by
    rw [List.map_map]
    rfl
  rw [eq]
  refine List.Nodup.map (fun _ _ same => (Step.accumulate.inj same).1) ?_
  exact (List.nodup_zipIdx_map_snd _).sublist (List.filter_sublist.map _)

theorem isAccumulate_of_mem (mem : s ∈ b.accumulations ts g a) : s.isAccumulate = true := by
  obtain ⟨i, -, mem⟩ := List.mem_flatMap.mp mem
  obtain ⟨k, acc, -, -, rfl⟩ := mem_accumulationsOf.mp mem
  rfl

/-- The steps of a block are those of its kind around its accumulations. -/
theorem stepsOf_eq : b.stepsOf ts threadSafe g a = (b.kind ts g a).opening threadSafe ++
    b.accumulations ts g a ++ (b.kind ts g a).closing threadSafe := by
  unfold stepsOf kind
  cases b.fillsStorage g a with
  | true => cases threadSafe <;> simp [locked, Kind.opening, Kind.closing]
  | false =>
    cases none : (b.accumulations ts g a).isEmpty with
    | true =>
      rw [List.isEmpty_iff.mp none]
      rfl
    | false => cases threadSafe <;> simp [locked, Kind.opening, Kind.closing, none]

/-- The steps of any block are in order. -/
theorem ordered_stepsOf : Step.Ordered threadSafe (b.stepsOf ts threadSafe g a) := by
  rw [stepsOf_eq]
  refine Kind.ordered _ (fun s => isAccumulate_of_mem) _ fun plain => ?_
  unfold kind at plain
  split at plain
  · cases plain
  · split at plain
    · exact List.isEmpty_iff.mp ‹_›
    · cases plain

/-- The accumulations are the steps that feed accumulators. -/
theorem filter_isAccumulate :
    (b.stepsOf ts threadSafe g a).filter (·.isAccumulate) = b.accumulations ts g a := by
  have outer {steps : List Step} (part : steps ⊆ (b.kind ts g a).opening threadSafe ++
      (b.kind ts g a).closing threadSafe) : steps.filter (·.isAccumulate) = [] := by
    refine List.filter_eq_nil_iff.mpr fun s mem => ?_
    rw [Kind.isAccumulate_eq_false _ _ (part mem)]
    exact Bool.false_ne_true
  rw [stepsOf_eq, List.filter_append, List.filter_append, outer (List.subset_append_left ..),
    outer (List.subset_append_right ..), List.nil_append, List.append_nil]
  exact List.filter_eq_self.mpr fun s => isAccumulate_of_mem

/-- Without the steps for the lock, thread-safe code is the other code. -/
theorem filter_isLocking_stepsOf :
    (b.stepsOf ts true g a).filter (!·.isLocking) = b.stepsOf ts false g a := by
  have fed : (b.accumulations ts g a).filter (!·.isLocking) = b.accumulations ts g a := by
    refine List.filter_eq_self.mpr fun s mem => ?_
    obtain ⟨i, -, mem⟩ := List.mem_flatMap.mp mem
    obtain ⟨k, acc, -, -, rfl⟩ := mem_accumulationsOf.mp mem
    rfl
  obtain ⟨opening, closing⟩ := (b.kind ts g a).filter_isLocking
  rw [stepsOf_eq, stepsOf_eq, List.filter_append, List.filter_append, fed, opening, closing]

end Block

/-! ## The steps of a plan -/

namespace Plan

/-- The steps of all blocks. -/
def steps (p : Plan) : List Step := p.blocks.flatMap (·.steps)

/-- The plan without the steps that are there for the lock only. -/
def withoutLock (p : Plan) : Plan :=
  { p with blocks := p.blocks.map fun b => { b with steps := b.steps.filter (!·.isLocking) } }

/-- The accumulator at an index gathers a variable that the plan makes. -/
structure Feeds (ts : TypeOracle) (g : Graph) (a : Arena) (p : Plan) (k : Nat) (v : VariableId) :
    Prop where
  made : v ∈ p.targets
  inside : (a.node g v).isOutside = false
  captured : ∃ acc ∈ g.accumulators[k]?, acc.capturesLifetime (a.node g v).lifetime = true ∧
    ts.isAssignable (a.node g v).instanceType acc.captured = true

instance (k : Nat) (v : VariableId) : Decidable (p.Feeds ts g a k v) :=
  decidable_of_iff (v ∈ p.targets ∧ (a.node g v).isOutside = false ∧
      ∃ acc ∈ g.accumulators[k]?, acc.capturesLifetime (a.node g v).lifetime = true ∧
        ts.isAssignable (a.node g v).instanceType acc.captured = true)
    ⟨fun ⟨made, inside, captured⟩ => ⟨made, inside, captured⟩,
      fun ⟨made, inside, captured⟩ => ⟨made, inside, captured⟩⟩

/-- The steps of a plan feed what there is to feed once, in order and in the lock. -/
structure Materializes (ts : TypeOracle) (g : Graph) (a : Arena) (p : Plan) : Prop where
  once : ∀ threadSafe k v, p.Feeds ts g a k v →
    (p.annotate ts threadSafe g a).steps.count (.accumulate k v) = 1
  never : ∀ threadSafe k v, ¬ p.Feeds ts g a k v →
    .accumulate k v ∉ (p.annotate ts threadSafe g a).steps
  ordered : ∀ threadSafe, ∀ b ∈ (p.annotate ts threadSafe g a).blocks,
    Step.Ordered threadSafe b.steps
  /-- Thread-safe code differs by the lock. -/
  unlocked : (p.annotate ts true g a).withoutLock = p.annotate ts false g a
  /-- Nothing is left of what was annotated before. -/
  stable : ∀ before threadSafe,
    (p.annotate ts before g a).annotate ts threadSafe g a = p.annotate ts threadSafe g a

/-- What a plan feeds to the accumulators of the graph. -/
def accumulations (ts : TypeOracle) (g : Graph) (a : Arena) (p : Plan) : List Step :=
  p.instantiations.flatMap (Block.accumulationsOf ts g a)

variable {k : Nat} {v : VariableId}

/-- The accumulations of a plan are those of its blocks, in their order. -/
theorem filter_isAccumulate (ts : TypeOracle) (threadSafe : Bool) (g : Graph) (a : Arena)
    (p : Plan) : (p.annotate ts threadSafe g a).steps.filter (·.isAccumulate) =
      p.accumulations ts g a := by
  have steps : (p.annotate ts threadSafe g a).steps =
      p.blocks.flatMap fun b => b.stepsOf ts threadSafe g a := List.flatMap_map ..
  rw [steps, List.filter_flatMap, accumulations, instantiations, List.flatMap_assoc]
  exact congrArg List.flatten (List.map_congr_left fun b _ => Block.filter_isAccumulate)

theorem accumulate_mem_iff : .accumulate k v ∈ p.accumulations ts g a ↔ p.Feeds ts g a k v := by
  rw [accumulations, List.mem_flatMap]
  constructor
  · rintro ⟨i, mem, fed⟩
    obtain ⟨k, acc, known, captures, eq⟩ := Block.mem_accumulationsOf.mp fed
    cases eq
    simp only [Block.captures, Bool.and_eq_true, Bool.not_eq_true'] at captures
    obtain ⟨⟨inside, lifetime⟩, assignable⟩ := captures
    exact ⟨List.mem_map_of_mem mem, inside, acc, known, lifetime, assignable⟩
  · rintro ⟨made, inside, acc, known, lifetime, assignable⟩
    obtain ⟨i, mem, rfl⟩ := List.mem_map.mp made
    refine ⟨i, mem, Block.mem_accumulationsOf.mpr ⟨k, acc, known, ?_, rfl⟩⟩
    rw [Block.captures, inside, lifetime, assignable]
    rfl

/-- A plan with distinct targets feeds nothing twice. -/
theorem accumulations_nodup (distinct : p.targets.Nodup) : (p.accumulations ts g a).Nodup := by
  refine List.nodup_flatMap.mpr ⟨fun i _ => Block.accumulationsOf_nodup, ?_⟩
  refine (List.pairwise_map.mp distinct).imp fun ne s s_i s_j => ne ?_
  obtain ⟨k, -, -, -, rfl⟩ := Block.mem_accumulationsOf.mp s_i
  obtain ⟨k', -, -, -, same⟩ := Block.mem_accumulationsOf.mp s_j
  exact (Step.accumulate.inj same).2.symm

theorem annotate_annotate (before threadSafe : Bool) :
    (p.annotate ts before g a).annotate ts threadSafe g a = p.annotate ts threadSafe g a := by
  simp only [annotate, List.map_map]
  rfl

theorem withoutLock_annotate :
    (p.annotate ts true g a).withoutLock = p.annotate ts false g a := by
  simp only [withoutLock, annotate, List.map_map, Plan.mk.injEq, true_and]
  refine List.map_congr_left fun b _ => ?_
  exact congrArg (fun steps => { b with steps }) Block.filter_isLocking_stepsOf

/-- Whatever a plan makes, its steps do this if the targets are distinct. -/
theorem materializes (distinct : p.targets.Nodup) : p.Materializes ts g a where
  once threadSafe k v feeds := by
    have fed := accumulate_mem_iff.mpr feeds
    rw [← filter_isAccumulate ts threadSafe] at fed
    refine (List.count_filter rfl).symm.trans (List.count_eq_one_of_mem ?_ fed)
    rw [filter_isAccumulate]
    exact accumulations_nodup distinct
  never threadSafe k v other mem := by
    refine other (accumulate_mem_iff.mp ?_)
    rw [← filter_isAccumulate ts threadSafe]
    exact List.mem_filter.mpr ⟨mem, rfl⟩
  ordered threadSafe b mem := by
    obtain ⟨b, -, rfl⟩ := List.mem_map.mp mem
    exact Block.ordered_stepsOf
  unlocked := withoutLock_annotate
  stable := annotate_annotate

end Plan

/-- The plans of all visits are materialized, whatever is to be gathered. -/
theorem plan_materializes (resolved : g.IsResolved) (visits : g.Visits legs a) (mem : l ∈ legs)
    (ts : TypeOracle) (accumulators : List Accumulator) :
    l.tour.plan.Materializes ts { g with accumulators } a :=
  Plan.materializes (visits.toured.targets_nodup resolved.uniform mem)

namespace Sample

/-- A transient below a singleton. -/
def gathered : Graph := graph <| setup [
  service "T" [] .transient,
  service "S" ["T"] .singleton,
  service "R" ["S"] .transient] ["R"]

/-- Gathers instances of one type and lifetime. -/
def gathering (type : String) (lifetime : Lifetime) (isRoot : Bool) : Accumulator :=
  { name := type, captured := .plain type, type := .plain "Owned", lifetimes := [lifetime], isRoot }

/-- Of the two accumulators for the singleton only the second one asks for what is shared. -/
def accumulators : List Accumulator :=
  [gathering "T" .transient false, gathering "S" .singleton false, gathering "S" .singleton true,
    gathering "R" .transient false]

/-- The graph with the accumulators. -/
def gathers : Graph := { gathered with accumulators }

end Sample

/-- This plan feeds the singleton and the transient below it where the singleton is stored, and the
    root in another block, each to one accumulator. -/
theorem plan_materializes_gathered : Sample.gathered.IsResolved ∧
    ∃ legs a, Sample.gathered.Visits legs a ∧ ∃ l ∈ legs,
      l.tour.plan.Materializes .standard Sample.gathers a ∧
      ∃ b ∈ l.tour.plan.blocks, ∃ b' ∈ l.tour.plan.blocks,
        b.kind .standard Sample.gathers a = .storing ∧
        b'.kind .standard Sample.gathers a = .feeding ∧
        (∃ i ∈ b.instantiations, l.tour.plan.Feeds .standard Sample.gathers a 0 i.target) ∧
        l.tour.plan.Feeds .standard Sample.gathers a 2 b.root ∧
        l.tour.plan.Feeds .standard Sample.gathers a 3 b'.root ∧
        ¬ l.tour.plan.Feeds .standard Sample.gathers a 1 b.root := by
  have resolved : Sample.gathered.IsResolved := Sample.isResolved _ (by decide +kernel)
  obtain ⟨legs, a, visits, l, mem, found⟩ : ∃ legs a, Sample.gathered.Visits legs a ∧ ∃ l ∈ legs,
      ∃ b ∈ l.tour.plan.blocks, ∃ b' ∈ l.tour.plan.blocks,
        b.kind .standard Sample.gathers a = .storing ∧
        b'.kind .standard Sample.gathers a = .feeding ∧
        (∃ i ∈ b.instantiations, l.tour.plan.Feeds .standard Sample.gathers a 0 i.target) ∧
        l.tour.plan.Feeds .standard Sample.gathers a 2 b.root ∧
        l.tour.plan.Feeds .standard Sample.gathers a 3 b'.root ∧
        ¬ l.tour.plan.Feeds .standard Sample.gathers a 1 b.root :=
    Graph.visits_of_any (by decide +kernel)
  exact ⟨resolved, legs, a, visits, l, mem,
    plan_materializes resolved visits mem .standard Sample.accumulators, found⟩

end ObjectGraph
