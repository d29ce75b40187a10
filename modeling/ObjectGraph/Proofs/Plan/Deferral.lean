import ObjectGraph.Proofs.Plan.Answer
import ObjectGraph.Proofs.Plan.Dependency
import ObjectGraph.Proofs.Sample

/-
  What the deferred uses of a node share.

  A deferred use is meant to be answered with one variable for all deferred uses of its node, which
  gets a block of its own.  But the table of these variables has an entry only when a block was opened
  for a deferred use.  If something is found for the block of the use first, that is handed out, and
  the next deferred use in some other block gets another value; and what is found for a resolution may
  have been made inline.  `sharesDeferred_iff` says that nothing else can go wrong.
-/

namespace ObjectGraph

open Arena

variable {g : Graph} {a : Arena} {n : NodeId} {legs : List Leg} {l : Leg} {u u₀ : Use}

/-! ## Deferred uses of a node -/

/-- The use is a deferred one of the node. -/
def Use.Defers (g : Graph) (a : Arena) (n : NodeId) (u : Use) : Prop :=
  u.isDeferred g a = true ∧ (a.var u.supply.var).node = n

instance : Decidable (u.Defers g a n) := inferInstanceAs (Decidable (_ ∧ _))

/-- The deferred uses of a node share one value, and a block of the plan is there for it. -/
structure Plan.SharesDeferred (g : Graph) (a : Arena) (n : NodeId) (p : Plan) : Prop where
  same : ∀ u ∈ p.uses, ∀ u' ∈ p.uses, u.Defers g a n → u'.Defers g a n →
    a.terminal u.supply.var = a.terminal u'.supply.var
  rooted : ∀ u ∈ p.uses, u.Defers g a n →
    ∃ b ∈ p.blocks, a.terminal b.root = a.terminal u.supply.var

/-- The deferred use `u` of the node is answered with what is made for the use `u₀`, which is not a
    deferred use of the node. -/
structure Plan.Diverts (g : Graph) (a : Arena) (n : NodeId) (p : Plan) (u₀ u : Use) : Prop where
  mem : u₀ ∈ p.uses
  other : ¬ u₀.Defers g a n
  made : u₀.supply.var ∈ p.targets
  deferred : u ∈ p.uses ∧ u.Defers g a n
  same : a.terminal u₀.supply.var = a.terminal u.supply.var

theorem Use.Defers.inside (defers : u.Defers g a n) : a.Inside g u.supply.var := by
  have deferred := defers.1
  rw [Use.isDeferred, Bool.and_eq_true, Bool.not_eq_true'] at deferred
  exact deferred.2

theorem Use.placement_of_defers (defers : u.Defers g a n) : u.placement g a = .block :=
  if_pos defers.1

namespace Graph.Toured

variable (uniform : g.Uniform) (toured : g.Toured legs a) (mem : l ∈ legs)
include uniform toured mem

/-- What serves a use that is not from outside is not from outside either. -/
theorem inside_of_diverts (diverts : l.tour.plan.Diverts g a n u₀ u) :
    a.Inside g u₀.supply.var :=
  (toured.rested uniform).inside_congr uniform
    (toured.exists_made uniform mem diverts.deferred.1).1
    (toured.exists_made uniform mem diverts.mem).1 diverts.same.symm diverts.deferred.2.inside

/-! ## The answer to a deferred use -/

variable {top : VariableId} {w : Walk} (explained : l.Explained g top w a)
include explained

/-- A deferred use of what is not shared is answered with the variable in the table, or with what was
    made for another use in its block. -/
theorem defers_cases (unshared : (g.node n).isShared = false) (u_mem : u ∈ l.tour.plan.uses)
    (defers : u.Defers g a n) :
    (∃ u₁ ∈ l.tour.plan.uses, u₁.Defers g a n ∧ w.shared.lookup n = some u₁.supply.var ∧
      u₁.supply.var ∈ l.tour.plan.targets ∧
      a.terminal u₁.supply.var = a.terminal u.supply.var) ∨
    (∃ u₂, l.tour.plan.Diverts g a n u₂ u ∧ u₂.block = u.block ∧ u₂.placement g a = .block ∧
      g.weight n > 1 ∧ w.arena.lookup (.hoisted (g.node n).key u.block) = some u₂.supply.var) := by
  obtain ⟨-, rfl⟩ := id defers
  have entered {u₁ : Use} (mem₁ : u₁ ∈ l.tour.plan.uses)
      (defers₁ : u₁.Defers g a (a.var u.supply.var).node)
      (made : u₁.supply.var ∈ l.tour.plan.targets) :
      w.shared.lookup (a.var u.supply.var).node = some u₁.supply.var :=
    defers₁.2 ▸ explained.entered u₁ mem₁ defers₁.1 made
  cases explained.answered u u_mem defers.inside with
  | shared deferred _ entry _ same =>
    obtain ⟨made, u₁, mem₁, rfl, node, deferred₁⟩ := explained.entry _ _ entry
    exact .inl ⟨u₁, mem₁, ⟨deferred₁, node⟩, entry, made, same⟩
  | made alone made => exact .inl ⟨u, u_mem, defers, entered u_mem defers made, made, rfl⟩
  | @found k key stored =>
    obtain ⟨_, ⟨⟩, rfl⟩ := Placed.keyOf_unshared unshared key
    obtain ⟨-, reused, -⟩ := Placed.keyOf_hoisted_iff.mp key
    obtain ⟨u₂, mem₂, block, var, made, hoisted⟩ := explained.hoisted _ _ _ stored
    have same : a.terminal u₂.supply.var = a.terminal u.supply.var := by
      rw [var, (toured.rested uniform).1.linked.terminal_terminal (toured.exists_made uniform mem
        u_mem).1]
    rw [← var] at made hoisted stored
    by_cases defers₂ : u₂.Defers g a (a.var u.supply.var).node
    · exact .inl ⟨u₂, mem₂, defers₂, entered mem₂ defers₂ made, made, same⟩
    · exact .inr ⟨u₂, ⟨mem₂, defers₂, made, ⟨u_mem, defers⟩, same⟩, block,
        Use.placement_of_hoisted hoisted, reused, stored⟩

/-- What is answered with the making of another use is found for the block of both. -/
theorem lookup_of_diverts (unshared : (g.node n).isShared = false)
    (diverts : l.tour.plan.Diverts g a n u₀ u) :
    u₀.block = u.block ∧ g.weight n > 1 ∧
      w.arena.lookup (.hoisted (g.node n).key u.block) = some u₀.supply.var := by
  obtain ⟨u_mem, defers⟩ := diverts.deferred
  obtain ⟨u₁, mem₁, defers₁, -, made₁, same₁⟩ | ⟨u₂, diverts₂, block, -, reused, stored⟩ :=
    toured.defers_cases uniform mem explained unshared u_mem defers
  · -- what is in the table was made for a deferred use of the node
    have eq := toured.use_inj uniform mem explained mem₁ diverts.mem defers₁.inside made₁
      diverts.made (diverts.same.trans same₁.symm)
    exact (diverts.other (eq ▸ defers₁)).elim
  · have var := toured.target_inj uniform mem diverts.made diverts₂.made
      (diverts.same.trans diverts₂.same.symm)
    have inside := toured.inside_of_diverts uniform mem diverts
    cases explained.once u₀ diverts.mem u₂ diverts₂.mem inside var
    exact ⟨block, reused, stored⟩

/-- So no block is opened for a deferred use beside it. -/
theorem block_ne_of_diverts (unshared : (g.node n).isShared = false)
    (diverts : l.tour.plan.Diverts g a n u₀ u) {u₁ : Use} (mem₁ : u₁ ∈ l.tour.plan.uses)
    (defers₁ : u₁.Defers g a n) (made₁ : u₁.supply.var ∈ l.tour.plan.targets) :
    u₁.block ≠ u.block := by
  obtain ⟨-, reused, stored⟩ := toured.lookup_of_diverts uniform mem explained unshared diverts
  obtain ⟨-, rfl⟩ := id defers₁
  intro block
  cases explained.answered u₁ mem₁ defers₁.inside with
  | shared _ _ entry ne _ =>
    exact ne (Option.some.inj (entry.symm.trans (explained.entered u₁ mem₁ defers₁.1 made₁)))
  | made alone _ =>
    cases (Placed.keyOf_hoisted_iff.mpr ⟨unshared, reused, rfl⟩).symm.trans alone
  | @found k key stored₁ =>
    obtain ⟨_, ⟨⟩, rfl⟩ := Placed.keyOf_unshared unshared key
    rw [block, stored, Option.some.injEq] at stored₁
    have same : a.terminal u₀.supply.var = a.terminal u₁.supply.var := by
      rw [stored₁, (toured.rested uniform).1.linked.terminal_terminal (toured.exists_made uniform mem
        mem₁).1]
    have eq := toured.use_inj uniform mem explained mem₁ diverts.mem defers₁.inside made₁
      diverts.made same
    exact diverts.other (eq ▸ defers₁)

/-- The deferred uses of a node share one value, if no other use that serves one of them leaves out
    the deferred uses in other blocks. -/
theorem terminal_eq_of_defers
    (together : (g.node n).isShared = true ∨ ∀ u₀ u, l.tour.plan.Diverts g a n u₀ u →
      ∀ u' ∈ l.tour.plan.uses, u'.Defers g a n → u'.block = u.block)
    {u' : Use} (u_mem : u ∈ l.tour.plan.uses) (defers : u.Defers g a n)
    (u'_mem : u' ∈ l.tour.plan.uses) (defers' : u'.Defers g a n) :
    a.terminal u.supply.var = a.terminal u'.supply.var := by
  cases shared : (g.node n).isShared with
  | true =>
    have found {u : Use} (mem : u ∈ l.tour.plan.uses) (defers : u.Defers g a n) :
        w.arena.lookup (.binding (g.node n).key) = some (a.terminal u.supply.var) := by
      rw [← defers.2] at shared ⊢
      exact explained.lookup_of_shared mem defers.inside shared
    exact Option.some.inj ((found u_mem defers).symm.trans (found u'_mem defers'))
  | false =>
    have together := together.resolve_left (by rw [shared]; nofun)
    have apart {u₀ u u₁ : Use} (diverts : l.tour.plan.Diverts g a n u₀ u)
        (mem₁ : u₁ ∈ l.tour.plan.uses) (defers₁ : u₁.Defers g a n)
        (made₁ : u₁.supply.var ∈ l.tour.plan.targets) : False :=
      toured.block_ne_of_diverts uniform mem explained shared diverts mem₁ defers₁ made₁
        (together u₀ u diverts u₁ mem₁ defers₁)
    obtain ⟨u₁, mem₁, defers₁, entry, made₁, same⟩ | ⟨u₂, diverts, -, -, -, stored⟩ :=
      toured.defers_cases uniform mem explained shared u_mem defers <;>
    obtain ⟨u₁', mem₁', defers₁', entry', made₁', same'⟩ | ⟨u₂', diverts', -, -, -, stored'⟩ :=
      toured.defers_cases uniform mem explained shared u'_mem defers'
    · rw [← same, ← same', Option.some.inj (entry.symm.trans entry')]
    · exact (apart diverts' mem₁ defers₁ made₁).elim
    · exact (apart diverts mem₁' defers₁' made₁').elim
    · rw [together u₂ u diverts u' u'_mem defers', stored] at stored'
      rw [← diverts.same, ← diverts'.same, Option.some.inj stored']

end Graph.Toured

/-- The deferred uses of a node share one value, which has a block of its own, unless one of them is
    answered with what was made for another use: inline, or for the block of that use while there are
    deferred uses in other blocks. -/
theorem sharesDeferred_iff (resolved : g.IsResolved) (visits : g.Visits legs a) (mem : l ∈ legs)
    (n : NodeId) :
    l.tour.plan.SharesDeferred g a n ↔ ∀ u₀ u, l.tour.plan.Diverts g a n u₀ u →
      u₀.placement g a = .block ∧ ((g.node n).isShared = true ∨
        ∀ u' ∈ l.tour.plan.uses, u'.Defers g a n → u'.block = u.block) := by
  have uniform := resolved.uniform
  have toured := visits.toured
  obtain ⟨w, explained⟩ := toured.explained uniform mem
  constructor
  · intro shares u₀ u diverts
    obtain ⟨u_mem, defers⟩ := diverts.deferred
    constructor
    · obtain ⟨b, b_mem, same⟩ := shares.rooted u u_mem defers
      refine u₀.placement_cases.resolve_left fun inline => ?_
      refine explained.root_ne_of_inline diverts.mem (toured.inside_of_diverts uniform mem diverts)
        inline b b_mem ?_
      exact toured.target_inj uniform mem (Block.root_mem_targets b_mem (explained.fills b b_mem).1)
        diverts.made (same.trans diverts.same.symm)
    · refine or_iff_not_imp_left.mpr fun unshared u' u'_mem defers' => ?_
      rw [Bool.not_eq_true] at unshared
      have diverts' : l.tour.plan.Diverts g a n u₀ u' := { diverts with
        deferred := ⟨u'_mem, defers'⟩
        same := diverts.same.trans (shares.same u u_mem u' u'_mem defers defers') }
      obtain ⟨block, -⟩ := toured.lookup_of_diverts uniform mem explained unshared diverts
      obtain ⟨block', -⟩ := toured.lookup_of_diverts uniform mem explained unshared diverts'
      exact block'.symm.trans block
  · intro fine
    constructor
    case same =>
      intro u u_mem u' u'_mem defers defers'
      refine toured.terminal_eq_of_defers uniform mem explained ?_ u_mem defers u'_mem defers'
      exact or_iff_not_imp_left.mpr fun unshared u₀ u diverts =>
        (fine u₀ u diverts).2.resolve_left unshared
    case rooted =>
      intro u u_mem defers
      obtain ⟨-, v, made, -, same⟩ := toured.exists_made uniform mem u_mem
      obtain ⟨b, b_mem, rfl⟩ | ⟨u₀, mem₀, rfl, inline⟩ := explained.cases_of_made made
      · exact ⟨b, b_mem, same⟩
      · have other : ¬ u₀.Defers g a n := fun defers₀ => by
          cases inline.symm.trans (Use.placement_of_defers defers₀)
        cases inline.symm.trans (fine u₀ u ⟨mem₀, other, made, ⟨u_mem, defers⟩, same⟩).1

/-! ## Deferred uses that share nothing -/

/-- A value that is used at once and later in one block, and later in another one. -/
def Sample.atOnce : Graph := Sample.graph <| Sample.setup [
  Sample.service "X" [] .transient,
  Sample.later "F" ["X"],
  Sample.later "G" ["X"],
  Sample.service "S" ["G"] .singleton,
  Sample.service "R" ["X", "F", "S"] .transient] ["R"]

/-- An instance of a resolution that is used later by one contract, and at once by another. -/
def Sample.byContract : Graph := Sample.graph <| Sample.setup [
  Sample.bound ["I", "J"] "P" [] .perResolve,
  Sample.later "F" ["I"],
  Sample.service "R" ["F", "J"] .transient] ["R"]

/-- The first deferred use finds what was made at once, and the second one does not. -/
theorem Sample.visits_atOnce : Sample.atOnce.IsResolved ∧ ∃ legs a,
    Sample.atOnce.Visits legs a ∧ ∃ l ∈ legs, ∃ u ∈ l.tour.plan.uses, ∃ u' ∈ l.tour.plan.uses,
      u.Defers Sample.atOnce a (a.var u.supply.var).node ∧
      u'.Defers Sample.atOnce a (a.var u.supply.var).node ∧
      a.terminal u.supply.var ≠ a.terminal u'.supply.var :=
  ⟨Sample.isResolved _ (by decide +kernel), Graph.visits_of_any (by decide +kernel)⟩

/-- What the deferred use finds was made inline. -/
theorem Sample.visits_byContract : Sample.byContract.IsResolved ∧ ∃ legs a,
    Sample.byContract.Visits legs a ∧ ∃ l ∈ legs, ∃ u ∈ l.tour.plan.uses,
      u.Defers Sample.byContract a (a.var u.supply.var).node ∧
      ∀ b ∈ l.tour.plan.blocks, a.terminal b.root ≠ a.terminal u.supply.var :=
  ⟨Sample.isResolved _ (by decide +kernel), Graph.visits_of_any (by decide +kernel)⟩

/-- So the deferred uses of a node do not always share one value, and the value does not always have
    a block of its own. -/
theorem deferred_not_always_shared :
    ¬ (∀ g legs a, Graph.IsResolved g → g.Visits legs a → ∀ l ∈ legs, ∀ n,
      ∀ u ∈ l.tour.plan.uses, ∀ u' ∈ l.tour.plan.uses, u.Defers g a n → u'.Defers g a n →
        a.terminal u.supply.var = a.terminal u'.supply.var) ∧
    ¬ (∀ g legs a, Graph.IsResolved g → g.Visits legs a → ∀ l ∈ legs, ∀ n,
      ∀ u ∈ l.tour.plan.uses, u.Defers g a n →
        ∃ b ∈ l.tour.plan.blocks, a.terminal b.root = a.terminal u.supply.var) := by
  constructor
  · intro always
    obtain ⟨resolved, legs, a, visits, l, mem, u, u_mem, u', u'_mem, defers, defers', apart⟩ :=
      Sample.visits_atOnce
    exact apart (always _ legs a resolved visits l mem _ u u_mem u' u'_mem defers defers')
  · intro always
    obtain ⟨resolved, legs, a, visits, l, mem, u, u_mem, defers, none⟩ := Sample.visits_byContract
    obtain ⟨b, b_mem, same⟩ := always _ legs a resolved visits l mem _ u u_mem defers
    exact none b b_mem same

/-- In both samples some use diverts a deferred use. -/
theorem diverts_atOnce_byContract :
    (Sample.atOnce.IsResolved ∧ ∃ legs a, Sample.atOnce.Visits legs a ∧ ∃ l ∈ legs, ∃ n u₀ u,
      l.tour.plan.Diverts Sample.atOnce a n u₀ u) ∧
    (Sample.byContract.IsResolved ∧ ∃ legs a, Sample.byContract.Visits legs a ∧ ∃ l ∈ legs,
      ∃ n u₀ u, l.tour.plan.Diverts Sample.byContract a n u₀ u) := by
  constructor
  · obtain ⟨resolved, legs, a, visits, l, mem, u, u_mem, u', u'_mem, defers, defers', apart⟩ :=
      Sample.visits_atOnce
    refine ⟨resolved, legs, a, visits, l, mem, (a.var u.supply.var).node,
      Classical.byContradiction fun none => apart ?_⟩
    have shares := (sharesDeferred_iff resolved visits mem (a.var u.supply.var).node).mpr
      fun u₀ u diverts => (none ⟨u₀, u, diverts⟩).elim
    exact shares.same u u_mem u' u'_mem defers defers'
  · obtain ⟨resolved, legs, a, visits, l, mem, u, u_mem, defers, none⟩ := Sample.visits_byContract
    refine ⟨resolved, legs, a, visits, l, mem, (a.var u.supply.var).node,
      Classical.byContradiction fun no => ?_⟩
    have shares := (sharesDeferred_iff resolved visits mem (a.var u.supply.var).node).mpr
      fun u₀ u diverts => (no ⟨u₀, u, diverts⟩).elim
    obtain ⟨b, b_mem, same⟩ := shares.rooted u u_mem defers
    exact none b b_mem same

end ObjectGraph
