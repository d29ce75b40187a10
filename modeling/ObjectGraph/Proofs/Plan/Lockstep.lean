import Mathlib.Data.List.Forall2
import Mathlib.Logic.Relation
import ObjectGraph.Proofs.Graph.Correspondence
import ObjectGraph.Proofs.Plan.Run

/-
  Two walks in lockstep.

  A walk through a root can be compared with another one, of another graph or from another arena, by
  saying which variables stand for each other.  Such a pairing grows while the walks go on, and
  `Stage.Alike` says that two stages are the same but for their variables.

  `Lockstep` lists what has to be known of the two graphs for the walks to stay alike.  Only the step
  that supplies a slot is left to the one who compares; the four others are dealt with here
  (`Lockstep.step`).  Since a walk has no choice (`Step.unique`) and stops when its stacks are empty,
  walks that are alike when they start find blocks that are alike (`Lockstep.run`).
-/

namespace ObjectGraph

/-- Which variables of two walks stand for each other. -/
abbrev Pairing := VariableId → VariableId → Prop

/-- The pairing `m'` has all pairs of `m`. -/
def Pairing.Within (m m' : Pairing) : Prop := ∀ x y, m x y → m' x y

/-- The pairing with one more pair. -/
def Pairing.add (m : Pairing) (v v' : VariableId) : Pairing := fun x y => m x y ∨ x = v ∧ y = v'

theorem Pairing.within_add (m : Pairing) (v v' : VariableId) : m.Within (m.add v v') :=
  fun _ _ => .inl

/-! ## What is alike -/

/-- One slot is supplied, by variables that stand for each other. -/
structure Supply.Alike (m : Pairing) (s s' : Supply) : Prop where
  slot : s.slot = s'.slot
  request : s.request = s'.request
  var : m s.var s'.var

structure Instantiation.Alike (m : Pairing) (i i' : Instantiation) : Prop where
  target : m i.target i'.target
  supplies : List.Forall₂ (Supply.Alike m) i.supplies i'.supplies

structure Block.Alike (m : Pairing) (b b' : Block) : Prop where
  root : m b.root b'.root
  instantiations : List.Forall₂ (Instantiation.Alike m) b.instantiations b'.instantiations
  steps : b.steps = b'.steps

/-- The stacks of two walks are alike. -/
structure Walk.Stacked (m : Pairing) (w w' : Walk) : Prop where
  targets : List.Forall₂ m w.targets w'.targets
  pending : List.Forall₂ m w.pending w'.pending

/-- Stages that are the same but for their variables.  `N` relates the nodes that are instantiated,
    and `R` those that fill slots. -/
inductive Stage.Alike (N R : NodeId → NodeId → Prop) (m : Pairing) : Stage → Stage → Prop where
  | between {w w' : Walk} {found found' : List Block} (stacked : w.Stacked m w')
      (blocks : List.Forall₂ (Block.Alike m) found found') :
      Alike N R m (between w found) (between w' found')
  | within {w w' : Walk} {found found' : List Block} {root root' : VariableId}
      {made made' : List Instantiation} (stacked : w.Stacked m w')
      (blocks : List.Forall₂ (Block.Alike m) found found') (roots : m root root')
      (instantiations : List.Forall₂ (Instantiation.Alike m) made made') :
      Alike N R m (within w found root made) (within w' found' root' made')
  | supplying {w w' : Walk} {found found' : List Block} {root root' : VariableId}
      {made made' : List Instantiation} {target target' : VariableId} {n n' : NodeId}
      {supplies supplies' : List Supply} {rest rest' : List Edge} (stacked : w.Stacked m w')
      (blocks : List.Forall₂ (Block.Alike m) found found') (roots : m root root')
      (instantiations : List.Forall₂ (Instantiation.Alike m) made made')
      (targets : m target target') (nodes : N n n')
      (supplied : List.Forall₂ (Supply.Alike m) supplies supplies')
      (edges : List.Forall₂ (Edge.Alike R) rest rest') :
      Alike N R m (supplying w found root made target n supplies rest)
        (supplying w' found' root' made' target' n' supplies' rest')

variable {m m' : Pairing} {N R : NodeId → NodeId → Prop}

namespace Pairing.Within

variable (more : m.Within m')
include more

theorem supplies {as bs : List Supply} (all : List.Forall₂ (Supply.Alike m) as bs) :
    List.Forall₂ (Supply.Alike m') as bs :=
  all.imp fun _ _ alike => { alike with var := more _ _ alike.var }

theorem instantiations {as bs : List Instantiation}
    (all : List.Forall₂ (Instantiation.Alike m) as bs) :
    List.Forall₂ (Instantiation.Alike m') as bs :=
  all.imp fun _ _ alike => ⟨more _ _ alike.target, more.supplies alike.supplies⟩

theorem blocks {as bs : List Block} (all : List.Forall₂ (Block.Alike m) as bs) :
    List.Forall₂ (Block.Alike m') as bs :=
  all.imp fun _ _ alike =>
    { alike with
      root := more _ _ alike.root
      instantiations := more.instantiations alike.instantiations }

end Pairing.Within

namespace Stage

variable {g h : Graph} {st st' st₁ st₁' : Stage}

/-! ## A walk has no choice -/

/-- What happens next is determined. -/
theorem Step.unique (step : Step g st st₁) (step' : Step g st st₁') : st₁ = st₁' := by
  cases step with
  | openBlock w found root pending next idle =>
    cases step' with
    | openBlock _ _ root' pending' next' =>
      cases next.symm.trans next'
      rfl
  | closeBlock w found root made idle =>
    cases step' with
    | closeBlock => rfl
    | take _ _ _ _ _ _ next => cases idle.symm.trans next
  | take w found root made target targets next =>
    cases step' with
    | closeBlock _ _ _ _ idle => cases idle.symm.trans next
    | take _ _ _ _ _ _ next' =>
      cases next.symm.trans next'
      rfl
  | supply => cases step'; rfl
  | finish => cases step'; rfl

/-- A walk that is drained stays where it is. -/
theorem Run.eq_of_drained {w : Walk} {found : List Block} (drained : w.pending = [])
    (run : Run g (between w found) st) : st = between w found := by
  rcases run.cases_head with same | ⟨_, step, -⟩
  · exact same.symm
  · cases step with
    | openBlock _ _ _ _ next => cases drained.symm.trans next

/-- Two walks from one stage that are drained found the same. -/
theorem Run.unique {w w' : Walk} {found found' : List Block} (run : Run g st (between w found))
    (run' : Run g st (between w' found')) (drained : w.pending = []) (drained' : w'.pending = []) :
    between w found = between w' found' := by
  have right_unique : Relator.RightUnique (Step g) := fun _ _ _ => Step.unique
  rcases Relation.ReflTransGen.total_of_right_unique right_unique run run' with ahead | behind
  · exact (Run.eq_of_drained drained ahead).symm
  · exact Run.eq_of_drained drained' behind

/-! ## Staying alike -/

/-- What keeps the walks of two graphs alike.  `S` and `S'` are invariants of each walk by itself,
    `I` is what ties their variables together. -/
structure Lockstep (g h : Graph) (N R : NodeId → NodeId → Prop) (S S' : Stage → Prop)
    (I : Pairing → Stage → Stage → Prop) : Prop where
  keeps : ∀ {st st₁}, S st → Step g st st₁ → S st₁
  keeps' : ∀ {st st₁}, S' st → Step h st st₁ → S' st₁
  node : ∀ {m st st'} {x y : VariableId}, I m st st' → m x y →
    N (st.arena.var x).node (st'.arena.var y).node
  edges : ∀ {n n'}, N n n' → List.Forall₂ (Edge.Alike R) (g.dependencies n) (h.dependencies n')
  /-- A step that only passes variables on does not touch the tie. -/
  passes : ∀ {m st st' st₁ st₁'}, S st → S' st' → I m st st' → Alike N R m st st' →
    Step g st st₁ → Step h st' st₁' → st.ahead = [] → st'.ahead = [] → I m st₁ st₁'
  /-- When a slot is supplied in both walks, the variables handed in can be paired. -/
  supply : ∀ {m w w' found found' root root' made made' target target' n n' supplies supplies' e e'
      rest rest'},
    let st := supplying w found root made target n supplies (e :: rest)
    let st' := supplying w' found' root' made' target' n' supplies' (e' :: rest')
    let next := w.supply g root (g.node n) e
    let next' := w'.supply h root' (h.node n') e'
    S st → S' st' → I m st st' → Alike N R m st st' → ∃ m', m.Within m' ∧
      I m' (supplying next.2 found root made target n (supplies ++ [next.1]) rest)
        (supplying next'.2 found' root' made' target' n' (supplies' ++ [next'.1]) rest') ∧
      next.2.Stacked m' next'.2 ∧ m' next.1.var next'.1.var

variable {S S' : Stage → Prop} {I : Pairing → Stage → Stage → Prop}

/-- A step of one walk is answered by a step of the other one. -/
theorem Lockstep.step (lockstep : Lockstep g h N R S S' I) (inv : S st) (inv' : S' st')
    (tied : I m st st') (alike : Alike N R m st st') (step : Step g st st₁) :
    ∃ m' st₁', Step h st' st₁' ∧ m.Within m' ∧ I m' st₁ st₁' ∧ Alike N R m' st₁ st₁' := by
  have passing {next : Stage} (step' : Step h st' next) (nothing : st.ahead = [])
      (nothing' : st'.ahead = []) (alike₁ : Alike N R m st₁ next) :
      ∃ m' st₁', Step h st' st₁' ∧ m.Within m' ∧ I m' st₁ st₁' ∧ Alike N R m' st₁ st₁' :=
    ⟨m, next, step', fun _ _ => id,
      lockstep.passes inv inv' tied alike step step' nothing nothing', alike₁⟩
  cases step with
  | openBlock w found root pending next idle =>
    cases alike with
    | @between _ w' _ found' stacked blocks =>
      have targets := stacked.targets
      have waiting := stacked.pending
      rw [idle] at targets
      rw [next] at waiting
      obtain ⟨root', pending', roots, pending, next'⟩ := List.forall₂_cons_left_iff.mp waiting
      exact passing (.openBlock w' found' root' pending' next' (List.forall₂_nil_left_iff.mp targets))
        rfl rfl (.within ⟨.cons roots .nil, pending⟩ blocks roots .nil)
  | closeBlock w found root made idle =>
    cases alike with
    | @within _ w' _ found' _ root' _ made' stacked blocks roots instantiations =>
      have targets := stacked.targets
      rw [idle] at targets
      exact passing (.closeBlock w' found' root' made' (List.forall₂_nil_left_iff.mp targets))
        rfl rfl (.between stacked (.cons ⟨roots, instantiations, rfl⟩ blocks))
  | take w found root made target targets next =>
    cases alike with
    | @within _ w' _ found' _ root' _ made' stacked blocks roots instantiations =>
      have waiting := stacked.targets
      rw [next] at waiting
      obtain ⟨target', targets', pair, others, next'⟩ := List.forall₂_cons_left_iff.mp waiting
      have node : N (w.arena.var target).node (w'.arena.var target').node := lockstep.node tied pair
      exact passing (.take w' found' root' made' target' targets' next') rfl rfl
        (.supplying ⟨others, stacked.pending⟩ blocks roots instantiations pair node .nil
          (lockstep.edges node))
  | finish w found root made target n supplies =>
    cases alike with
    | @supplying _ w' _ found' _ root' _ made' _ target' _ n' _ supplies' _ _ stacked blocks roots
        instantiations pair _ supplied edges =>
      cases edges
      exact passing (.finish w' found' root' made' target' n' supplies') rfl rfl
        (.within stacked blocks roots (.cons ⟨pair, supplied⟩ instantiations))
  | supply w found root made target n supplies e rest =>
    cases alike with
    | @supplying _ w' _ found' _ root' _ made' _ target' _ n' _ supplies' _ _ stacked blocks roots
        instantiations pair nodes supplied edges =>
      cases edges with
      | @cons _ e' _ rest' edge others =>
        obtain ⟨m', more, tied', stacked', handed⟩ := lockstep.supply inv inv' tied
          (.supplying stacked blocks roots instantiations pair nodes supplied (.cons edge others))
        have handed := List.Forall₂.cons
          (Supply.Alike.mk (m := m') edge.slot edge.request handed) .nil
        exact ⟨m', _, .supply w' found' root' made' target' n' supplies' e' rest', more, tied',
          .supplying stacked' (more.blocks blocks) (more _ _ roots)
            (more.instantiations instantiations) (more _ _ pair) nodes
            (List.rel_append (more.supplies supplied) handed) others⟩

/-- So is a run, and the invariants hold at its end. -/
theorem Lockstep.steps (lockstep : Lockstep g h N R S S' I) (inv : S st) (inv' : S' st')
    (tied : I m st st') (alike : Alike N R m st st') (run : Run g st st₁) :
    ∃ m' st₁', Run h st' st₁' ∧ S st₁ ∧ S' st₁' ∧ I m' st₁ st₁' ∧ Alike N R m' st₁ st₁' := by
  induction run with
  | refl => exact ⟨m, st', .refl, inv, inv', tied, alike⟩
  | tail _ step ih =>
    obtain ⟨m₁, st₂, run', inv, inv', tied, alike⟩ := ih
    obtain ⟨m₂, st₃, step', -, tied, alike⟩ := lockstep.step inv inv' tied alike step
    exact ⟨m₂, st₃, run'.tail step', lockstep.keeps inv step, lockstep.keeps' inv' step', tied,
      alike⟩

/-- Walks that are alike when they start are alike when they are drained. -/
theorem Lockstep.run (lockstep : Lockstep g h N R S S' I) (inv : S st) (inv' : S' st')
    (tied : I m st st') (alike : Alike N R m st st') {w w' : Walk} {found found' : List Block}
    (run : Run g st (between w found)) (run' : Run h st' (between w' found'))
    (drained : w.pending = []) (drained' : w'.pending = []) :
    ∃ m', S (between w found) ∧ S' (between w' found') ∧
      I m' (between w found) (between w' found') ∧ List.Forall₂ (Block.Alike m') found found' := by
  obtain ⟨m', st₁', run₁, inv, inv', tied, alike⟩ := lockstep.steps inv inv' tied alike run
  cases alike with
  | @between _ w₁ _ found₁ stacked blocks =>
    have pending := stacked.pending
    rw [drained] at pending
    cases Run.unique run₁ run' (List.forall₂_nil_left_iff.mp pending) drained'
    exact ⟨m', inv, inv', tied, blocks⟩

end Stage

end ObjectGraph
