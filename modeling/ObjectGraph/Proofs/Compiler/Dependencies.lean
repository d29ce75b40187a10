import Mathlib.Data.List.Forall2
import Mathlib.Logic.Relation
import ObjectGraph.Compiler.Merge
import ObjectGraph.Proofs.Precedes

/-
  The search for the setups that a setup depends on.

  `DependencySearch.follow` is told how deep it may go.  `Follows` is the same search without a
  bound, so a derivation is a search that comes to its end.  There is one for every catalog, cyclic
  ones included, and `follow` computes what it ends with (`follow_follows`, `Follows.unique`): each
  level meets a name of the catalog for the first time, so there are no more levels than names.

  What a search is good for is said by two notions.  `Explores` is about the setups found: they are
  those that names lead to, each once, and a setup comes after one that it depends on unless that
  one leads back to it.  A name that was met before is the only doubtful case: it was found earlier, or
  its own search is still going on, and then it led here.  `Misses` is about the names that nothing
  carries: each is reported once.
-/

namespace ObjectGraph

namespace DependencySearch

/-! ## The search without a bound -/

/-- The search when one more name was met. -/
def meet (st : DependencySearch) (name : String) : DependencySearch :=
  { st with met := name :: st.met }

/-- The search when one more setup was found. -/
def find (st : DependencySearch) (d : Setup) : DependencySearch :=
  { st with found := st.found ++ [d] }

/-- The search when a setup turned out to depend on a name that nothing carries. -/
def miss (st : DependencySearch) (s : Setup) (name : String) : DependencySearch :=
  { st with faults := st.faults ++ [.unknownDependency s.name name s.location] }

variable {catalog : NameMap Setup} {own : String}

/-- The search for `names`, on which the setup `s` depends, leads from one state to another and
    finds the setups of the names `put`. -/
inductive Follows (catalog : NameMap Setup) :
    DependencySearch → Setup → (names put : List String) → DependencySearch → Prop where
  /-- Nothing is left to be followed. -/
  | done {st : DependencySearch} {s : Setup} : Follows catalog st s [] [] st
  /-- A name that was met before is passed over. -/
  | known {st st' : DependencySearch} {s : Setup} {name : String} {names put : List String}
      (met : name ∈ st.met) (rest : Follows catalog st s names put st') :
      Follows catalog st s (name :: names) put st'
  /-- So is a global setup. -/
  | global {st st' : DependencySearch} {s d : Setup} {name : String} {names put : List String}
      (new : name ∉ st.met) (held : catalog.get? name = some d) (global : d.isGlobal = true)
      (rest : Follows catalog (st.meet name) s names put st') :
      Follows catalog st s (name :: names) put st'
  /-- Any other setup is found after those that it depends on. -/
  | enter {st st₁ st₂ : DependencySearch} {s d : Setup} {name : String}
      {names put put' : List String} (new : name ∉ st.met) (held : catalog.get? name = some d)
      (composed : d.isGlobal = false)
      (inside : Follows catalog (st.meet name) d d.dependsOn put st₁)
      (rest : Follows catalog (st₁.find d) s names put' st₂) :
      Follows catalog st s (name :: names) (put ++ name :: put') st₂
  /-- A name that nothing carries is reported. -/
  | unknown {st st' : DependencySearch} {s : Setup} {name : String} {names put : List String}
      (new : name ∉ st.met) (missing : catalog.get? name = none)
      (rest : Follows catalog ((st.meet name).miss s name) s names put st') :
      Follows catalog st s (name :: names) put st'

variable {st st' st₁ st₂ : DependencySearch} {s d : Setup} {name : String}
  {names put put' : List String}

/-- The search has one outcome. -/
theorem Follows.unique (first : Follows catalog st s names put st')
    (second : Follows catalog st s names put' st₂) : put = put' ∧ st' = st₂ := by
  induction first generalizing put' st₂ with
  | done =>
    cases second
    exact ⟨rfl, rfl⟩
  | known met _ ih =>
    cases second with
    | known _ rest => exact ih rest
    | global new | enter new | unknown new => exact absurd met new
  | global new held global _ ih =>
    cases second with
    | known met => exact absurd met new
    | global _ _ _ rest => exact ih rest
    | enter _ held' composed =>
      cases held.symm.trans held'
      rw [global] at composed
      cases composed
    | unknown _ missing => rw [held] at missing; cases missing
  | enter new held composed _ _ ih ih' =>
    cases second with
    | known met => exact absurd met new
    | global _ held' global =>
      cases held.symm.trans held'
      rw [global] at composed
      cases composed
    | enter _ held' _ inside rest =>
      cases held.symm.trans held'
      obtain ⟨rfl, rfl⟩ := ih inside
      obtain ⟨rfl, rfl⟩ := ih' rest
      exact ⟨rfl, rfl⟩
    | unknown _ missing => rw [held] at missing; cases missing
  | unknown new missing _ ih =>
    cases second with
    | known met => exact absurd met new
    | global _ held | enter _ held => rw [missing] at held; cases held
    | unknown _ _ rest => exact ih rest

/-! ## It comes to an end -/

/-- The number of names of the catalog that were not met yet. -/
def unmet (catalog : NameMap Setup) (met : List String) : Nat :=
  catalog.entries.countP fun e => e.1 ∉ met

theorem unmet_le_size (catalog : NameMap Setup) (met : List String) :
    unmet catalog met ≤ catalog.size := List.countP_le_length

theorem unmet_mono {met met' : List String} (sub : met ⊆ met') :
    unmet catalog met' ≤ unmet catalog met :=
  List.countP_mono_left fun e _ out => by
    simp only [decide_eq_true_eq] at out ⊢
    exact fun mem => out (sub mem)

/-- Meeting a name of the catalog for the first time leaves fewer of them. -/
theorem unmet_cons_lt {met : List String} (new : name ∉ met) (held : catalog.get? name = some d) :
    unmet catalog (name :: met) < unmet catalog met := by
  obtain ⟨before, after, split, -⟩ := List.lookup_eq_some_iff.mp held
  have less (entries : List (String × Setup)) :
      entries.countP (fun e => e.1 ∉ name :: met) ≤ entries.countP fun e => e.1 ∉ met :=
    List.countP_mono_left fun e _ out => by
      simp only [decide_eq_true_eq, List.mem_cons, not_or] at out ⊢
      exact out.2
  have front := less before
  have back := less after
  unfold unmet
  rw [split, List.countP_append, List.countP_append, List.countP_cons_of_neg (by simp),
    List.countP_cons_of_pos (by simpa using new)]
  omega

/-- Names that were met stay met. -/
theorem Follows.met_subset (follows : Follows catalog st s names put st') : st.met ⊆ st'.met := by
  induction follows with
  | done => exact List.Subset.refl _
  | known _ _ ih => exact ih
  | global _ _ _ _ ih | unknown _ _ _ ih => exact List.Subset.trans (List.subset_cons_self _ _) ih
  | enter _ _ _ _ _ ih ih' =>
    exact List.Subset.trans (List.subset_cons_self _ _) (List.Subset.trans ih ih')

/-- What one name does to the search. -/
def turn (catalog : NameMap Setup) (depth : Nat) (s : Setup) (st : DependencySearch)
    (name : String) : DependencySearch :=
  if name ∈ st.met then st
  else match catalog.get? name with
    | some d =>
      if d.isGlobal then st.meet name else ((st.meet name).follow catalog depth d).find d
    | none => (st.meet name).miss s name

/-- The search takes one name of a setup after the other. -/
theorem follow_succ (depth : Nat) :
    st.follow catalog (depth + 1) s = s.dependsOn.foldl (turn catalog depth s) st := rfl

/-- With more levels than names left to meet, the bounded search is the unbounded one. -/
theorem follow_follows (depth : Nat) : ∀ (st : DependencySearch) (s : Setup),
    unmet catalog st.met < depth → ∃ put, Follows catalog st s s.dependsOn put
      (st.follow catalog depth s) := by
  induction depth with
  | zero => exact fun _ _ deep => absurd deep (Nat.not_lt_zero _)
  | succ depth inner =>
    intro st s deep
    rw [follow_succ]
    -- the names are followed one after the other, and none of them makes the others go deeper
    generalize s.dependsOn = names
    induction names generalizing st with
    | nil => exact ⟨[], .done⟩
    | cons name names ih =>
      have shallower (st₁ : DependencySearch) (sub : st.met ⊆ st₁.met) :
          unmet catalog st₁.met < depth + 1 := Nat.lt_of_le_of_lt (unmet_mono sub) deep
      have met_sub : st.met ⊆ name :: st.met := List.subset_cons_self _ _
      rw [List.foldl_cons]
      by_cases met : name ∈ st.met
      · have same : turn catalog depth s st name = st := by simp only [turn, if_pos met]
        obtain ⟨put, rest⟩ := ih st deep
        rw [same]
        exact ⟨put, .known met rest⟩
      · cases held : catalog.get? name with
        | none =>
          have missed : turn catalog depth s st name = (st.meet name).miss s name := by
            simp only [turn, if_neg met, held]
          obtain ⟨put, rest⟩ := ih ((st.meet name).miss s name) (shallower _ met_sub)
          rw [missed]
          exact ⟨put, .unknown met held rest⟩
        | some d =>
          cases global : d.isGlobal with
          | true =>
            have passed : turn catalog depth s st name = st.meet name := by
              simp only [turn, if_neg met, held, global, if_true]
            obtain ⟨put, rest⟩ := ih (st.meet name) (shallower _ met_sub)
            rw [passed]
            exact ⟨put, .global met held global rest⟩
          | false =>
            have entered : turn catalog depth s st name =
                ((st.meet name).follow catalog depth d).find d := by
              simp only [turn, if_neg met, held, global, Bool.false_eq_true, if_false]
            have less : unmet catalog (st.meet name).met < unmet catalog st.met :=
              unmet_cons_lt met held
            obtain ⟨put, inside⟩ := inner (st.meet name) d (by omega)
            obtain ⟨put', rest⟩ := ih (((st.meet name).follow catalog depth d).find d)
              (shallower _ (List.Subset.trans met_sub inside.met_subset))
            rw [entered]
            exact ⟨put ++ name :: put', .enter met held global inside rest⟩

/-! ## What it finds -/

/-- The catalog holds a setup of the name that is to be merged with the setup of the name `own`: one
    that is not global, and not that setup itself. -/
structure Inner (catalog : NameMap Setup) (own name : String) (d : Setup) : Prop where
  held : catalog.get? name = some d
  composed : d.isGlobal = false
  ne_own : name ≠ own

theorem Inner.unique {d' : Setup} (inner : Inner catalog own name d)
    (inner' : Inner catalog own name d') : d = d' :=
  Option.some.inj (inner.held.symm.trans inner'.held)

/-- The graph of dependencies: the setup of the name `u` depends on the one of the name `v`. -/
def Leads (catalog : NameMap Setup) (own u v : String) : Prop :=
  (∃ d, Inner catalog own u d ∧ v ∈ d.dependsOn) ∧ ∃ e, Inner catalog own v e

/-- What the search from `st` to `st'` found by following `names`. -/
structure Explores (catalog : NameMap Setup) (own : String) (st : DependencySearch)
    (names put : List String) (st' : DependencySearch) : Prop where
  subset : st.met ⊆ st'.met
  names_met : names ⊆ st'.met
  asked : ∀ x ∈ st'.met, x ∈ st.met ∨ x ∈ names ∨
    ∃ u ∈ put, ∃ d, Inner catalog own u d ∧ x ∈ d.dependsOn
  put_new : ∀ x ∈ put, x ∉ st.met ∧ x ∈ st'.met
  nodup : put.Nodup
  found : ∃ ds, st'.found = st.found ++ ds ∧ List.Forall₂ (Inner catalog own) put ds
  complete : ∀ x ∈ st'.met, x ∉ st.met → ∀ d, Inner catalog own x d → x ∈ put
  closed : ∀ u ∈ put, ∀ d, Inner catalog own u d → d.dependsOn ⊆ st'.met
  led : ∀ x ∈ put, ∃ n ∈ names, (∃ d, Inner catalog own n d) ∧
    Relation.ReflTransGen (Leads catalog own) n x
  ordered : ∀ u ∈ put, ∀ v, Leads catalog own u v →
    v ∈ st.met ∨ Precedes put v u ∨ Relation.ReflTransGen (Leads catalog own) v u

/-- Without names there is nothing to explore. -/
theorem Explores.done : Explores catalog own st [] [] st where
  subset := List.Subset.refl _
  names_met := nofun
  asked _ mem := .inl mem
  put_new := nofun
  nodup := .nil
  found := ⟨[], (List.append_nil _).symm, .nil⟩
  complete _ mem new := absurd mem new
  closed := nofun
  led := nofun
  ordered := nofun

/-- Passing over a name, whether it was met before or leads to no setup. -/
theorem Explores.pass (rest : Explores catalog own st₁ names put st') (sub : st.met ⊆ st₁.met)
    (met : name ∈ st₁.met)
    (only : ∀ x ∈ st₁.met, x ∈ st.met ∨ x = name ∧ ∀ d, ¬ Inner catalog own name d)
    (found : st₁.found = st.found) : Explores catalog own st (name :: names) put st' where
  subset := List.Subset.trans sub rest.subset
  names_met := List.cons_subset.mpr ⟨rest.subset met, rest.names_met⟩
  asked x mem := by
    rcases rest.asked x mem with mem | mem | led
    · exact (only x mem).imp_right fun ⟨eq, _⟩ => .inl (eq ▸ List.mem_cons_self)
    · exact .inr (.inl (List.mem_cons_of_mem name mem))
    · exact .inr (.inr led)
  put_new x mem := ⟨fun before => (rest.put_new x mem).1 (sub before), (rest.put_new x mem).2⟩
  nodup := rest.nodup
  found := found ▸ rest.found
  complete x mem new d inner := by
    refine rest.complete x mem (fun before => ?_) d inner
    rcases only x before with before | ⟨rfl, none⟩
    · exact new before
    · exact none d inner
  closed := rest.closed
  led x mem := by
    obtain ⟨n, start, inner_n, path⟩ := rest.led x mem
    exact ⟨n, List.mem_cons_of_mem name start, inner_n, path⟩
  ordered u mem v leads := by
    rcases rest.ordered u mem v leads with before | first | back
    · rcases only v before with before | ⟨rfl, none⟩
      · exact .inl before
      · obtain ⟨e, inner⟩ := leads.2
        exact absurd inner (none e)
    · exact .inr (.inl first)
    · exact .inr (.inr back)

/-- Whatever is found while a setup is entered is reached from it. -/
theorem Explores.reached (inner : Inner catalog own name d)
    (inside : Explores catalog own st d.dependsOn put st') {x : String} (mem : x ∈ put) :
    Relation.ReflTransGen (Leads catalog own) name x := by
  obtain ⟨n, start, target, path⟩ := inside.led x mem
  exact .head ⟨⟨d, inner, start⟩, target⟩ path

/-- A name that leads to a setup and is met by then was met before, is that of the setup itself, or
    was found. -/
theorem Explores.known (inside : Explores catalog own (st.meet name) names put st') {x : String}
    (mem : x ∈ st'.met) (target : ∃ e, Inner catalog own x e) :
    x ∈ st.met ∨ x = name ∨ x ∈ put := by
  obtain ⟨e, inner⟩ := target
  by_cases before : x ∈ name :: st.met
  · exact (List.mem_cons.mp before).elim (fun eq => .inr (.inl eq)) .inl
  · exact .inr (.inr (inside.complete x mem before e inner))

theorem mem_entered {x : String} : x ∈ put ++ name :: put' ↔ x ∈ put ∨ x = name ∨ x ∈ put' := by
  rw [List.mem_append, List.mem_cons]

/-- Finding a setup after all that it depends on. -/
theorem Explores.enter (new : name ∉ st.met) (inner : Inner catalog own name d)
    (inside : Explores catalog own (st.meet name) d.dependsOn put st₁)
    (rest : Explores catalog own (st₁.find d) names put' st₂) :
    Explores catalog own st (name :: names) (put ++ name :: put') st₂ := by
  have met : name ∈ st₁.met := inside.subset List.mem_cons_self
  have sub : st.met ⊆ st₁.met := List.Subset.trans (List.subset_cons_self _ _) inside.subset
  exact {
    subset := List.Subset.trans sub rest.subset
    names_met := List.cons_subset.mpr ⟨rest.subset met, rest.names_met⟩
    asked := by
      intro x mem
      rcases rest.asked x mem with mem | mem | ⟨u, mem, asks⟩
      · rcases inside.asked x mem with mem | mem | ⟨u, mem, asks⟩
        · exact (List.mem_cons.mp mem).elim
            (fun eq => .inr (.inl (eq ▸ List.mem_cons_self))) .inl
        · exact .inr (.inr ⟨name, mem_entered.mpr (.inr (.inl rfl)), d, inner, mem⟩)
        · exact .inr (.inr ⟨u, mem_entered.mpr (.inl mem), asks⟩)
      · exact .inr (.inl (List.mem_cons_of_mem name mem))
      · exact .inr (.inr ⟨u, mem_entered.mpr (.inr (.inr mem)), asks⟩)
    put_new := by
      intro x mem
      rcases mem_entered.mp mem with mem | rfl | mem
      · obtain ⟨out, later⟩ := inside.put_new x mem
        exact ⟨fun before => out (List.mem_cons_of_mem name before), rest.subset later⟩
      · exact ⟨new, rest.subset met⟩
      · obtain ⟨out, later⟩ := rest.put_new x mem
        exact ⟨fun before => out (sub before), later⟩
    nodup := by
      refine List.nodup_append.mpr ⟨inside.nodup, List.nodup_cons.mpr ⟨?_, rest.nodup⟩, ?_⟩
      · exact fun mem => (rest.put_new name mem).1 met
      · rintro x mem y mem' rfl
        rcases List.mem_cons.mp mem' with rfl | mem'
        · exact (inside.put_new x mem).1 List.mem_cons_self
        · exact (rest.put_new x mem').1 (inside.put_new x mem).2
    found := by
      obtain ⟨ds, eq, all⟩ := inside.found
      obtain ⟨ds', eq', all'⟩ := rest.found
      refine ⟨ds ++ d :: ds', ?_, List.rel_append all (.cons inner all')⟩
      rw [eq', find, eq, meet]
      simp only [List.append_assoc, List.singleton_append]
    complete := by
      intro x mem before e target
      rw [mem_entered]
      by_cases early : x ∈ st₁.met
      · rcases inside.known early ⟨e, target⟩ with mem | eq | mem
        · exact absurd mem before
        · exact .inr (.inl eq)
        · exact .inl mem
      · exact .inr (.inr (rest.complete x mem early e target))
    closed := by
      intro u mem e target
      rcases mem_entered.mp mem with mem | rfl | mem
      · exact List.Subset.trans (inside.closed u mem e target) rest.subset
      · cases inner.unique target
        exact List.Subset.trans inside.names_met rest.subset
      · exact rest.closed u mem e target
    led := by
      intro x mem
      rcases mem_entered.mp mem with mem | rfl | mem
      · exact ⟨name, List.mem_cons_self, ⟨d, inner⟩, inside.reached inner mem⟩
      · exact ⟨x, List.mem_cons_self, ⟨d, inner⟩, .refl⟩
      · obtain ⟨n, start, target, path⟩ := rest.led x mem
        exact ⟨n, List.mem_cons_of_mem name start, target, path⟩
    ordered := by
      intro u mem v leads
      rw [Precedes.append_iff, Precedes.cons_iff]
      rcases mem_entered.mp mem with mem | rfl | mem
      · -- an edge back to the setup itself closes a circle
        rcases inside.ordered u mem v leads with before | first | back
        · exact (List.mem_cons.mp before).elim
            (fun eq => .inr (.inr (eq ▸ inside.reached inner mem))) .inl
        · exact .inr (.inl (.inl first))
        · exact .inr (.inr back)
      · obtain ⟨e, target, asks⟩ := leads.1
        cases inner.unique target
        rcases inside.known (inside.names_met asks) leads.2 with before | rfl | mem
        · exact .inl before
        · exact .inr (.inr .refl)
        · exact .inr (.inl (.inr (.inl ⟨mem, List.mem_cons_self⟩)))
      · rcases rest.ordered u mem v leads with before | first | back
        · rcases inside.known before leads.2 with before | eq | mem'
          · exact .inl before
          · exact .inr (.inl (.inr (.inr (.inl ⟨eq, mem⟩))))
          · exact .inr (.inl (.inr (.inl ⟨mem', List.mem_cons_of_mem name mem⟩)))
        · exact .inr (.inl (.inr (.inr (.inr first))))
        · exact .inr (.inr back) }

/-- A search explores what it follows. -/
theorem Follows.explores (follows : Follows catalog st s names put st') (started : own ∈ st.met) :
    Explores catalog own st names put st' := by
  induction follows with
  | done => exact .done
  | known met _ ih =>
    exact (ih started).pass (List.Subset.refl _) met (fun _ mem => .inl mem) rfl
  | global new held global _ ih =>
    refine (ih (List.mem_cons_of_mem _ started)).pass (List.subset_cons_self _ _)
      List.mem_cons_self (fun x mem => ?_) rfl
    refine (List.mem_cons.mp mem).symm.imp_right fun eq => ⟨eq, fun d inner => ?_⟩
    cases held.symm.trans inner.held
    rw [inner.composed] at global
    cases global
  | enter new held composed inside rest ih ih' =>
    have inner := ih (List.mem_cons_of_mem _ started)
    refine .enter new ⟨held, composed, fun eq => new (eq ▸ started)⟩ inner (ih' ?_)
    exact inner.subset (List.mem_cons_of_mem _ started)
  | unknown new missing _ ih =>
    refine (ih (List.mem_cons_of_mem _ started)).pass (List.subset_cons_self _ _)
      List.mem_cons_self (fun x mem => ?_) rfl
    refine (List.mem_cons.mp mem).symm.imp_right fun eq => ⟨eq, fun d inner => ?_⟩
    rw [inner.held] at missing
    cases missing

/-! ## What it reports -/

/-- What the search from `st` to `st'` reported: the names of `missing`, each with the setup that
    asked for it. -/
structure Misses (catalog : NameMap Setup) (own : String) (st : DependencySearch) (s : Setup)
    (names put : List String) (missing : List (Setup × String)) (st' : DependencySearch) :
    Prop where
  faults : st'.faults =
    st.faults ++ missing.map fun e => .unknownDependency e.1.name e.2 e.1.location
  nodup : (missing.map Prod.snd).Nodup
  absent : ∀ e ∈ missing, e.2 ∉ st.met ∧ e.2 ∈ st'.met ∧ catalog.get? e.2 = none
  asked : ∀ e ∈ missing, e.1 = s ∧ e.2 ∈ names ∨
    ∃ u ∈ put, Inner catalog own u e.1 ∧ e.2 ∈ e.1.dependsOn
  complete : ∀ x ∈ st'.met, x ∉ st.met → catalog.get? x = none → x ∈ missing.map Prod.snd

variable {missing missing' : List (Setup × String)}

theorem Misses.done : Misses catalog own st s [] [] [] st where
  faults := (List.append_nil _).symm
  nodup := .nil
  absent := nofun
  asked := nofun
  complete _ mem new := absurd mem new

/-- A name that was met before or that the catalog holds is not reported. -/
theorem Misses.pass (rest : Misses catalog own st₁ s names put missing st')
    (sub : st.met ⊆ st₁.met) (only : ∀ x ∈ st₁.met, x ∈ st.met ∨ catalog.get? x ≠ none)
    (faults : st₁.faults = st.faults) :
    Misses catalog own st s (name :: names) put missing st' where
  faults := faults ▸ rest.faults
  nodup := rest.nodup
  absent e mem := by
    obtain ⟨new, met, none⟩ := rest.absent e mem
    exact ⟨fun before => new (sub before), met, none⟩
  asked e mem := (rest.asked e mem).imp_left fun ⟨eq, mem⟩ => ⟨eq, List.mem_cons_of_mem name mem⟩
  complete x mem new none := by
    refine rest.complete x mem (fun before => ?_) none
    exact (only x before).elim new fun held => held none

/-- A new name that the catalog does not hold is missed. -/
theorem Misses.unknown
    (rest : Misses catalog own ((st.meet name).miss s name) s names put missing st')
    (sub : name :: st.met ⊆ st'.met) (new : name ∉ st.met) (none : catalog.get? name = none) :
    Misses catalog own st s (name :: names) put ((s, name) :: missing) st' where
  faults := by
    rw [rest.faults, miss, meet, List.map_cons]
    simp only [List.append_assoc, List.singleton_append]
  nodup := by
    refine List.nodup_cons.mpr ⟨fun mem => ?_, rest.nodup⟩
    obtain ⟨e, mem, eq⟩ := List.mem_map.mp mem
    exact (rest.absent e mem).1 (List.mem_cons.mpr (.inl eq))
  absent e mem := by
    rcases List.mem_cons.mp mem with rfl | mem
    · exact ⟨new, sub List.mem_cons_self, none⟩
    · obtain ⟨new', met, none'⟩ := rest.absent e mem
      exact ⟨fun before => new' (List.mem_cons_of_mem name before), met, none'⟩
  asked e mem := by
    rcases List.mem_cons.mp mem with rfl | mem
    · exact .inl ⟨rfl, List.mem_cons_self⟩
    · exact (rest.asked e mem).imp_left fun ⟨eq, mem⟩ => ⟨eq, List.mem_cons_of_mem name mem⟩
  complete x mem new' none' := by
    rw [List.map_cons, List.mem_cons]
    by_cases eq : x = name
    · exact .inl eq
    · exact .inr (rest.complete x mem (fun before => (List.mem_cons.mp before).elim eq new') none')

/-- What is missed inside a setup that is entered comes before what is missed behind it. -/
theorem Misses.enter (inner : Inner catalog own name d) (sub : name :: st.met ⊆ st₁.met)
    (sub' : st₁.met ⊆ st₂.met)
    (inside : Misses catalog own (st.meet name) d d.dependsOn put missing st₁)
    (rest : Misses catalog own (st₁.find d) s names put' missing' st₂) :
    Misses catalog own st s (name :: names) (put ++ name :: put') (missing ++ missing') st₂ where
  faults := by
    rw [rest.faults, find, inside.faults, meet, List.map_append, List.append_assoc]
  nodup := by
    rw [List.map_append, List.nodup_append]
    refine ⟨inside.nodup, rest.nodup, ?_⟩
    intro x early y late eq
    obtain ⟨e, mem, rfl⟩ := List.mem_map.mp early
    obtain ⟨e', mem', rfl⟩ := List.mem_map.mp late
    exact (rest.absent e' mem').1 (eq ▸ (inside.absent e mem).2.1)
  absent e mem := by
    rcases List.mem_append.mp mem with mem | mem
    · obtain ⟨new, met, none⟩ := inside.absent e mem
      exact ⟨fun before => new (List.mem_cons_of_mem name before), sub' met, none⟩
    · obtain ⟨new, met, none⟩ := rest.absent e mem
      exact ⟨fun before => new (sub (List.mem_cons_of_mem name before)), met, none⟩
  asked e mem := by
    rcases List.mem_append.mp mem with mem | mem
    · rcases inside.asked e mem with ⟨eq, mem⟩ | ⟨u, mem, asks⟩
      · exact .inr ⟨name, mem_entered.mpr (.inr (.inl rfl)), eq ▸ inner, eq ▸ mem⟩
      · exact .inr ⟨u, mem_entered.mpr (.inl mem), asks⟩
    · rcases rest.asked e mem with ⟨eq, mem⟩ | ⟨u, mem, asks⟩
      · exact .inl ⟨eq, List.mem_cons_of_mem name mem⟩
      · exact .inr ⟨u, mem_entered.mpr (.inr (.inr mem)), asks⟩
  complete x mem new none := by
    rw [List.map_append, List.mem_append]
    by_cases early : x ∈ st₁.met
    · refine .inl (inside.complete x early (fun before => ?_) none)
      rcases List.mem_cons.mp before with rfl | before
      · rw [inner.held] at none
        cases none
      · exact new before
    · exact .inr (rest.complete x mem early none)

theorem Follows.misses (follows : Follows catalog st s names put st') (started : own ∈ st.met) :
    ∃ missing, Misses catalog own st s names put missing st' := by
  induction follows with
  | done => exact ⟨[], .done⟩
  | known _ _ ih =>
    obtain ⟨missing, rest⟩ := ih started
    exact ⟨missing, rest.pass (List.Subset.refl _) (fun _ mem => .inl mem) rfl⟩
  | global _ held _ _ ih =>
    obtain ⟨missing, rest⟩ := ih (List.mem_cons_of_mem _ started)
    refine ⟨missing, rest.pass (List.subset_cons_self _ _) (fun x mem => ?_) rfl⟩
    refine (List.mem_cons.mp mem).symm.imp_right fun eq => ?_
    rw [eq, held]
    exact Option.some_ne_none _
  | enter new held composed inside after ih ih' =>
    obtain ⟨missing, inner⟩ := ih (List.mem_cons_of_mem _ started)
    obtain ⟨missing', rest⟩ := ih' (inside.met_subset (List.mem_cons_of_mem _ started))
    exact ⟨missing ++ missing', .enter ⟨held, composed, fun eq => new (eq ▸ started)⟩
      inside.met_subset after.met_subset inner rest⟩
  | unknown new none after ih =>
    obtain ⟨missing, rest⟩ := ih (List.mem_cons_of_mem _ started)
    exact ⟨_, rest.unknown after.met_subset new none⟩

end DependencySearch

end ObjectGraph
