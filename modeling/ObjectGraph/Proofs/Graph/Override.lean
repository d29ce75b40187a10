import ObjectGraph.Proofs.Graph.Precedence
import ObjectGraph.Proofs.Graph.Ranking
import ObjectGraph.Proofs.Precedes
import ObjectGraph.Proofs.Sample

/-
  Which bindings are reported as overridden.

  Of two bindings of one type the later one takes over the requests whose tag fits both equally well
  (`TakesOver.id_ne`).  What registration reports are the bindings that are declared again with the
  same tags, in whatever order (`mem_diagnostics_iff`).  Neither includes the other: lists of tags can
  have a tag in common without being the same, and a binding of the last resort takes nothing over
  from one that is none (`diagnostics_exact`).
-/

namespace ObjectGraph

/-! ## The order of tags -/

namespace Tag

/-- The place of a tag among the untagged, the named and the wildcard. -/
def rank : Tag → Nat
  | untagged => 0
  | named _ => 1
  | any => 2

/-- The name of a tag that has one. -/
def name : Tag → String
  | named name => name
  | untagged | any => ""

theorem cmp_eq : cmp = compareLex (compareOn rank) (compareOn name) := by
  funext a b
  cases a <;> cases b <;> rfl

instance : Std.TransOrd Tag := by
  show Std.TransCmp cmp
  rw [cmp_eq]
  infer_instance

theorem eq_of_compare : ∀ {a b : Tag}, compare a b = .eq → a = b
  | untagged, untagged, _ | any, any, _ => rfl
  | named _, named _, same => congrArg named (Std.LawfulEqOrd.eq_of_compare same)

end Tag

namespace BindingTable

variable {s : Setup} {ts : TypeOracle} {t : BindingTable} {b b' earlier later : Binding}
  {l : List Binding} {d : Diagnostic}

/-- Bindings have one signature if they bind one type under the same tags, in whatever order. -/
theorem signature_eq_iff :
    signature b = signature b' ↔ b.contract = b'.contract ∧ b.tags.Perm b'.tags := by
  rw [signature, signature, Prod.mk.injEq]
  refine and_congr_right fun _ => ?_
  simp only [ne_gt_eq_isLE]
  constructor
  · intro same
    have sorted := List.mergeSort_perm b.tags fun x y => (compare x y).isLE
    rw [same] at sorted
    exact sorted.symm.trans (List.mergeSort_perm _ _)
  · intro perm
    have sorted (tags : List Tag) : (tags.mergeSort fun x y => (compare x y).isLE).Pairwise
        fun x y => (compare x y).isLE = true := by
      refine List.pairwise_mergeSort (fun _ _ _ => Std.TransCmp.isLE_trans) (fun x y => ?_) tags
      rw [Std.OrientedOrd.eq_swap (a := y)]
      cases compare x y <;> rfl
    refine List.Perm.eq_of_pairwise (fun x y _ _ le ge => ?_) (sorted b.tags) (sorted b'.tags)
      ((List.mergeSort_perm _ _).trans (perm.trans (List.mergeSort_perm _ _).symm))
    exact Tag.eq_of_compare (Std.OrientedCmp.isLE_antisymm le ge)

/-! ## Successions -/

/-- What succeeds a binding stands behind it. -/
theorem of_mem_successions (mem : (b, b') ∈ successions l) :
    Precedes l b b' ∧ signature b' = signature b := by
  induction l with
  | nil => cases mem
  | cons first rest ih =>
    rw [Precedes.cons_iff]
    rcases List.mem_append.mp mem with mem | mem
    · obtain ⟨next, found, eq⟩ := List.mem_map.mp mem
      cases eq
      have found := Option.mem_toList.mp found
      have same := List.find?_some found
      exact ⟨.inl ⟨rfl, List.mem_of_find?_eq_some found⟩, of_decide_eq_true same⟩
    · exact (ih mem).imp_left .inr

/-- A binding is succeeded if one of its signature stands behind it. -/
theorem exists_mem_successions (behind : Precedes l b b') (same : signature b' = signature b) :
    ∃ next, (b, next) ∈ successions l := by
  induction l with
  | nil => cases behind
  | cons first rest ih =>
    rcases Precedes.cons_iff.mp behind with ⟨rfl, mem⟩ | behind
    · obtain ⟨next, found⟩ : ∃ next, rest.find? (fun next => signature next = signature b) =
          some next := by
        rw [← Option.isSome_iff_exists, List.find?_isSome]
        exact ⟨b', mem, decide_eq_true same⟩
      refine ⟨next, List.mem_append_left _ (List.mem_map.mpr ⟨next, ?_, rfl⟩)⟩
      exact Option.mem_toList.mpr found
    · obtain ⟨next, mem⟩ := ih behind
      exact ⟨next, List.mem_append_right _ mem⟩

/-- The order of the declared bindings is that of their numbers. -/
theorem Numbered.precedes_filter_iff (numbered : t.Numbered) {p : Binding → Bool} :
    Precedes (t.declared.filter p) b b' ↔
      b ∈ t.declared.filter p ∧ b' ∈ t.declared.filter p ∧ b.id < b'.id := by
  have ascending : (t.declared.filter p).Pairwise fun b b' => b.id < b'.id := by
    refine List.Pairwise.filter p (List.pairwise_iff_getElem.mpr fun i j lt lt' less => ?_)
    rwa [numbered i _ (List.getElem?_eq_getElem lt), numbered j _ (List.getElem?_eq_getElem lt')]
  have less {b b' : Binding} (first : Precedes (t.declared.filter p) b b') : b.id < b'.id := by
    have pair := ascending.sublist first
    rwa [List.pairwise_pair] at pair
  refine ⟨fun first => ⟨first.left_mem, first.right_mem, less first⟩, fun ⟨mem, mem', lt⟩ => ?_⟩
  have ne : b ≠ b' := fun eq => Nat.lt_irrefl _ (eq ▸ lt)
  exact (Precedes.total ne mem mem').resolve_right fun first => Nat.lt_asymm lt (less first)

/-! ## Bindings of one type -/

/-- Two declared bindings of one type without markers, the second one behind the first. -/
structure Rebinds (t : BindingTable) (ts : TypeOracle) (earlier later : Binding) : Prop where
  declared : earlier ∈ t.declared
  declared' : later ∈ t.declared
  behind : earlier.id < later.id
  contract : later.contract = earlier.contract
  closed : ts.isOpen earlier.contract = false

/-- The later binding has the same tags as the earlier one. -/
structure Repeats (t : BindingTable) (ts : TypeOracle) (earlier later : Binding) : Prop extends
    Rebinds t ts earlier later where
  tags : later.tags.Perm earlier.tags

/-- The later binding, one of another declaration, is preferred for a tag that the earlier one
    answers as well as it can. -/
structure TakesOver (t : BindingTable) (ts : TypeOracle) (earlier later : Binding) : Prop extends
    Rebinds t ts earlier later where
  apart : later.source ≠ earlier.source
  regular : earlier.recipe.isLastResort = false ∧ later.recipe.isLastResort = false
  shared : ∃ tag, earlier.rank? tag = some 0 ∧ later.rank? tag = some 0

theorem rank?_eq_zero_iff {tag : Tag} :
    b.rank? tag = some 0 ↔ tag ∈ b.tags ∨ tag = .untagged ∧ b.tags = [] := by
  have fits : (b.tags.contains tag || (Binding.isUntagged b.tags && tag == .untagged)) = true ↔
      tag ∈ b.tags ∨ tag = .untagged ∧ b.tags = [] := by
    simp only [Binding.isUntagged, Bool.or_eq_true, Bool.and_eq_true, List.contains_iff_mem,
      List.isEmpty_iff, beq_iff_eq]
    grind
  rw [Binding.rank?, Binding.tagRank?]
  split
  · rename_i holds
    exact iff_of_true rfl (fits.mp holds)
  · rename_i fails
    refine iff_of_false ?_ (mt fits.mpr fails)
    split_ifs <;> simp

/-- The earlier binding is not the answer to requests that it shares with the later one. -/
theorem TakesOver.supplanted (takes : t.TakesOver ts earlier later) :
    ∃ tag, earlier.rank? tag = some 0 ∧
      ∀ m, t.bestMatch? ts false ⟨earlier.contract, tag⟩ = some m → m.id ≠ earlier.id := by
  obtain ⟨tag, fits, fits'⟩ := takes.shared
  refine ⟨tag, fits, fun m best same => ?_⟩
  let n : Match := ⟨0, ts.isOpen earlier.contract, later.id, ∅⟩
  have candidate : n ∈ t.candidates ts false ⟨earlier.contract, tag⟩ := by
    refine mem_candidates.mpr ⟨later, takes.declared', takes.regular.2, ?_⟩
    rw [Match.of?, fits', takes.contract, TypeOracle.matchContract, if_pos rfl]
    rfl
  have closed : n.isGeneric = false := takes.closed
  have behind := takes.behind
  rcases Match.isLE_cmp_iff.mp (Match.isLE_of_best? best n candidate) with
    less | ⟨-, ⟨-, generic⟩ | ⟨-, le⟩⟩
  · exact Nat.not_lt_zero _ less
  · rw [closed] at generic
    cases generic
  · rw [same] at le
    exact Nat.not_le.mpr behind le

/-- Two bindings of one type come from different declarations, since none binds a type twice. -/
theorem Rebinds.source_ne (rebinds : (register s).Rebinds ts earlier later) :
    later.source ≠ earlier.source := by
  obtain ⟨j, k, occupies⟩ := Binding.exists_occupies rebinds.declared
  obtain ⟨j', k', occupies'⟩ := Binding.exists_occupies rebinds.declared'
  intro same
  rw [occupies.source, occupies'.source] at same
  obtain rfl := Binding.Source.declared.inj same
  obtain ⟨d, at_j, -, at_k⟩ := occupies.declared
  obtain ⟨d', at_j', -, at_k'⟩ := occupies'.declared
  cases at_j.symm.trans at_j'
  rw [rebinds.contract, ← at_k] at at_k'
  obtain rfl := (List.getElem?_inj (List.getElem?_eq_some_iff.mp at_k).1 (nodup_contractsOf d)).mp
    at_k'.symm
  exact Nat.ne_of_lt rebinds.behind (occupies.id.trans occupies'.id.symm)

/-- Bindings with the same tags answer a tag equally well. -/
theorem Repeats.shared (repeats : t.Repeats ts earlier later) :
    ∃ tag, earlier.rank? tag = some 0 ∧ later.rank? tag = some 0 := by
  simp only [rank?_eq_zero_iff, repeats.tags.mem_iff]
  cases tags : earlier.tags with
  | nil => exact ⟨.untagged, .inr ⟨rfl, rfl⟩, .inr ⟨rfl, (tags ▸ repeats.tags).eq_nil⟩⟩
  | cons tag rest => exact ⟨tag, .inl List.mem_cons_self, .inl List.mem_cons_self⟩

theorem Repeats.takesOver (repeats : (register s).Repeats ts earlier later)
    (regular : earlier.recipe.isLastResort = false ∧ later.recipe.isLastResort = false) :
    (register s).TakesOver ts earlier later :=
  ⟨repeats.toRebinds, repeats.source_ne, regular, repeats.shared⟩

/-! ## What is reported -/

theorem mem_overrides_iff : (b, b') ∈ t.overrides ts ↔
    (b, b') ∈ successions (t.declared.filter fun b => !ts.isOpen b.contract) ∧
      b.source ≠ b'.source := by
  rw [overrides, List.mem_mergeSort, List.mem_filter, decide_eq_true_iff]

theorem mem_closed_iff : b ∈ t.declared.filter (fun b => !ts.isOpen b.contract) ↔
    b ∈ t.declared ∧ ts.isOpen b.contract = false := by
  rw [List.mem_filter, Bool.not_eq_true']

/-- A warning is given for each binding that is declared again with the same tags. -/
theorem mem_diagnostics_iff : d ∈ (register s).diagnostics ts ↔
    ∃ earlier later, (register s).Repeats ts earlier later ∧ d = overrideWarning earlier := by
  rw [diagnostics, List.mem_map]
  constructor
  · rintro ⟨⟨earlier, later⟩, mem, rfl⟩
    obtain ⟨behind, same⟩ := of_mem_successions (mem_overrides_iff.mp mem).1
    obtain ⟨contract, tags⟩ := signature_eq_iff.mp same
    obtain ⟨there, there', lt⟩ := (numbered_register s).precedes_filter_iff.mp behind
    obtain ⟨declared, closed⟩ := mem_closed_iff.mp there
    exact ⟨earlier, later,
      ⟨⟨declared, (mem_closed_iff.mp there').1, lt, contract, closed⟩, tags⟩, rfl⟩
  · rintro ⟨earlier, later, repeats, rfl⟩
    have there := mem_closed_iff.mpr ⟨repeats.declared, repeats.closed⟩
    have there' := mem_closed_iff.mpr ⟨repeats.declared', repeats.contract ▸ repeats.closed⟩
    obtain ⟨next, mem⟩ := exists_mem_successions
      ((numbered_register s).precedes_filter_iff.mpr ⟨there, there', repeats.behind⟩)
      (signature_eq_iff.mpr ⟨repeats.contract, repeats.tags⟩)
    -- the next one of the same tags need not be the given one
    obtain ⟨behind, same⟩ := of_mem_successions mem
    obtain ⟨-, mem_next, lt⟩ := (numbered_register s).precedes_filter_iff.mp behind
    have rebinds : (register s).Rebinds ts earlier next :=
      ⟨repeats.declared, (mem_closed_iff.mp mem_next).1, lt, (signature_eq_iff.mp same).1,
        repeats.closed⟩
    exact ⟨(earlier, next), mem_overrides_iff.mpr ⟨mem, rebinds.source_ne.symm⟩, rfl⟩

/-- Wherever a binding loses requests to a later one, a warning is given. -/
def ReportsTakeovers (t : BindingTable) (ts : TypeOracle) : Prop :=
  ∀ earlier later, t.TakesOver ts earlier later → ∃ d ∈ t.diagnostics ts,
    d.code = .overriddenBinding ∧ d.location = some earlier.location

/-- Wherever a warning is given, a binding loses requests to a later one. -/
def ReportsOnlyTakeovers (t : BindingTable) (ts : TypeOracle) : Prop :=
  ∀ d ∈ t.diagnostics ts, d.code = .overriddenBinding → ∃ earlier later,
    t.TakesOver ts earlier later ∧ d.location = some earlier.location

/-- A warning is given for each binding that is declared again with the same tags.  So a takeover is
    not reported if the tags are others and nothing at that place is declared again; and what is
    reported without a takeover are bindings of the last resort, or those that one of them repeats. -/
theorem diagnostics_exact (s : Setup) (ts : TypeOracle) :
    (∀ d, d ∈ (register s).diagnostics ts ↔
      ∃ earlier later, (register s).Repeats ts earlier later ∧ d = overrideWarning earlier) ∧
    ((register s).ReportsTakeovers ts ↔ ∀ earlier later,
      (register s).TakesOver ts earlier later → ¬ later.tags.Perm earlier.tags →
        ∃ b b', (register s).Repeats ts b b' ∧ b.location = earlier.location) ∧
    ((register s).ReportsOnlyTakeovers ts ↔ ∀ earlier later,
      (register s).Repeats ts earlier later →
        earlier.recipe.isLastResort = true ∨ later.recipe.isLastResort = true →
        ∃ b b', (register s).TakesOver ts b b' ∧ b.location = earlier.location) := by
  refine ⟨fun d => mem_diagnostics_iff, ⟨fun reports earlier later takes _ => ?_,
    fun others earlier later takes => ?_⟩, ⟨fun reports earlier later repeats _ => ?_,
    fun lastResort d mem _ => ?_⟩⟩
  · obtain ⟨d, mem, -, location⟩ := reports earlier later takes
    obtain ⟨b, b', repeats, rfl⟩ := mem_diagnostics_iff.mp mem
    exact ⟨b, b', repeats, Option.some.inj location⟩
  · by_cases tags : later.tags.Perm earlier.tags
    · exact ⟨_, mem_diagnostics_iff.mpr ⟨earlier, later, ⟨takes.toRebinds, tags⟩, rfl⟩, rfl, rfl⟩
    · obtain ⟨b, b', repeats, location⟩ := others earlier later takes tags
      exact ⟨_, mem_diagnostics_iff.mpr ⟨b, b', repeats, rfl⟩, rfl, congrArg some location⟩
  · obtain ⟨b, b', takes, location⟩ :=
      reports _ (mem_diagnostics_iff.mpr ⟨earlier, later, repeats, rfl⟩) rfl
    exact ⟨b, b', takes, (Option.some.inj location).symm⟩
  · obtain ⟨earlier, later, repeats, rfl⟩ := mem_diagnostics_iff.mp mem
    by_cases regular : earlier.recipe.isLastResort = false ∧ later.recipe.isLastResort = false
    · exact ⟨earlier, later, repeats.takesOver regular, rfl⟩
    · rw [Classical.not_and_iff_not_or_not, Bool.not_eq_false, Bool.not_eq_false] at regular
      obtain ⟨b, b', takes, location⟩ := lastResort earlier later repeats regular
      exact ⟨b, b', takes, congrArg some location.symm⟩

end BindingTable

namespace Sample

/-- A class that is bound to its type twice: without tags and as explicitly untagged. -/
def retagged : Setup :=
  setup [service "A" [] .transient, { service "A" [] .transient with tags := [.untagged] }] []

/-- A class and a last resort for its type. -/
def resorted : Setup :=
  setup [service "X" [] .transient,
    { contracts := [.plain "X"], recipe := .builtin .onCannotResolve }] []

end Sample

namespace BindingTable

open Sample

/-- No tags and the tag `untagged` mean the same but are not the same list; and a last resort does not
    take anything over from a class. -/
theorem takeovers_not_always_reported :
    (¬ ∀ (s : Setup) (ts : TypeOracle), (register s).ReportsTakeovers ts) ∧
      ¬ ∀ (s : Setup) (ts : TypeOracle), (register s).ReportsOnlyTakeovers ts := by
  constructor
  · intro all
    have takes : (register retagged).TakesOver .standard
        ((register retagged).declared.headD default)
        ((register retagged).declared.getLastD default) :=
      ⟨⟨by decide, by decide, by decide, by decide, by decide⟩, by decide, by decide,
        .untagged, by decide⟩
    obtain ⟨d, mem, -⟩ := all retagged .standard _ _ takes
    have none : (register retagged).diagnostics .standard = [] := by decide +kernel
    rw [none] at mem
    cases mem
  · intro all
    have warned : (register resorted).diagnostics .standard =
        [overrideWarning ((register resorted).declared.headD default)] := by decide +kernel
    obtain ⟨earlier, later, takes, -⟩ :=
      all resorted .standard _ (warned ▸ List.mem_singleton_self _) rfl
    have lastResort : ∀ b ∈ (register resorted).declared, ∀ b' ∈ (register resorted).declared,
        b.id < b'.id → b'.recipe.isLastResort = true := by decide
    have late := lastResort earlier takes.declared later takes.declared' takes.behind
    rw [takes.regular.2] at late
    cases late

end BindingTable

end ObjectGraph
