import ObjectGraph.Proofs.Graph.Table
import ObjectGraph.Proofs.Lists
import ObjectGraph.Proofs.Sample

/-
  The keys of a table say where its bindings come from.

  After registration a table is used by two calls: the specialization of a declared binding, and the
  binding for a fallback request.  `performAll` performs any sequence of them and logs what each one
  returned.  The log explains the table (`Logged`): what a call returned is what it would return
  again, and the records of the table are those of the log.  A call changes the table in one way
  (`Call.perform_cases`), and what is remembered once stays (`Call.known?_perform`).

  So each binding has one lineage, which is a declaration under a substitution or a request to a
  handler, and the key of a binding is as good as its lineage (`Logged.key_eq_iff`).  This does not
  depend on the order of the calls: the keys are counted by the origins seen so far, and the
  synthetic sources of fallback requests by the fallback bindings made so far, but an origin that was
  numbered once keeps its number.
-/

namespace ObjectGraph

namespace BindingTable

/-- A call that finds a derived binding in a table, or adds it. -/
inductive Call where
  /-- The specialization of a binding. -/
  | specialize (id : BindingId) (sub : Substitution)
  /-- The binding that hands a request to a fallback handler. -/
  | addFallback (h : Handler) (q : Request)

namespace Call

/-- The id that a call returns, and the table afterwards. -/
def perform (t : BindingTable) : Call → BindingId × BindingTable
  | specialize id sub => t.specialize id sub
  | addFallback h q => t.addFallback h q

/-- The id that a table remembers for a call. -/
def known? (t : BindingTable) : Call → Option BindingId
  | specialize id sub => t.specialized.lookup (id, sub)
  | addFallback h q => t.fallbacks.lookup (h.name, q)

/-- Only declared bindings are specialized. -/
def OnDeclared (t : BindingTable) : Call → Prop
  | specialize id _ => id < t.declared.length
  | addFallback _ _ => True

/-- The call is made once more: with a substitution that puts the same for each name, in whatever
    order it was put together, or for a handler of the same name and the same request. -/
inductive Repeats : Call → Call → Prop where
  | specialize (id : BindingId) {sub sub' : Substitution}
      (same : ∀ name, sub'.get? name = sub.get? name) :
      Repeats (.specialize id sub) (.specialize id sub')
  | addFallback {h h' : Handler} (same : h'.name = h.name) (q : Request) :
      Repeats (.addFallback h q) (.addFallback h' q)

end Call

/-- Performs calls one after another.  Lists each call with the id that it returned, and the table at
    the end. -/
def performAll (t : BindingTable) : List Call → List (Call × BindingId) × BindingTable
  | [] => ([], t)
  | c :: rest =>
    let (id, t) := c.perform t
    let (log, t) := performAll t rest
    ((c, id) :: log, t)

/-- What a binding comes from. -/
inductive Lineage where
  /-- The declaration of an index, under a substitution. -/
  | declaration (index : Nat) (sub : Substitution)
  /-- A request to the handler of a name. -/
  | request (handler : String) (q : Request)
  deriving DecidableEq

/-- The lineage of a binding, told by the declarations and by the calls that were made.  A declared
    binding counts as one under the empty substitution. -/
inductive Descends (s : Setup) (log : List (Call × BindingId)) (b : Binding) : Lineage → Prop where
  | declared {index : Nat} (declared : b ∈ (register s).declared)
      (source : b.source = .declared index) : Descends s log b (.declaration index ∅)
  | specialized {generic : Binding} {index : Nat} {sub : Substitution}
      (declared : generic ∈ (register s).declared) (source : generic.source = .declared index)
      (called : (Call.specialize generic.id sub, b.id) ∈ log) :
      Descends s log b (.declaration index sub)
  | fallback {h : Handler} {name : String} {q : Request} (named : h.name = name)
      (called : (Call.addFallback h q, b.id) ∈ log) : Descends s log b (.request name q)

/-! ## One call -/

variable {s : Setup} {t t' : BindingTable} {c c' : Call} {id : BindingId} {b b' : Binding}
  {log : List (Call × BindingId)} {l l' : Lineage}

namespace Call

theorem Repeats.known?_eq (repeats : c.Repeats c') (t : BindingTable) : c'.known? t = c.known? t := by
  cases repeats with
  | specialize id same => rw [NameMap.ext_get? same]
  | addFallback same q => rw [known?, known?, same]

/-- A call that is known returns what is remembered, and changes nothing. -/
theorem perform_of_known (known : c.known? t = some id) : c.perform t = (id, t) := by
  cases c with
  | specialize generic sub =>
    rw [known?] at known
    rw [perform, BindingTable.specialize, known]
  | addFallback h q =>
    rw [known?] at known
    rw [perform, BindingTable.addFallback, known]

/-- What a call leaves of the table. -/
theorem declared_perform (c : Call) (t : BindingTable) : (c.perform t).2.declared = t.declared := by
  cases c with
  | specialize id sub => exact declared_specialize t id sub
  | addFallback h q => exact declared_addFallback t h q

/-- A call changes nothing that it knows the answer to.  Otherwise it remembers its own answer, and
    nothing else. -/
theorem perform_cases (onDeclared : c.OnDeclared t) :
    (c.known? t = some (c.perform t).1 ∧ (c.perform t).2 = t) ∨
      c.known? t = none ∧
        ((∃ id sub, c = .specialize id sub ∧ (c.perform t).2.fallbacks = t.fallbacks ∧
            (c.perform t).2.specialized = ((id, sub), (c.perform t).1) :: t.specialized) ∨
          ∃ h q, c = .addFallback h q ∧ (c.perform t).2.specialized = t.specialized ∧
            (c.perform t).2.fallbacks = ((h.name, q), (c.perform t).1) :: t.fallbacks) := by
  cases known : c.known? t with
  | some id => exact .inl (by rw [perform_of_known known]; exact ⟨rfl, rfl⟩)
  | none =>
    refine .inr ⟨rfl, ?_⟩
    cases c with
    | specialize id sub =>
      have lt : id < t.declared.length := onDeclared
      have found : t.binding? id = some t.declared[id] := by
        rw [binding?, bindings, List.getElem?_append_left lt, List.getElem?_eq_getElem lt]
      rw [known?] at known
      refine .inl ⟨id, sub, rfl, ?_⟩
      rw [perform, BindingTable.specialize, known, found]
      exact ⟨rfl, rfl⟩
    | addFallback h q =>
      rw [known?] at known
      refine .inr ⟨h, q, rfl, ?_⟩
      rw [perform, BindingTable.addFallback, known]
      exact ⟨rfl, rfl⟩

/-- What a call returned is remembered. -/
theorem known?_perform_self (onDeclared : c.OnDeclared t) :
    c.known? (c.perform t).2 = some (c.perform t).1 := by
  rcases perform_cases onDeclared with ⟨known, same⟩ |
    ⟨-, ⟨id, sub, rfl, -, remembered⟩ | ⟨h, q, rfl, -, remembered⟩⟩
  · rw [same, known]
  · rw [known?, remembered, List.lookup_cons_self]
  · rw [known?, remembered, List.lookup_cons_self]

/-- And it is remembered for ever. -/
theorem known?_perform (onDeclared : c'.OnDeclared t) (known : c.known? t = some id) :
    c.known? (c'.perform t).2 = some id := by
  rcases perform_cases onDeclared with ⟨-, same⟩ |
    ⟨unknown, ⟨id', sub', rfl, kept, remembered⟩ | ⟨h', q', rfl, kept, remembered⟩⟩
  · rw [same, known]
  · cases c with
    | specialize id sub =>
      rw [known?, remembered]
      exact lookup_cons_of_unknown known unknown
    | addFallback h q => rwa [known?, kept]
  · cases c with
    | specialize id sub => rwa [known?, kept]
    | addFallback h q =>
      rw [known?, remembered]
      exact lookup_cons_of_unknown known unknown

end Call

/-! ## Any number of calls -/

/-- A table of a setup together with the calls that led to it. -/
structure Logged (s : Setup) (log : List (Call × BindingId)) (t : BindingTable) : Prop where
  grown : Grown s t
  declared : t.declared = (register s).declared
  known : ∀ e ∈ log, e.1.known? t = some e.2
  specialized : ∀ e ∈ t.specialized, (Call.specialize e.1.1 e.1.2, e.2) ∈ log
  fallbacks : ∀ e ∈ t.fallbacks, ∃ h : Handler, h.name = e.1.1 ∧ (Call.addFallback h e.1.2, e.2) ∈ log
  fewer : t.fallbacks.length ≤ log.length

theorem logged_register (s : Setup) : Logged s [] (register s) where
  grown := .register
  declared := rfl
  known := nofun
  specialized e mem := by
    rw [register, (addDeclarations_added s.declarations {} 0).1] at mem
    cases mem
  fallbacks e mem := by
    rw [register, (addDeclarations_added s.declarations {} 0).2] at mem
    cases mem
  fewer := by
    rw [register, (addDeclarations_added s.declarations {} 0).2]
    exact Nat.le_refl 0

theorem Logged.perform (logged : Logged s log t) (onDeclared : c.OnDeclared t) :
    Logged s (log ++ [(c, (c.perform t).1)]) (c.perform t).2 where
  grown := by
    cases c with
    | specialize id sub =>
      have lt : id < t.declared.length := onDeclared
      have at_id := logged.grown.stamped.numbered id t.declared[id] (by
        rw [bindings, List.getElem?_append_left lt, List.getElem?_eq_getElem lt])
      have grown := Grown.specialize logged.grown (List.getElem_mem lt) sub
      rwa [at_id] at grown
    | addFallback h q => exact .addFallback logged.grown h q
  declared := by rw [c.declared_perform, logged.declared]
  known e mem := by
    rcases List.mem_append.mp mem with old | new
    · exact Call.known?_perform onDeclared (logged.known e old)
    · cases List.mem_singleton.mp new
      exact Call.known?_perform_self onDeclared
  specialized e mem := by
    rw [List.mem_append, List.mem_singleton]
    rcases Call.perform_cases onDeclared with ⟨-, same⟩ |
      ⟨-, ⟨id, sub, rfl, -, remembered⟩ | ⟨h, q, rfl, kept, -⟩⟩
    · exact .inl (logged.specialized e (same ▸ mem))
    · rw [remembered] at mem
      rcases List.mem_cons.mp mem with rfl | old
      · exact .inr rfl
      · exact .inl (logged.specialized e old)
    · exact .inl (logged.specialized e (kept ▸ mem))
  fallbacks e mem := by
    have old (mem : e ∈ t.fallbacks) : ∃ h : Handler, h.name = e.1.1 ∧
        (Call.addFallback h e.1.2, e.2) ∈ log ++ [(c, (c.perform t).1)] := by
      obtain ⟨h, name, called⟩ := logged.fallbacks e mem
      exact ⟨h, name, List.mem_append_left _ called⟩
    rcases Call.perform_cases onDeclared with ⟨-, same⟩ |
      ⟨-, ⟨id, sub, rfl, kept, -⟩ | ⟨h, q, rfl, -, remembered⟩⟩
    · exact old (same ▸ mem)
    · exact old (kept ▸ mem)
    · rw [remembered] at mem
      rcases List.mem_cons.mp mem with rfl | mem
      · exact ⟨h, rfl, List.mem_append_right _ List.mem_cons_self⟩
      · exact old mem
  fewer := by
    have fewer := logged.fewer
    rw [List.length_append, List.length_singleton]
    rcases Call.perform_cases onDeclared with ⟨-, same⟩ |
      ⟨-, ⟨id, sub, rfl, kept, -⟩ | ⟨h, q, rfl, -, remembered⟩⟩
    · rw [same]
      exact Nat.le_succ_of_le fewer
    · rw [kept]
      exact Nat.le_succ_of_le fewer
    · rw [remembered, List.length_cons]
      exact Nat.succ_le_succ fewer

theorem performAll_logged (calls : List Call) :
    ∀ {log t}, Logged s log t → (∀ c ∈ calls, c.OnDeclared (register s)) →
      Logged s (log ++ (t.performAll calls).1) (t.performAll calls).2 := by
  induction calls with
  | nil =>
    intro log t logged _
    rwa [performAll, List.append_nil]
  | cons c rest ih =>
    intro log t logged onDeclared
    have first : c.OnDeclared t := by
      have first := onDeclared c List.mem_cons_self
      cases c with
      | specialize id sub => rwa [Call.OnDeclared, logged.declared]
      | addFallback h q => exact first
    have others := ih (logged.perform first) fun c' mem => onDeclared c' (List.mem_cons_of_mem c mem)
    rwa [List.append_assoc] at others

theorem calls_performAll (calls : List Call) :
    ∀ t : BindingTable, (t.performAll calls).1.map Prod.fst = calls := by
  induction calls with
  | nil => exact fun _ => rfl
  | cons c rest ih => exact fun t => congrArg (c :: ·) (ih (c.perform t).2)

/-! ## Lineages and keys -/

/-- The binding bears the key of its lineage: that of an origin, or of the number that its request
    has among the fallback requests. -/
def Bears (t : BindingTable) (b : Binding) : Lineage → Prop
  | .declaration index sub => t.KeyedBy b ⟨.declared index, sub⟩
  | .request name q => ∃ number : Nat, t.fallbacks.reverse[number]? = some ((name, q), b.id) ∧
      t.KeyedBy b ⟨.fallback number, ∅⟩

namespace Logged

variable (logged : Logged s log t)
include logged

/-- A declared binding goes back to its declaration. -/
theorem keyed_declared {index : Nat} (declared : b ∈ (register s).declared)
    (source : b.source = .declared index) : t.KeyedBy b ⟨.declared index, ∅⟩ := by
  obtain ⟨index', -, -, -, keyed⟩ :=
    logged.grown.stamped.registered b (logged.declared ▸ declared)
  have same : Binding.Source.declared index' = .declared index := keyed.source.symm.trans source
  cases same
  exact keyed

/-- What a call returned is the id of a binding. -/
theorem exists_binding {e : Call × BindingId} (called : e ∈ log) :
    ∃ b ∈ t.derived, b.id = e.2 ∧ match e.1 with
      | .specialize id sub => ∃ generic ∈ t.declared, generic.id = id ∧
          t.KeyedBy b ⟨generic.source, sub⟩
      | .addFallback h q => t.Bears b (.request h.name q) := by
  have known := logged.known e called
  obtain ⟨c, id⟩ := e
  cases c with
  | specialize generic sub =>
    obtain ⟨generic', declared, b, derived, entry, -, keyed⟩ :=
      logged.grown.stamped.specialized _ (mem_of_lookup known)
    simp only [Prod.mk.injEq, and_true] at entry
    exact ⟨b, derived, entry.2.symm, generic', declared, entry.1.symm, keyed⟩
  | addFallback h q =>
    obtain ⟨number, listed⟩ :=
      List.mem_iff_getElem?.mp (List.mem_reverse.mpr (mem_of_lookup known))
    obtain ⟨b, derived, id_eq, keyed⟩ := logged.grown.stamped.fallback number _ listed
    exact ⟨b, derived, id_eq, number, by rw [listed, id_eq], keyed⟩

/-- Each binding has a lineage. -/
theorem exists_descends (mem : b ∈ t.bindings) : ∃ l, Descends s log b l := by
  have stamped := logged.grown.stamped
  rcases List.mem_append.mp mem with declared | derived
  · obtain ⟨index, -, -, -, keyed⟩ := stamped.registered b declared
    exact ⟨_, .declared (logged.declared ▸ declared) keyed.source⟩
  · rcases stamped.derived b derived with listed | listed
    · obtain ⟨e, recorded, id⟩ := List.mem_map.mp listed
      have called := logged.specialized e recorded
      obtain ⟨generic, declared, b', -, entry, -⟩ := stamped.specialized e recorded
      obtain ⟨index, -, -, -, keyed⟩ := stamped.registered generic declared
      rw [id, show e.1.1 = generic.id by rw [entry]] at called
      exact ⟨_, .specialized (logged.declared ▸ declared) keyed.source called⟩
    · obtain ⟨e, recorded, id⟩ := List.mem_map.mp listed
      obtain ⟨h, name, called⟩ := logged.fallbacks e recorded
      exact ⟨_, .fallback name (id ▸ called)⟩

/-- And bears the key of it. -/
theorem bears (mem : b ∈ t.bindings) (descends : Descends s log b l) : t.Bears b l := by
  have stamped := logged.grown.stamped
  have derived {b' : Binding} (mem' : b' ∈ t.derived) (id : b'.id = b.id) : b' = b :=
    stamped.eq_of_id_eq (List.mem_append_right _ mem') mem id
  cases descends with
  | declared declared source => exact logged.keyed_declared declared source
  | @specialized generic index sub declared source called =>
    obtain ⟨b', among, id, generic', declared', same, keyed⟩ := logged.exists_binding called
    cases derived among id
    have declared := logged.declared ▸ declared
    cases stamped.eq_of_id_eq (List.mem_append_left _ declared') (List.mem_append_left _ declared)
      same
    rwa [source] at keyed
  | fallback name called =>
    obtain ⟨b', among, id, bears⟩ := logged.exists_binding called
    cases derived among id
    exact name ▸ bears

/-- One request to one handler has one binding. -/
theorem eq_of_request {name : String} {q : Request} (mem : b ∈ t.bindings) (mem' : b' ∈ t.bindings)
    (descends : Descends s log b (.request name q))
    (descends' : Descends s log b' (.request name q)) : b = b' := by
  obtain - | - | ⟨named, called⟩ := descends
  obtain - | - | ⟨named', called'⟩ := descends'
  have known := logged.known _ called
  have known' := logged.known _ called'
  rw [Call.known?, named] at known
  rw [Call.known?, named', known] at known'
  exact logged.grown.stamped.eq_of_id_eq mem mem' (Option.some.inj known')

/-- Bindings share a key exactly if they have one lineage. -/
theorem key_eq_iff (mem : b ∈ t.bindings) (mem' : b' ∈ t.bindings) (descends : Descends s log b l)
    (descends' : Descends s log b' l') : b.key = b'.key ↔ l = l' := by
  have bears := logged.bears mem descends
  have bears' := logged.bears mem' descends'
  cases l with
  | declaration index sub =>
    cases l' with
    | declaration index' sub' =>
      rw [KeyedBy.unique bears bears']
      simp
    | request name' q' =>
      obtain ⟨number', -, keyed'⟩ := bears'
      rw [KeyedBy.unique bears keyed']
      simp
  | request name q =>
    obtain ⟨number, listed, keyed⟩ := bears
    cases l' with
    | declaration index' sub' =>
      rw [keyed.unique bears']
      simp
    | request name' q' =>
      obtain ⟨number', listed', keyed'⟩ := bears'
      constructor
      · intro key
        cases (keyed.unique keyed').mp key
        have entry := Option.some.inj (listed.symm.trans listed')
        obtain ⟨rfl, rfl⟩ := Prod.mk.inj (Prod.mk.inj entry).1
        rfl
      · intro same
        cases same
        rw [logged.eq_of_request mem mem' descends descends']

/-- The numbers of sources tell them apart, as long as there are enough numbers for all of them. -/
theorem source_of_number (fits : s.declarations.length + log.length ≤ UInt64.size)
    (mem : b ∈ t.bindings) (mem' : b' ∈ t.bindings) (same : b.source.number = b'.source.number) :
    b.source = b'.source := by
  have bound {b : Binding} (mem : b ∈ t.bindings) :
      (∃ index < s.declarations.length, b.source = .declared index) ∨
        ∃ number < log.length, b.source = .fallback number := by
    obtain ⟨o, keyed, stamp⟩ := logged.grown.stamped.stamp mem
    cases stamp with
    | declared found _ => exact .inl ⟨_, (List.getElem?_eq_some_iff.mp found).1, keyed.source⟩
    | fallback found _ =>
      have lt := (List.getElem?_eq_some_iff.mp found).1
      rw [List.length_reverse] at lt
      exact .inr ⟨_, Nat.lt_of_lt_of_le lt logged.fewer, keyed.source⟩
  rcases bound mem with ⟨index, lt, source⟩ | ⟨number, lt, source⟩ <;>
    rcases bound mem' with ⟨index', lt', source'⟩ | ⟨number', lt', source'⟩ <;>
    rw [source, source'] at same ⊢ <;> simp only [Binding.Source.number] at same
  · rw [same]
  · omega
  · omega
  · congr 1
    omega

end Logged

/-- A table whose keys are as good as the lineages of its bindings. -/
structure Canonical (s : Setup) (log : List (Call × BindingId)) (t : BindingTable) : Prop where
  /-- Bindings stand at the places of their ids. -/
  numbered : ∀ (i : Nat) (b : Binding), t.bindings[i]? = some b → b.id = i
  /-- The declared ones are those of the registration. -/
  declared : t.declared = (register s).declared
  /-- Each call returned the id of a binding. -/
  found : ∀ c id, (c, id) ∈ log → ∃ b, t.binding? id = some b
  /-- When it is repeated, it returns the same id and changes nothing. -/
  repeats : ∀ c id, (c, id) ∈ log → ∀ c', c.Repeats c' → c'.perform t = (id, t)
  /-- Each binding has one lineage. -/
  lineage : ∀ b ∈ t.bindings, ∃! l, Descends s log b l
  /-- Two bindings share their key exactly if they share their lineage. -/
  key : ∀ b ∈ t.bindings, ∀ b' ∈ t.bindings, ∀ l l', Descends s log b l → Descends s log b' l' →
    (b.key = b'.key ↔ l = l')
  /-- The binding of a fallback request shares its key with no other. -/
  alone : ∀ b ∈ t.bindings, ∀ name q, Descends s log b (.request name q) →
    ∀ b' ∈ t.bindings, b'.key = b.key → b' = b
  /-- The numbers of sources tell them apart, as long as there are enough numbers for all of them. -/
  number : s.declarations.length + log.length ≤ UInt64.size → ∀ b ∈ t.bindings, ∀ b' ∈ t.bindings,
    b.source.number = b'.source.number → b.source = b'.source

/-- Whatever calls are made after registration, in whatever order, the keys of the table are
    canonical. -/
theorem performAll_canonical (s : Setup) (calls : List Call)
    (onDeclared : ∀ c ∈ calls, c.OnDeclared (register s)) :
    ((register s).performAll calls).1.map Prod.fst = calls ∧
      Canonical s ((register s).performAll calls).1 ((register s).performAll calls).2 := by
  set log := ((register s).performAll calls).1
  set t := ((register s).performAll calls).2
  have logged : Logged s log t := performAll_logged calls (logged_register s) onDeclared
  have stamped := logged.grown.stamped
  have listed : log.map Prod.fst = calls := calls_performAll calls (register s)
  refine ⟨listed, ?_⟩
  constructor
  case numbered => exact stamped.numbered
  case declared => exact logged.declared
  case found =>
    intro c id called
    obtain ⟨b, derived, id_eq, -⟩ := logged.exists_binding called
    have found := stamped.binding?_id (List.mem_append_right t.declared derived)
    rw [id_eq] at found
    exact ⟨b, found⟩
  case repeats =>
    intro c id called c' repeats
    apply Call.perform_of_known
    rw [repeats.known?_eq]
    exact logged.known _ called
  case lineage =>
    intro b mem
    obtain ⟨l, descends⟩ := logged.exists_descends mem
    exact ⟨l, descends, fun l' descends' => (logged.key_eq_iff mem mem descends' descends).mp rfl⟩
  case key =>
    intro b mem b' mem' l l' descends descends'
    exact logged.key_eq_iff mem mem' descends descends'
  case alone =>
    intro b mem name q descends b' mem' key
    obtain ⟨l', descends'⟩ := logged.exists_descends mem'
    cases (logged.key_eq_iff mem' mem descends' descends).mp key
    exact logged.eq_of_request mem' mem descends' descends
  case number =>
    intro fits b mem b' mem' same
    exact logged.source_of_number fits mem mem' same

end BindingTable

namespace Sample

/-- A generic factory that is bound to two types. -/
def boxes : Setup := {
  declarations := [{
    contracts := [applied "Box" (.plain "TT"), applied "Crate" (.plain "TT")]
    recipe := .factory { name := "Box", type := applied "Box" (.plain "TT") } }] }

/-- What puts a type for the marker. -/
def forMarker (name : String) : Substitution := .ofList [("TT", .plain name)]

/-- Specializations of both types, also under the substitution that puts nothing, with a fallback
    request between them and one of them repeated. -/
def boxCalls : List BindingTable.Call := [
  .specialize 0 (forMarker "Int"),
  .addFallback { name := "H", type := .plain "TT" } ⟨.plain "Pen", .untagged⟩,
  .specialize 1 (forMarker "Int"),
  .specialize 1 ∅,
  .specialize 0 (forMarker "Pen"),
  .specialize 0 (forMarker "Int")]

end Sample

namespace BindingTable

/-- The two types share their keys under each substitution. -/
theorem performAll_canonical_boxes :
    (∀ c ∈ Sample.boxCalls, c.OnDeclared (register Sample.boxes)) ∧
      ((register Sample.boxes).performAll Sample.boxCalls).1.map Prod.snd = [2, 3, 4, 5, 6, 2] ∧
      ((register Sample.boxes).performAll Sample.boxCalls).2.bindings.map (·.key) =
        [0, 0, 1, 2, 1, 0, 3] ∧
      Canonical Sample.boxes ((register Sample.boxes).performAll Sample.boxCalls).1
        ((register Sample.boxes).performAll Sample.boxCalls).2 := by
  have onDeclared : ∀ c ∈ Sample.boxCalls, c.OnDeclared (register Sample.boxes) := by
    intro c mem
    simp only [Sample.boxCalls, List.mem_cons, List.not_mem_nil, or_false] at mem
    rcases mem with rfl | rfl | rfl | rfl | rfl | rfl <;> simp only [Call.OnDeclared] <;> decide
  exact ⟨onDeclared, by decide +kernel, by decide +kernel,
    (performAll_canonical Sample.boxes Sample.boxCalls onDeclared).2⟩

end BindingTable

end ObjectGraph
