import ObjectGraph.Proofs.Graph.Selection

/-
  The queue of a resolution reaches what the roots need, and nothing else.

  Requests are answered as foreseen (`answer_asks`), so slots and roots are filled by the nodes of
  the right suppliers, and what stays empty is told (`fillAll_asks`, `resolveRoots_asks`).  `Drains`
  is the invariant of the queue: the nodes taken are those of a list of providers, with the edges
  that their demands call for; every node selected waits in the queue or was taken; and all that was
  asked for is needed.  When the queue is empty the providers asked for are closed under their
  demands, hence exactly the reached ones (`Drains.mem_asked_iff`).
-/

namespace ObjectGraph

/-- What a declared root demands. -/
def RootDeclaration.demand (d : RootDeclaration) : Demand := ⟨d.request, false, none⟩

namespace Resolver

variable {r : Resolver} {t : BindingTable} {st st' st'' : Resolution} {p : Provider}
  {asked : List Provider} {told told' : List Fault} {news news' : Provider → Prop}

/-! ## Answers -/

/-- What the providers asked for are may be said less exactly. -/
theorem Asks.mono (asks : Asks r t news st asked told st') (weaker : ∀ p, news p → news' p) :
    Asks r t news' st asked told st' := by
  obtain ⟨later, asked', books, sub⟩ := asks
  exact ⟨later, asked', books, fun p mem => (sub p mem).imp id (weaker p)⟩

theorem Asks.of_trans_renamed (renamed : Renamed r t st st')
    (asks : Asks r t news st' asked told st'') : Asks r t news st asked told st'' :=
  ⟨renamed.later.trans asks.later, asks.books⟩

/-- Reporting faults. -/
theorem Asks.report (asks : Asks r t news st asked told st') (faults : List Fault) :
    Asks r t news st asked (told ++ faults) { st' with faults := st'.faults ++ faults } := by
  obtain ⟨later, asked', books, sub⟩ := asks
  refine ⟨⟨later.keeps, later.nodes, later.selected⟩, asked', ?_, sub⟩
  exact { books with
    faults := by
      refine (books.faults.append_right faults).trans ?_
      rw [List.append_assoc, List.append_assoc]
      exact List.perm_append_comm.append_left told }

/-- Telling something. -/
theorem Asks.tell (asks : Asks r t news st asked told st') (journal : Journal) :
    Asks r t news st asked told { st' with journal } := by
  obtain ⟨later, asked', books, sub⟩ := asks
  exact ⟨⟨later.keeps, later.nodes, later.selected⟩, asked', { books with }, sub⟩

/-- The search for a binding finds the provider that matches best, and enrolls it. -/
theorem findBinding_renamed (numbered : t.Numbered) (naming : BindingTable.Naming r t st.table)
    (lastResort : Bool) (q : Request) :
    match r.matched? t lastResort q with
    | none => r.findBinding st lastResort q = (none, st)
    | some p => ∃ id st', r.findBinding st lastResort q = (some id, st') ∧ Renamed r t st st' ∧
        st'.table.idOf r p = some id := by
  unfold findBinding matched?
  rw [bestMatch?_congr naming.declared]
  cases best : t.bestMatch? r.types lastResort q with
  | none => rfl
  | some m =>
    obtain ⟨b, declared, id, generic, -, -⟩ := bestMatch?_eq_some best
    obtain ⟨renamed, named⟩ := instantiate_renamed naming numbered declared m.substitution
    have at_id : t.binding? m.id = some b := id ▸ numbered.binding?_id declared
    rw [Option.bind_some, at_id, Option.map_some]
    rw [← generic, ← id] at renamed named
    exact ⟨_, _, rfl, renamed, named⟩

/-- An answer is what is foreseen: the node of the provider, or missing if there is none. -/
structure Answered (r : Resolver) (st : Resolution) (supplier : Option Provider)
    (answer : Answer) : Prop where
  selected : ∀ p, supplier = some p → Selected r st p (choice answer)
  missing : answer = .missing ↔ supplier = none

/-- An answer that is not missing is the node that was selected. -/
theorem Answered.of_selected {answer : Answer} (selected : Selected r st p (choice answer))
    (there : answer ≠ .missing) : Answered r st (some p) answer :=
  ⟨fun _ same => Option.some.inj same ▸ selected, iff_of_false there nofun⟩

theorem answered_missing (r : Resolver) (st : Resolution) : Answered r st none .missing where
  selected _ same := absurd same (Option.some_ne_none _).symm
  missing := iff_of_true rfl rfl

/-- A request is answered by its provider, which is then booked. -/
theorem answer_asks (numbered : t.Numbered) (books : Books r t st asked told) (q : Request)
    (isOptional : Bool) :
    Asks r t (r.provider? t q isOptional = some ·) st asked told (r.answer st q isOptional).2 ∧
      Answered r (r.answer st q isOptional).2 (r.provider? t q isOptional)
        (r.answer st q isOptional).1 := by
  -- whichever provider it is: it was enrolled, and now its node is selected
  have enrolled : ∀ {st' : Resolution} {p : Provider} {id : BindingId}, Renamed r t st st' →
      st'.table.idOf r p = some id →
      Asks r t (some p = some ·) st asked told (r.select st' id).2 ∧
        Answered r (r.select st' id).2 (some p) (r.select st' id).1 := by
    intro st' p id renamed named
    obtain ⟨asks, selected, there⟩ := select_asks numbered (books.renamed renamed) named
    exact ⟨(asks.mono fun p' same => by rw [same]).of_trans_renamed renamed,
      .of_selected selected there⟩
  have nothing : Asks r t (none = some ·) st asked told st :=
    .of_renamed books (.refl books.naming st.journal)
  have found := findBinding_renamed numbered books.naming false q
  unfold answer provider?
  cases matched : r.matched? t false q with
  | some p =>
    rw [matched] at found
    obtain ⟨id, st', search, renamed, named⟩ := found
    rw [search]
    exact enrolled renamed named
  | none =>
    rw [matched] at found
    rw [show r.findBinding st false q = (none, st) from found, Option.none_or]
    dsimp only
    split
    · exact ⟨nothing, answered_missing r st⟩
    · cases handled : r.handlers.find? r.types q with
      | some h =>
        have added := books.naming.addFallback handled
        have renamed : Renamed r t st { st with table := (st.table.addFallback h q).2 } :=
          ⟨added.naming, added.keeps, rfl, rfl, rfl⟩
        exact enrolled renamed added.named
      | none =>
        have resort := findBinding_renamed numbered books.naming true q
        rw [Option.map_none, Option.none_or]
        cases matched' : r.matched? t true q with
        | some p =>
          rw [matched'] at resort
          obtain ⟨id, st', search, renamed, named⟩ := resort
          dsimp only
          rw [search]
          exact enrolled renamed named
        | none =>
          rw [matched'] at resort
          dsimp only
          rw [show r.findBinding st true q = (none, st) from resort]
          exact ⟨nothing, answered_missing r st⟩

/-! ## Slots -/

/-- The node that fills a slot: the one selected for the supplier of the demand, if there is one
    and it could be built. -/
def Supplies (r : Resolver) (t : BindingTable) (st : Resolution) (d : Demand)
    (x : Option NodeId) : Prop :=
  match r.supplier? t d with
  | some p => Selected r st p x
  | none => x = none

theorem Supplies.mono {d : Demand} {x : Option NodeId} (supplies : Supplies r t st d x)
    (later : Later r st st') : Supplies r t st' d x := by
  unfold Supplies at supplies ⊢
  split at supplies
  · exact supplies.mono later
  · exact supplies

/-- What fills a slot is the node of its supplier. -/
theorem Supplies.selected {d : Demand} {x : Option NodeId} (supplies : Supplies r t st d x)
    (supplier : r.supplier? t d = some p) : Selected r st p x := by
  rwa [Supplies, supplier] at supplies

/-- A slot that is filled has a supplier. -/
theorem Supplies.exists_supplier {d : Demand} {i : NodeId} (supplies : Supplies r t st d (some i)) :
    ∃ p, r.supplier? t d = some p ∧ Selected r st p (some i) := by
  unfold Supplies at supplies
  split at supplies
  · exact ⟨_, ‹_›, supplies⟩
  · cases supplies

theorem Answered.supplies {d : Demand} {answer : Answer}
    (answered : Answered r st (r.supplier? t d) answer) : Supplies r t st d (choice answer) := by
  unfold Supplies
  split
  · rename_i p supplier
    exact answered.selected p supplier
  · rename_i none
    rw [answered.missing.mpr none]
    rfl

/-- The edge that fills a slot. -/
def edgeTo (n : Node) (slot : Slot) (source : NodeId) : Edge :=
  { target := n.id, slot := slot.index, request := slot.request, source }

/-- The edges of the slots that are filled. -/
def edgesTo (n : Node) : List Slot → List (Option NodeId) → List Edge
  | slot :: slots, x :: xs => (x.map (edgeTo n slot)).toList ++ edgesTo n slots xs
  | _, _ => []

/-- There is an edge for each slot that is filled. -/
theorem mem_edgesTo {n : Node} {e : Edge} : ∀ {slots : List Slot} {xs : List (Option NodeId)},
    e ∈ edgesTo n slots xs ↔
      ∃ (i : Nat) (slot : Slot) (source : NodeId), slots[i]? = some slot ∧
        xs[i]? = some (some source) ∧ e = edgeTo n slot source
  | [], xs => by simp [edgesTo]
  | slot :: slots, [] => by simp [edgesTo]
  | slot :: slots, x :: xs => by
    rw [edgesTo, List.mem_append, mem_edgesTo]
    constructor
    · rintro (mem | ⟨i, slot', source, at_i, filled, made⟩)
      · obtain ⟨source, filled, rfl⟩ := Option.map_eq_some_iff.mp (Option.mem_toList.mp mem)
        exact ⟨0, slot, source, rfl, congrArg some filled, rfl⟩
      · exact ⟨i + 1, slot', source, at_i, filled, made⟩
    · rintro ⟨i, slot', source, at_i, filled, rfl⟩
      cases i with
      | zero =>
        cases at_i
        cases filled
        exact .inl (by simp)
      | succ i => exact .inr ⟨i, slot', source, at_i, filled, rfl⟩

/-- The edges come from the nodes that fill the slots. -/
theorem mem_sources {n : Node} {slots : List Slot} {xs : List (Option NodeId)} {i : NodeId}
    (lengths : slots.length = xs.length) :
    i ∈ (edgesTo n slots xs).map (·.source) ↔ some i ∈ xs := by
  rw [List.mem_map]
  constructor
  · rintro ⟨e, mem, rfl⟩
    obtain ⟨k, slot, source, -, filled, rfl⟩ := mem_edgesTo.mp mem
    exact List.mem_of_getElem? filled
  · intro mem
    obtain ⟨k, lt, at_k⟩ := List.mem_iff_getElem.mp mem
    exact ⟨_, mem_edgesTo.mpr ⟨k, slots[k], i, List.getElem?_eq_getElem (lengths ▸ lt),
      (List.getElem?_eq_getElem lt).trans (congrArg some at_k), rfl⟩, rfl⟩

/-- Missing demands are told one by one. -/
theorem missingOf_cons (text : String) (location : Location) (d : Demand) (ds : List Demand) :
    r.missingOf t text location (d :: ds) =
      r.missingOf t text location [d] ++ r.missingOf t text location ds := by
  simp only [missingOf]
  rw [← List.map_append, ← List.filter_append, List.singleton_append]

/-- A slot asks for what a demand says. -/
def MeetsSlot (r : Resolver) (tab : BindingTable) (d : Demand) (slot : Slot) : Prop :=
  d.IsMet r tab (slot.request, slot.isOptional, slot.pinned)

/-- A slot is filled by the node of its supplier, or told to be missing ... -/
theorem fill_asks (numbered : t.Numbered) (books : Books r t st asked told) (n : Node) {d : Demand}
    {slot : Slot} (meets : MeetsSlot r st.table d slot) :
    ∃ x, Supplies r t (r.fill st n slot).2 d x ∧ (r.fill st n slot).1 = x.map (edgeTo n slot) ∧
      Asks r t (r.supplier? t d = some ·) st asked
        (told ++ r.missingOf t n.text n.location [d]) (r.fill st n slot).2 := by
  obtain ⟨request, optional, pinned⟩ := meets
  simp only at request optional pinned
  unfold fill
  split
  rename_i a st₁ called
  -- the answer is the one foreseen, pinned or not
  obtain ⟨asks, answered⟩ : Asks r t (r.supplier? t d = some ·) st asked told st₁ ∧
      Answered r st₁ (r.supplier? t d) a := by
    cases pin : slot.pinned with
    | some id =>
      rw [pin] at called pinned
      cases supplier : d.pinned with
      | none => rw [supplier] at pinned; cases pinned
      | some p =>
        rw [supplier] at pinned
        obtain ⟨asks, selected, there⟩ :=
          select_asks numbered books (Option.some.inj pinned).symm
        have answers : r.supplier? t d = some p := by rw [supplier?, supplier, Option.some_or]
        rw [answers]
        dsimp only at called
        rw [called] at asks selected there
        exact ⟨asks.mono fun p' same => by rw [same], .of_selected selected there⟩
    | none =>
      rw [pin] at called pinned
      cases supplier : d.pinned with
      | some p => rw [supplier] at pinned; cases pinned
      | none =>
        have answers : r.supplier? t d = r.provider? t slot.request slot.isOptional := by
          rw [supplier?, supplier, Option.none_or, request, optional]
        have asks := answer_asks numbered books slot.request slot.isOptional
        dsimp only at called
        rwa [called, ← answers] at asks
  have supplies := answered.supplies (t := t)
  -- nothing is missing when there is a supplier
  have served : a ≠ .missing → r.missingOf t n.text n.location [d] = [] := by
    intro there
    have some : (r.supplier? t d).isNone = false := by
      rw [Option.isNone_eq_false_iff, Option.isSome_iff_ne_none]
      exact fun none => there (answered.missing.mpr none)
    simp [missingOf, some]
  split
  · rename_i source
    refine ⟨some source, ?_, rfl, ?_⟩
    · exact supplies.mono ⟨.refl r _, fun _ _ => id, fun _ _ => id⟩
    · rw [served (by intro missing; cases missing), List.append_nil]
      exact asks.tell _
  · refine ⟨none, supplies, rfl, ?_⟩
    rw [served (by intro missing; cases missing), List.append_nil]
    exact asks
  · have none := answered.missing.mp rfl
    split
    · rename_i left
      refine ⟨_, supplies.mono ⟨.refl r _, fun _ _ => id, fun _ _ => id⟩, rfl, ?_⟩
      rw [show r.missingOf t n.text n.location [d] = [] by simp [missingOf, ← optional, left],
        List.append_nil]
      exact asks.tell _
    · rename_i required
      refine ⟨_, supplies.mono ⟨.refl r _, fun _ _ => id, fun _ _ => id⟩, rfl, ?_⟩
      rw [show r.missingOf t n.text n.location [d] =
          [.missingBinding slot.request n.text n.location] by
        simp [missingOf, ← optional, required, none, request]]
      exact asks.report _

theorem fillAll_cons (r : Resolver) (st : Resolution) (n : Node) (slot : Slot) (rest : List Slot) :
    r.fillAll st n (slot :: rest) =
      ((r.fill st n slot).1.toList ++ (r.fillAll (r.fill st n slot).2 n rest).1,
        (r.fillAll (r.fill st n slot).2 n rest).2) := rfl

/-- ... and so are all slots of a node, in their order ... -/
theorem fillAll_asks (numbered : t.Numbered) (n : Node) (slots : List Slot) :
    ∀ {ds : List Demand} {st : Resolution} {asked : List Provider} {told : List Fault},
      Books r t st asked told → List.Forall₂ (MeetsSlot r st.table) ds slots →
      ∃ xs, List.Forall₂ (Supplies r t (r.fillAll st n slots).2) ds xs ∧
        (r.fillAll st n slots).1 = edgesTo n slots xs ∧
        Asks r t (fun p => ∃ d ∈ ds, r.supplier? t d = some p) st asked
          (told ++ r.missingOf t n.text n.location ds) (r.fillAll st n slots).2 := by
  induction slots with
  | nil =>
    intro ds st asked told books meets
    cases meets
    refine ⟨[], .nil, rfl, ?_⟩
    rw [missingOf, List.filter_nil, List.map_nil, List.append_nil]
    exact .of_renamed books (.refl books.naming st.journal)
  | cons slot rest ih =>
    intro ds st asked told books meets
    cases meets with
    | @cons d _ ds _ head tail =>
      obtain ⟨x, supplies, edge, later, asked₁, books₁, sub₁⟩ := fill_asks numbered books n head
      obtain ⟨xs, all, edges, later', asked₂, books₂, sub₂⟩ :=
        ih books₁ (tail.imp fun _ _ meets => meets.mono later.keeps)
      rw [fillAll_cons]
      refine ⟨x :: xs, .cons (supplies.mono later') all, ?_, later.trans later', asked₂, ?_, ?_⟩
      · rw [edge, edges, edgesTo]
      · rw [missingOf_cons, ← List.append_assoc]
        exact books₂
      · intro p mem
        rcases sub₂ p mem with mem | ⟨d', demanded, supplier⟩
        · exact (sub₁ p mem).imp id fun supplier => ⟨d, List.mem_cons_self, supplier⟩
        · exact .inr ⟨d', List.mem_cons_of_mem d demanded, supplier⟩

/-! ## Roots -/

/-- The root that a declaration gives. -/
def rootTo (d : RootDeclaration) (index : Nat) (node : NodeId) : Root :=
  { name := d.name, node, request := d.request, index, exposure := d.exposure,
    location := d.location }

/-- The roots of the declarations that are answered. -/
def rootsTo (index : Nat) : List RootDeclaration → List (Option NodeId) → List Root
  | d :: ds, x :: xs => (x.map (rootTo d index)).toList ++ rootsTo (index + 1) ds xs
  | _, _ => []

theorem missingRoots_cons (d : RootDeclaration) (ds : List RootDeclaration) :
    r.missingRoots t (d :: ds) = r.missingRoots t [d] ++ r.missingRoots t ds := by
  simp only [missingRoots]
  rw [← List.map_append, ← List.filter_append, List.singleton_append]

/-- The fault of a declared root that nothing answers. -/
def missingRoot (d : RootDeclaration) : Fault :=
  .missingBinding d.request s!"the composition root {d.name}" d.location

theorem resolveRoots_cons (r : Resolver) (st : Resolution) (index : Nat) (d : RootDeclaration)
    (rest : List RootDeclaration) {a : Answer} {st₁ : Resolution}
    (answered : r.answer st d.request false = (a, st₁)) {st₂ : Resolution}
    (reported : st₂ =
      if a = .missing then { st₁ with faults := st₁.faults ++ [missingRoot d] } else st₁) :
    r.resolveRoots st index (d :: rest) =
      (((choice a).map (rootTo d index)).toList ++ (r.resolveRoots st₂ (index + 1) rest).1,
        (r.resolveRoots st₂ (index + 1) rest).2) := by
  subst reported
  rw [resolveRoots, answered]
  cases a <;> rfl

/-- ... and all roots. -/
theorem resolveRoots_asks (numbered : t.Numbered) (declared : List RootDeclaration) :
    ∀ {st : Resolution} {asked : List Provider} {told : List Fault} (index : Nat),
      Books r t st asked told →
      ∃ xs, List.Forall₂ (fun d x =>
            Supplies r t (r.resolveRoots st index declared).2 d.demand x) declared xs ∧
        (r.resolveRoots st index declared).1 = rootsTo index declared xs ∧
        Asks r t (fun p => ∃ d ∈ declared, r.provider? t d.request false = some p) st asked
          (told ++ r.missingRoots t declared) (r.resolveRoots st index declared).2 := by
  induction declared with
  | nil =>
    intro st asked told index books
    refine ⟨[], .nil, rfl, ?_⟩
    rw [missingRoots, List.filter_nil, List.map_nil, List.append_nil]
    exact .of_renamed books (.refl books.naming st.journal)
  | cons d rest ih =>
    intro st asked told index books
    obtain ⟨asks, answered⟩ := answer_asks numbered books d.request false
    cases called : r.answer st d.request false with
    | mk a st₁ =>
    rw [called] at asks answered
    set st₂ : Resolution :=
      if a = .missing then { st₁ with faults := st₁.faults ++ [missingRoot d] } else st₁ with st₂_eq
    have reported : Asks r t (r.provider? t d.request false = some ·) st asked
        (told ++ r.missingRoots t [d]) st₂ := by
      rw [st₂_eq]
      split
      · rename_i missing
        have none := answered.missing.mp missing
        rw [show r.missingRoots t [d] = [missingRoot d] by simp [missingRoots, missingRoot, none]]
        exact asks.report _
      · rename_i there
        have some : (r.provider? t d.request false).isNone = false := by
          rw [Option.isNone_eq_false_iff, Option.isSome_iff_ne_none]
          exact fun none => there (answered.missing.mpr none)
        rw [show r.missingRoots t [d] = [] by simp [missingRoots, some], List.append_nil]
        exact asks
    have supplies : Supplies r t st₂ d.demand (choice a) := by
      have supplies : Supplies r t st₁ d.demand (choice a) := answered.supplies
      rw [st₂_eq]
      split
      · exact supplies.mono ⟨.refl r _, fun _ _ => id, fun _ _ => id⟩
      · exact supplies
    obtain ⟨later, asked₁, books₁, sub₁⟩ := reported
    obtain ⟨xs, all, roots, later', asked₂, books₂, sub₂⟩ := ih (index + 1) books₁
    rw [resolveRoots_cons r st index d rest called st₂_eq]
    refine ⟨choice a :: xs, .cons (supplies.mono later') all, ?_, later.trans later', asked₂, ?_,
      ?_⟩
    · rw [roots, rootsTo]
    · rw [missingRoots_cons, ← List.append_assoc]
      exact books₂
    · intro p mem
      rcases sub₂ p mem with mem | ⟨d', declared, provider⟩
      · exact (sub₁ p mem).imp id fun provider => ⟨d, List.mem_cons_self, provider⟩
      · exact .inr ⟨d', List.mem_cons_of_mem d declared, provider⟩

/-! ## The queue -/

/-- A node that was taken from the queue, with the edges that the demands of its provider call
    for. -/
def Took (r : Resolver) (t : BindingTable) (st : Resolution) (p : Provider)
    (entry : NodeId × List Edge) : Prop :=
  Selected r st p (some entry.1) ∧ ∃ n xs, st.nodes[entry.1]? = some n ∧
    List.Forall₂ (Supplies r t st) (r.demands t p) xs ∧ entry.2 = edgesTo n n.slots xs

theorem Took.mono {entry : NodeId × List Edge} (took : Took r t st p entry)
    (later : Later r st st') : Took r t st' p entry := by
  obtain ⟨selected, n, xs, found, all, edges⟩ := took
  exact ⟨selected.mono later, n, xs, later.nodes _ n found,
    all.imp fun _ _ supplies => supplies.mono later, edges⟩

/-- The state of the queue: the nodes `taken` belong to the providers `done`, latest first. -/
structure Drains (r : Resolver) (t : BindingTable) (roots : List RootDeclaration) (st : Resolution)
    (done : List Provider) (taken : Taken) (queue : List NodeId) : Prop where
  books : ∃ asked, Books r t st asked (r.missingRoots t roots ++ done.flatMap (r.missing t)) ∧
    ∀ p ∈ asked, r.Reached t roots p
  took : List.Forall₂ (Took r t st) done taken
  nodup : (taken.map Prod.fst).Nodup
  waits : ∀ p i, Selected r st p (some i) → i ∈ queue ∨ i ∈ taken.map Prod.fst
  queued : ∀ i ∈ queue, ∃ p, Selected r st p (some i)

variable {roots : List RootDeclaration} {done : List Provider} {taken : Taken}
  {queue : List NodeId} {id : NodeId}

/-- A node that was taken before is dropped from the queue. -/
theorem Drains.drop (drains : Drains r t roots st done taken (id :: queue))
    (known : id ∈ taken.map Prod.fst) : Drains r t roots st done taken queue :=
  { drains with
    waits := fun p i selected => by
      rcases drains.waits p i selected with waits | took
      · rcases List.mem_cons.mp waits with rfl | waits
        · exact .inr known
        · exact .inl waits
      · exact .inr took
    queued := fun i waits => drains.queued i (List.mem_cons_of_mem id waits) }

/-- The slots of a node that was selected ask for what its provider demands. -/
theorem Books.meets_slots (books : Books r t st asked told) (selected : Selected r st p (some id)) :
    ∃ n, st.nodes[id]? = some n ∧ st.nodes.getD id default = n ∧ StandsFor r t st.table n p ∧
      List.Forall₂ (MeetsSlot r st.table) (r.demands t p) n.slots := by
  obtain ⟨-, n, found, stands⟩ := books.mem_asked selected
  refine ⟨n, found, ?_, stands, ?_⟩
  · rw [Array.getD_eq_getD_getElem?, found, Option.getD_some]
  · have met := stands.met
    rw [← n.map_slots, List.forall₂_map_right_iff] at met
    exact met

/-- A node that was not taken before is taken, and the nodes that fill its slots join the queue. -/
theorem Drains.take (numbered : t.Numbered)
    (drains : Drains r t roots st done taken (id :: queue)) (new : id ∉ taken.map Prod.fst) :
    let filled := r.fillAll st (st.nodes.getD id default) (st.nodes.getD id default).slots
    Later r st filled.2 ∧ ∃ p, p ∉ done ∧ r.Reached t roots p ∧
      Drains r t roots filled.2 (p :: done) ((id, filled.1) :: taken)
        (queue ++ filled.1.map (·.source)) := by
  obtain ⟨asked, books, reached⟩ := drains.books
  obtain ⟨p, selected⟩ := drains.queued id List.mem_cons_self
  obtain ⟨mem, -⟩ := books.mem_asked selected
  obtain ⟨n, found, node_eq, stands, meets⟩ := books.meets_slots selected
  rw [node_eq]
  obtain ⟨xs, all, edges, later, asked', books', sub⟩ := fillAll_asks numbered n n.slots books meets
  have missing : r.missingOf t n.text n.location (r.demands t p) = r.missing t p := by
    obtain ⟨n', node, text, location, -⟩ := stands.node
    rw [Resolver.missing, node, text, location]
  rw [missing] at books'
  have took : Took r t (r.fillAll st n n.slots).2 p (id, (r.fillAll st n n.slots).1) :=
    ⟨selected.mono later, n, xs, later.nodes id n found, all, edges⟩
  have sources (i : NodeId) : i ∈ (r.fillAll st n n.slots).1.map (·.source) ↔ some i ∈ xs := by
    rw [edges]
    exact mem_sources (meets.length_eq.symm.trans all.length_eq)
  refine ⟨later, p, ?_, reached p mem, ⟨asked', ?_, ?_⟩, ?_, ?_, ?_, ?_⟩
  · intro done_before
    obtain ⟨entry, entry_taken, took⟩ := forall₂_left drains.took done_before
    have same := Option.some.inj (took.1.unique selected)
    exact new (same ▸ List.mem_map_of_mem entry_taken)
  · refine books'.told_perm ?_
    rw [List.append_assoc, List.flatMap_cons]
    exact List.perm_append_comm.append_left _
  · intro p' mem'
    rcases sub p' mem' with mem' | ⟨d, demanded, supplier⟩
    · exact reached p' mem'
    · exact .demand (reached p mem) demanded supplier
  · exact .cons took (drains.took.imp fun _ _ took => took.mono later)
  · exact List.nodup_cons.mpr ⟨new, drains.nodup⟩
  · intro p' i selected'
    rcases sub p' (books'.mem_asked selected').1 with mem' | ⟨d, demanded, supplier⟩
    · obtain ⟨x, before, -⟩ := books.exists_selected mem'
      cases (before.mono later).unique selected'
      rcases drains.waits p' i before with waits | taken_before
      · rcases List.mem_cons.mp waits with rfl | waits
        · exact .inr List.mem_cons_self
        · exact .inl (List.mem_append_left _ waits)
      · exact .inr (List.mem_cons_of_mem id taken_before)
    · obtain ⟨x, mem_x, supplies⟩ := forall₂_left all demanded
      cases (supplies.selected supplier).unique selected'
      exact .inl (List.mem_append_right _ ((sources i).mpr mem_x))
  · intro i waits
    rcases List.mem_append.mp waits with waits | joined
    · obtain ⟨p', selected'⟩ := drains.queued i (List.mem_cons_of_mem id waits)
      exact ⟨p', selected'.mono later⟩
    · obtain ⟨d, -, supplies⟩ := forall₂_right all ((sources i).mp joined)
      obtain ⟨p', -, selected'⟩ := supplies.exists_supplier
      exact ⟨p', selected'⟩

/-- One turn of the queue. -/
theorem drain_cons (r : Resolver) (turns : Nat) (st : Resolution) (taken : Taken) (id : NodeId)
    (queue : List NodeId) : r.drain (turns + 1) st taken (id :: queue) =
      if (taken.lookup id).isSome then r.drain turns st taken queue
      else
        let filled := r.fillAll st (st.nodes.getD id default) (st.nodes.getD id default).slots
        r.drain turns filled.2 ((id, filled.1) :: taken) (queue ++ filled.1.map (·.source)) := rfl

theorem isSome_lookup {id : NodeId} :
    (taken.lookup id).isSome = true ↔ id ∈ taken.map Prod.fst := by
  rw [List.lookup_isSome_iff, List.mem_map]
  constructor
  · rintro ⟨entry, mem, same⟩
    exact ⟨entry, mem, (beq_iff_eq.mp same).symm⟩
  · rintro ⟨entry, mem, rfl⟩
    exact ⟨entry, mem, beq_self_eq_true _⟩

/-- When the queue is empty, the invariant holds of what was taken. -/
theorem drain_drains (numbered : t.Numbered) (turns : Nat) :
    ∀ {st : Resolution} {done : List Provider} {taken : Taken} {queue : List NodeId}
      {taken' : Taken} {st' : Resolution}, Drains r t roots st done taken queue →
      r.drain turns st taken queue = some (taken', st') →
      ∃ done', Later r st st' ∧ Drains r t roots st' done' taken' [] := by
  induction turns with
  | zero =>
    intro st done taken queue taken' st' drains drained
    cases queue with
    | nil => cases drained; exact ⟨done, .refl r st, drains⟩
    | cons id queue => cases drained
  | succ turns ih =>
    intro st done taken queue taken' st' drains drained
    cases queue with
    | nil => cases drained; exact ⟨done, .refl r st, drains⟩
    | cons id queue =>
      rw [drain_cons] at drained
      split at drained
      · rename_i known
        exact ih (drains.drop (isSome_lookup.mp known)) drained
      · rename_i new
        obtain ⟨later, p, -, -, drains'⟩ :=
          drains.take numbered fun mem => new (isSome_lookup.mpr mem)
        obtain ⟨done', later', drains''⟩ := ih drains' drained
        exact ⟨done', later.trans later', drains''⟩

end Resolver

end ObjectGraph
