import ObjectGraph.Proofs.Graph.Result

/-
  The requests that a resolution meets.

  Roots are answered one after another, and then the slots of each node taken from the queue.  So
  the state in which a request is answered is known by what was worked off before it: `Stage` lists
  the states of the queue, one rule for each thing that a turn can do, and `Meets` the states in
  between, in which a root or a slot is up next.  Whatever holds in all of them is shown by
  induction over the turns; here it is that the books are in order (`Meets.books`).
-/

namespace ObjectGraph

namespace Resolver

variable {r : Resolver} {s : Setup} {st st' : Resolution} {taken taken' : Taken}
  {queue : List NodeId} {id : NodeId} {q : Request} {isOptional : Bool}

/-- The resolution of a setup passes through a state of the queue. -/
inductive Stage (r : Resolver) (s : Setup) : Resolution → Taken → List NodeId → Prop where
  /-- The roots have been answered. -/
  | start {roots : List Root} {st : Resolution}
      (rooted : r.resolveRoots { table := .register s } 0 s.roots = (roots, st)) :
      Stage r s st [] (roots.map (·.node))
  /-- A node that was taken before is dropped. -/
  | drop {st : Resolution} {taken : Taken} {id : NodeId} {queue : List NodeId}
      (stage : Stage r s st taken (id :: queue)) (known : (taken.lookup id).isSome = true) :
      Stage r s st taken queue
  /-- The slots of a node are filled. -/
  | take {st st' : Resolution} {taken : Taken} {id : NodeId} {queue : List NodeId} {n : Node}
      {edges : List Edge} (stage : Stage r s st taken (id :: queue))
      (new : (taken.lookup id).isSome = false) (node : st.nodes.getD id default = n)
      (filled : r.fillAll st n n.slots = (edges, st')) :
      Stage r s st' ((id, edges) :: taken) (queue ++ edges.map (·.source))

/-- In the state, the resolution of a setup is about to answer a request, of a root or of a slot
    that is not pinned. -/
inductive Meets (r : Resolver) (s : Setup) : Resolution → Request → Bool → Prop where
  /-- A root, when those before it have been answered. -/
  | root {before after : List RootDeclaration} {d : RootDeclaration}
      (roots : s.roots = before ++ d :: after) :
      Meets r s (r.resolveRoots { table := .register s } 0 before).2 d.request false
  /-- A slot, when those before it have been filled. -/
  | slot {st : Resolution} {taken : Taken} {id : NodeId} {queue : List NodeId} {n : Node}
      {before after : List Slot} {slot : Slot} (stage : Stage r s st taken (id :: queue))
      (new : (taken.lookup id).isSome = false) (node : st.nodes.getD id default = n)
      (slots : n.slots = before ++ slot :: after) (unpinned : slot.pinned = none) :
      Meets r s (r.fillAll st n before).2 slot.request slot.isOptional

/-! ## These are the states of a resolution -/

/-- Each root is answered in the state that those before it leave. -/
theorem resolveRoots_append (r : Resolver) (before after : List RootDeclaration) :
    ∀ (st : Resolution) (index : Nat), r.resolveRoots st index (before ++ after) =
      ((r.resolveRoots st index before).1 ++
          (r.resolveRoots (r.resolveRoots st index before).2 (index + before.length) after).1,
        (r.resolveRoots (r.resolveRoots st index before).2 (index + before.length) after).2) := by
  induction before with
  | nil => exact fun _ _ => rfl
  | cons d before ih =>
    intro st index
    obtain ⟨a, st₁, answered⟩ : ∃ a st₁, r.answer st d.request false = (a, st₁) := ⟨_, _, rfl⟩
    rw [List.cons_append, resolveRoots_cons r st index d _ answered rfl,
      resolveRoots_cons r st index d _ answered rfl, ih, List.length_cons, List.append_assoc,
      Nat.add_right_comm, Nat.add_assoc index]

/-- And each slot of a node is filled in the state that those before it leave. -/
theorem fillAll_append (r : Resolver) (n : Node) (before after : List Slot) :
    ∀ st : Resolution, r.fillAll st n (before ++ after) =
      ((r.fillAll st n before).1 ++ (r.fillAll (r.fillAll st n before).2 n after).1,
        (r.fillAll (r.fillAll st n before).2 n after).2) := by
  induction before with
  | nil => exact fun _ => rfl
  | cons slot before ih =>
    intro st
    rw [List.cons_append, fillAll_cons, fillAll_cons, ih, List.append_assoc]

/-- Working off the queue ends in a state that was listed. -/
theorem Stage.drain {turns : Nat} (stage : Stage r s st taken queue)
    (drained : r.drain turns st taken queue = some (taken', st')) : Stage r s st' taken' [] := by
  induction turns generalizing st taken queue with
  | zero =>
    cases queue with
    | nil => cases drained; exact stage
    | cons id queue => cases drained
  | succ turns ih =>
    cases queue with
    | nil => cases drained; exact stage
    | cons id queue =>
      rw [drain_cons] at drained
      split at drained
      · rename_i known
        exact ih (stage.drop known) drained
      · rename_i new
        exact ih (stage.take (Bool.not_eq_true _ ▸ new) rfl rfl) drained

/-! ## The books are in order -/

theorem Stage.drains (stage : Stage r s st taken queue) :
    ∃ done, Drains r (.register s) s.roots st done taken queue := by
  induction stage with
  | start rooted =>
    obtain ⟨xs, -, -, drains⟩ := roots_start r s
    rw [rooted] at drains
    exact ⟨[], drains⟩
  | drop _ known ih =>
    obtain ⟨done, drains⟩ := ih
    exact ⟨done, drains.drop (isSome_lookup.mp known)⟩
  | @take st st' taken id queue n edges _ new node filled ih =>
    obtain ⟨done, drains⟩ := ih
    have out : id ∉ taken.map Prod.fst := fun mem => by
      rw [isSome_lookup.mpr mem] at new
      cases new
    obtain ⟨-, p, -, -, drains'⟩ := drains.take (BindingTable.numbered_register s) out
    rw [node, filled] at drains'
    exact ⟨p :: done, drains'⟩

theorem Meets.books (meets : Meets r s st q isOptional) :
    ∃ asked told, Books r (.register s) st asked told := by
  have numbered := BindingTable.numbered_register s
  cases meets with
  | @root before after d roots =>
    obtain ⟨-, -, -, -, asked, books, -⟩ :=
      resolveRoots_asks numbered before 0 (books_start r s)
    exact ⟨asked, _, books⟩
  | @slot st taken id queue n before after slot stage new node slots unpinned =>
    obtain ⟨done, drains⟩ := stage.drains
    obtain ⟨asked, books, -⟩ := drains.books
    obtain ⟨p, selected⟩ := drains.queued id List.mem_cons_self
    obtain ⟨n', -, node', -, meets⟩ := books.meets_slots selected
    obtain rfl := node.symm.trans node'
    rw [slots] at meets
    obtain ⟨-, -, -, -, asked', books', -⟩ :=
      fillAll_asks numbered n before books (List.forall₂_take_append _ _ _ meets)
    exact ⟨asked', _, books'⟩

end Resolver

end ObjectGraph
