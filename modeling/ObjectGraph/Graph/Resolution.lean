import ObjectGraph.Binding.Match
import ObjectGraph.Graph.Cycle
import ObjectGraph.Node.Build
import ObjectGraph.Setup.Handlers

/-
  Resolution: from the bindings of a setup to its graph.

  The roots are answered first.  Then the nodes reached so far are taken in turn, each slot is
  answered, and the nodes that fill the slots join the queue.  Bindings that no root reaches are
  never looked at.  All faults are collected on the way.

  A generic binding can request ever larger types, so the queue need not run empty.  `resolve`
  therefore takes the number of turns that may be used up, and answers nothing when they do not
  suffice; a larger number never changes an answer.
-/

namespace ObjectGraph

/-- What resolution needs to know besides the bindings. -/
structure Resolver where
  /-- What is asked about types. -/
  types : TypeOracle
  /-- The attribute rules. -/
  rules : List AttributeRule := []
  /-- The fallback handlers. -/
  handlers : HandlerChain := []

/-- The bindings and nodes of a resolution in progress. -/
structure Resolution where
  /-- The bindings. -/
  table : BindingTable
  /-- The nodes built so far. -/
  nodes : Array Node := #[]
  /-- The node selected for each binding that was asked for; none if it could not be built. -/
  selected : List (BindingId × Option NodeId) := []
  /-- The faults found so far. -/
  faults : List Fault := []
  /-- What there was to tell so far. -/
  journal : Journal := #[]

/-- How a request is answered. -/
inductive Answer where
  /-- By a node. -/
  | node (id : NodeId)
  /-- By a binding that could not be built; its faults are reported already. -/
  | failed
  /-- Not at all. -/
  | missing
  deriving DecidableEq, Inhabited

namespace Resolver

/-- Tells if there is anything to answer a request: a binding, a handler or the last resort. -/
def canAnswer (r : Resolver) (t : BindingTable) (q : Request) : Bool :=
  (t.bestMatch? r.types false q).isSome || (r.handlers.find? r.types q).isSome ||
    (t.bestMatch? r.types true q).isSome

/-! ## Nodes of a binding -/

/-- The binding itself or, when it is generic, its specialization. -/
def instantiate (st : Resolution) (id : BindingId) (isGeneric : Bool) (s : Substitution) :
    BindingId × Resolution :=
  if isGeneric then
    let (specialized, table) := st.table.specialize id s
    (specialized,
      { st with table, journal := st.journal ++ st.table.specializationJournal id s })
  else (id, st)

/-- Turns the bindings that match the element type of a collection into its items.  An item is
    requested under the first tag of its binding. -/
def items (st : Resolution) (r : Resolver) (element : TypeTerm) :
    List (Binding × Substitution) → List (Request × BindingId) × Resolution
  | [] => ([], st)
  | (b, s) :: rest =>
    let (id, st) := instantiate st b.id (r.types.isOpen b.contract) s
    let (others, st) := items st r element rest
    ((⟨element, b.tags.head?.getD .untagged⟩, id) :: others, st)

/-- Fills in the items of a collection node; other nodes stay as they are. -/
def collect (r : Resolver) (st : Resolution) (n : Node) : Node × Resolution :=
  match n.kind with
  | .provide p =>
    match p.kind.isCollection, p.type.element? with
    | true, some element =>
      let (items, st) := items st r element (st.table.itemMatches r.types element)
      let told := Journal.trace s!"Collected {items.length} item(s) for {p.type}."
      ({ n with kind := .provide { p with items } }, { st with journal := st.journal ++ told })
    | _, _ => (n, st)
  | _ => (n, st)

/-- Fills in the items of all collections among the nodes. -/
def collectAll (r : Resolver) (st : Resolution) : List Node → List Node × Resolution
  | [] => ([], st)
  | n :: rest =>
    let (n, st) := r.collect st n
    let (others, st) := r.collectAll st rest
    (n :: others, st)

/-- Tells if every slot of a node can be filled or may stay empty. -/
def isSatisfiable (r : Resolver) (t : BindingTable) (n : Node) : Bool :=
  n.slots.all fun slot => slot.isOptional || slot.pinned.isSome || r.canAnswer t slot.request

/-- The first node that is satisfiable, or the first one if none is. -/
def preferred (r : Resolver) (t : BindingTable) (nodes : List Node) : Option Node :=
  (nodes.find? (r.isSatisfiable t)).or nodes.head?

/-- Builds the nodes of a binding and selects one of them. -/
def build (r : Resolver) (st : Resolution) (b : Binding) : Option NodeId × Resolution :=
  let built := Node.build r.rules (r.canAnswer st.table) st.nodes.size b
  let st := { st with journal := st.journal ++ Node.buildJournal b built }
  match built with
  | .error faults => (none, { st with faults := st.faults ++ faults })
  | .ok nodes =>
    let (nodes, st) := r.collectAll st nodes
    let selected := r.preferred st.table nodes
    let told := match selected with
      | some n => Journal.trace s!"Selected variant {n.variant} of {b.contract}."
      | none => #[]
    (selected.map (·.id),
      { st with nodes := st.nodes ++ nodes.toArray, journal := st.journal ++ told })

/-- The node selected for a binding, which is built when it is first asked for. -/
def select (r : Resolver) (st : Resolution) (id : BindingId) : Answer × Resolution :=
  match st.selected.lookup id with
  | some (some node) => (.node node, st)
  | some none => (.failed, st)
  | none =>
    let (node, st) := match st.table.binding? id with
      | some b => r.build st b
      | none => (none, st)
    let st := { st with selected := (id, node) :: st.selected }
    (match node with
      | some node => .node node
      | none => .failed, st)

/-! ## Requests -/

/-- The binding that answers a request: the best match, specialized if it is generic. -/
def findBinding (r : Resolver) (st : Resolution) (lastResort : Bool) (q : Request) :
    Option BindingId × Resolution :=
  match st.table.bestMatch? r.types lastResort q with
  | none => (none, st)
  | some m =>
    let (id, st) := instantiate st m.id m.isGeneric m.substitution
    (some id, st)

/-- Answers a request by a binding, by a fallback handler, or by the last resort.  An optional
    request is left to its default value when no binding matches. -/
def answer (r : Resolver) (st : Resolution) (q : Request) (isOptional : Bool) :
    Answer × Resolution :=
  match r.findBinding st false q with
  | (some id, st) => r.select st id
  | (none, st) =>
    if isOptional then (.missing, st)
    else
      match r.handlers.find? r.types q with
      | some h =>
        let (id, table) := st.table.addFallback h q
        r.select { st with table } id
      | none =>
        match r.findBinding st true q with
        | (some id, st) => r.select st id
        | (none, st) => (.missing, st)

/-- Answers a slot of a node.  A pinned slot takes the binding that it is pinned to. -/
def fill (r : Resolver) (st : Resolution) (n : Node) (slot : Slot) : Option Edge × Resolution :=
  let (answer, st) := match slot.pinned with
    | some id => r.select st id
    | none => r.answer st slot.request slot.isOptional
  match answer with
  | .node source =>
    let told := Journal.trace
      s!"{n} slot {slot.index} resolved as {(st.nodes.getD source default).text}."
    (some { target := n.id, slot := slot.index, request := slot.request, source },
      { st with journal := st.journal ++ told })
  | .failed => (none, st)
  | .missing =>
    if slot.isOptional then
      let told := Journal.trace s!"{n} slot {slot.index} left to its default value."
      (none, { st with journal := st.journal ++ told })
    else
      (none, { st with faults := st.faults ++ [.missingBinding slot.request n.text n.location] })

/-- Answers slots in order and lists the edges of those that are filled. -/
def fillAll (r : Resolver) (st : Resolution) (n : Node) : List Slot → List Edge × Resolution
  | [] => ([], st)
  | slot :: rest =>
    let (edge, st) := r.fill st n slot
    let (edges, st) := r.fillAll st n rest
    (edge.toList ++ edges, st)

/-! ## Roots -/

/-- Answers the declared roots, numbered from `index` on. -/
def resolveRoots (r : Resolver) (st : Resolution) (index : Nat) :
    List RootDeclaration → List Root × Resolution
  | [] => ([], st)
  | d :: rest =>
    let (answer, st) := r.answer st d.request false
    let (root, st) : Option Root × Resolution := match answer with
      | .node node =>
        (some { name := d.name, node, request := d.request, index,
                exposure := d.exposure, location := d.location }, st)
      | .failed => (none, st)
      | .missing =>
        (none, { st with
          faults := st.faults ++
            [.missingBinding d.request s!"the composition root {d.name}" d.location] })
    let (roots, st) := r.resolveRoots st (index + 1) rest
    (root.toList ++ roots, st)

/-! ## The queue -/

/-- The nodes taken so far with their edges, latest first. -/
abbrev Taken := List (NodeId × List Edge)

/-- Takes the nodes of a queue in turn, each one once, until the queue is empty. -/
def drain (r : Resolver) : (turns : Nat) → Resolution → Taken → (queue : List NodeId) →
    Option (Taken × Resolution)
  | _, st, taken, [] => some (taken, st)
  | 0, _, _, _ :: _ => none
  | turns + 1, st, taken, id :: queue =>
    if (taken.lookup id).isSome then r.drain turns st taken queue
    else
      let n := st.nodes.getD id default
      let (edges, st) := r.fillAll st n n.slots
      r.drain turns st ((id, edges) :: taken) (queue ++ edges.map (·.source))

/-- The graph of a finished resolution. -/
def graph (s : Setup) (roots : List Root) (taken : Taken) (st : Resolution) : Graph :=
  let edges := (List.range st.nodes.size).map fun id => (taken.lookup id).getD []
  { name := s.name
    nodes := st.nodes
    bindings := st.table.bindings
    edges := edges.toArray
    incoming := Edge.incoming st.nodes.size edges.flatten
    roots
    hints := s.hints
    accumulators := s.accumulators }

/-- A resolution that came to its end. -/
structure Outcome where
  /-- The graph, or the faults. -/
  result : Except (List Fault) Graph
  /-- What there was to tell. -/
  journal : Journal

/-- Resolves the roots of a setup against a table of bindings.  Cycles count as faults. -/
def resolve (r : Resolver) (turns : Nat) (t : BindingTable) (s : Setup) : Option Outcome := do
  let (roots, st) := r.resolveRoots { table := t } 0 s.roots
  let (taken, st) ← r.drain turns st [] (roots.map (·.node))
  let g := graph s roots taken st
  let told := Journal.debug
    s!"Resolved {roots.length} root(s) of {s.name} using {taken.length} node(s)."
  let faults := st.faults ++ g.cycleFaults
  return {
    result := if faults.isEmpty then .ok g else .error faults
    journal := st.journal ++ told ++ g.cycleJournal }

end Resolver

end ObjectGraph
