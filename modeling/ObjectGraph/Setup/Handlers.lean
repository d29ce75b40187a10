import ObjectGraph.Journal
import ObjectGraph.Setup.Basic
import ObjectGraph.Type.Oracle

/-
  The chain of fallback handlers.

  Handlers are registered one after another and asked from the last to the first.  A handler for
  the same type and tag as an earlier one takes its place at the end of the chain, so the chain
  holds one handler for each type and tag.
-/

namespace ObjectGraph

/-- Handlers in the order of their registration. -/
abbrev HandlerChain := List Handler

namespace HandlerChain

/-- Tells if two handlers serve the same type and tag. -/
def sameKey (a b : Handler) : Bool := a.type == b.type && a.tag == b.tag

/-- The chain with one more handler, which replaces those of the same type and tag. -/
def register (chain : HandlerChain) (h : Handler) : HandlerChain :=
  chain.filter (!sameKey · h) ++ [h]

/-- The chain of a list of handlers. -/
def ofList (handlers : List Handler) : HandlerChain := handlers.foldl register []

/-- Tells if a handler can serve a request. -/
def serves (ts : TypeOracle) (r : Request) (h : Handler) : Bool :=
  (ts.isMarker h.type || h.type == r.type || (ts.unify h.type r.type).isSome) &&
    (h.tag == .any || h.tag == r.tag)

/-- The handler registered last among those that can serve a request. -/
def find? (chain : HandlerChain) (ts : TypeOracle) (r : Request) : Option Handler :=
  chain.reverse.find? (serves ts r)

/-- What registering a handler tells: it speaks up when others are replaced. -/
def registerJournal (chain : HandlerChain) (h : Handler) : Journal :=
  if chain.any (sameKey · h) then
    Journal.debug s!"Fallback {h.name} replaces previous handlers for {h.type}."
  else #[]

/-- What registering handlers one after another tells. -/
def registerAllJournal : (chain : HandlerChain) → List Handler → Journal
  | _, [] => #[]
  | chain, h :: hs => chain.registerJournal h ++ registerAllJournal (chain.register h) hs

end HandlerChain

end ObjectGraph
