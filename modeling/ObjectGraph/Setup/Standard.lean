import ObjectGraph.Setup.Basic

/-
  The standard setup, a global one that is merged into every composition unless it is turned off.

  It gives a meaning to three attribute types, binds the deferred `Func<TT>`, `Lazy<TT>` and the
  collections, and gathers disposable instances.
-/

namespace ObjectGraph.Setup.Standard

/-- The generic marker of the bindings below. -/
def marker : TypeTerm := .plain "TT"

/-- A type applied to the marker. -/
def ofMarker (name : String) : TypeTerm := ⟨name, [marker]⟩

/-- Binds a collection type, one instance for each block. -/
def collection (name : String) (kind : Builtin) : Declaration :=
  { contracts := [ofMarker name], lifetime := some .perBlock, recipe := .builtin kind }

/-- `Func<T>` asks for its `T` only when it is called. -/
def func : Declaration :=
  { contracts := [ofMarker "Func"]
    lifetime := some .perBlock
    recipe := .factory
      { name := "Func", type := ofMarker "Func", requests := [⟨marker, .untagged⟩],
        isDeferred := true } }

/-- `Lazy<T>` is made from a `Func<T>`. -/
def lazy : Declaration :=
  { contracts := [ofMarker "Lazy"]
    recipe := .factory
      { name := "Lazy", type := ofMarker "Lazy", requests := [⟨ofMarker "Func", .untagged⟩] } }

/-- Gathers disposable instances of the lifetimes that no storage of the composition keeps. -/
def disposables : Accumulator :=
  { name := "disposables", captured := .plain "IDisposable", type := .plain "Owned",
    lifetimes := [.transient, .perResolve, .perBlock] }

end Standard

/-- The standard setup. -/
def standard : Setup :=
  { name := "Default"
    kind := .global
    declarations :=
      [Standard.func, Standard.lazy, Standard.collection "IEnumerable" .enumerable,
       Standard.collection "Array" .array, Standard.collection "Span" .span]
    accumulators := [Standard.disposables]
    rules :=
      [{ role := .ordinal, type := .plain "OrdinalAttribute" },
       { role := .tag, type := .plain "TagAttribute" },
       { role := .type, type := .plain "TypeAttribute" }] }

end ObjectGraph.Setup
