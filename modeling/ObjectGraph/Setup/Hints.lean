import ObjectGraph.NameMap

/-
  Hints: behavioural switches of a setup.

  The compiler reads one of them, thread safety, and hands all of them on.
-/

namespace ObjectGraph

/-- Hints by key. -/
abbrev Hints := NameMap String

namespace Hints

/-- The hint that governs thread safety of the generated code. -/
def threadSafeKey : String := "ThreadSafe"

/-- Tells if a value switches something off: the word `off`, in any mix of capitals. -/
def isOff (value : String) : Bool := value.toList.map Char.toLower == ['o', 'f', 'f']

/-- Generated code is thread-safe unless the hint switches it off. -/
def isThreadSafe (h : Hints) : Bool :=
  match h.get? threadSafeKey with
  | some value => !isOff value
  | none => true

end Hints

end ObjectGraph
