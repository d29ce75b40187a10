import ObjectGraph.Lifetime
import ObjectGraph.Recipe

/-
  Bindings: one type bound to one recipe.

  A declaration that binds several types gives rise to several bindings.  They share their storage
  key, so that a singleton bound to two types is still made once.
-/

namespace ObjectGraph

/-- The place of a binding in its table. -/
abbrev BindingId := Nat

/-- Storage identity: bindings with one key hold their instances in one place. -/
abbrev BindingKey := Nat

/-- What a binding goes back to. -/
inductive Binding.Source where
  /-- The declaration at an index of the setup. -/
  | declared (index : Nat)
  /-- The fallback request of a running number. -/
  | fallback (number : Nat)
  deriving DecidableEq, Inhabited

/-- The number of a source: declarations count up from zero, fallback requests down from the
    greatest 64-bit number. -/
def Binding.Source.number : Source → Nat
  | declared index => index
  | fallback number => UInt64.size - 1 - number

/-- One type bound to one recipe. -/
structure Binding where
  /-- Its place in the table. -/
  id : BindingId
  /-- Its storage key. -/
  key : BindingKey
  /-- What it goes back to. -/
  source : Binding.Source
  /-- The bound type. -/
  contract : TypeTerm
  /-- The tags that it answers; none means untagged. -/
  tags : List Tag
  /-- The lifetime of the instances. -/
  lifetime : Lifetime
  /-- How instances come about. -/
  recipe : Recipe
  /-- Where it was declared. -/
  location : Location
  /-- The generic binding that this one specializes. -/
  specializes : Option BindingId
  deriving DecidableEq, Inhabited

namespace Binding

/-- The type of the instances, which can differ from the bound type. -/
def instanceType (b : Binding) : TypeTerm := b.recipe.type?.getD b.contract

/-! ## Tags -/

/-- Tells if a list of tags answers untagged requests of its own accord. -/
def isUntagged (tags : List Tag) : Bool := tags.isEmpty || tags.contains .untagged

/-- How well a list of tags fits a requested one: 0 for the tag itself, 1 for the wildcard, 2 for
    an untagged default, nothing if it does not fit. -/
def tagRank? (tags : List Tag) (requested : Tag) : Option Nat :=
  if tags.contains requested || (isUntagged tags && requested == .untagged) then some 0
  else if tags.contains .any then some 1
  else if isUntagged tags then some 2
  else none

/-- How well a binding fits a requested tag. -/
def rank? (b : Binding) (requested : Tag) : Option Nat := tagRank? b.tags requested

end Binding

end ObjectGraph
