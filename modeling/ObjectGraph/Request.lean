import ObjectGraph.Type.Term

/-
  Requests: what a member, a root or a factory asks for.

  A request names a type and a tag.  Tags tell apart several bindings of one type; the wildcard tag
  is only meaningful on the answering side.
-/

namespace ObjectGraph

/-- A tag that tells bindings of one type apart. -/
inductive Tag where
  /-- No tag at all. -/
  | untagged
  /-- A tag of the given name. -/
  | named (name : String)
  /-- The wildcard, which answers every tag. -/
  | any
  deriving DecidableEq, Inhabited

namespace Tag

/-- Untagged first, then the names in their order, the wildcard last. -/
def cmp : Tag → Tag → Ordering
  | .untagged, .untagged => .eq
  | .untagged, _ => .lt
  | .named _, .untagged => .gt
  | .named a, .named b => compare a b
  | .named _, .any => .lt
  | .any, .any => .eq
  | .any, _ => .gt

instance : Ord Tag := ⟨cmp⟩

/-- The text of a tag: `null`, the quoted name, or `*`. -/
def text : Tag → String
  | .untagged => "null"
  | .named name => "\"" ++ name ++ "\""
  | .any => "*"

instance : ToString Tag := ⟨text⟩

end Tag

/-- A request for an instance of a type under a tag. -/
structure Request where
  /-- The requested type. -/
  type : TypeTerm
  /-- The requested tag. -/
  tag : Tag
  deriving DecidableEq, Inhabited

namespace Request

/-- The text of a request: the type, followed by the tag in parentheses if there is one. -/
def text (r : Request) : String :=
  match r.tag with
  | .untagged => r.type.text
  | tag => r.type.text ++ "(" ++ tag.text ++ ")"

instance : ToString Request := ⟨text⟩

end Request

end ObjectGraph
