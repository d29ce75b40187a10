/-
  The journal: what a run tells about itself while it works.

  A stage that has something to tell returns its entries beside its result, in the order in which
  they arose.  Nothing reads the journal to decide anything.
-/

namespace ObjectGraph

/-- How important an entry is, from the finest detail up. -/
inductive Journal.Level where
  /-- Single steps. -/
  | trace
  /-- Stages. -/
  | debug
  /-- Progress of a whole run. -/
  | info
  /-- What a user should look at. -/
  | warn
  deriving DecidableEq, Inhabited

/-- The place of a level in the order of importance. -/
def Journal.Level.rank : Level → Nat
  | .trace => 0
  | .debug => 1
  | .info => 2
  | .warn => 3

/-- One entry of the journal. -/
structure Journal.Entry where
  /-- Its level. -/
  level : Level
  /-- What it says. -/
  message : String
  /-- Further named values. -/
  fields : List (String × String) := []
  deriving DecidableEq, Inhabited

/-- Entries in the order in which they arose. -/
abbrev Journal := Array Journal.Entry

namespace Journal

/-- A journal of one trace entry. -/
def trace (message : String) : Journal := #[{ level := .trace, message }]

/-- A journal of one debug entry. -/
def debug (message : String) : Journal := #[{ level := .debug, message }]

/-- A journal of one info entry. -/
def info (message : String) : Journal := #[{ level := .info, message }]

/-- A journal of one warning with further named values. -/
def warn (message : String) (fields : List (String × String)) : Journal :=
  #[{ level := .warn, message, fields }]

/-- The entries of a level or above. -/
def atLeast (j : Journal) (level : Level) : Journal := j.filter (level.rank ≤ ·.level.rank)

end Journal

/-! ## Quoted texts -/

/-- The escape of a character inside quotes, for those that do not stand for themselves. -/
def quotedEscape? : Char → Option String
  | '"' => some "\\\""
  | '\\' => some "\\\\"
  | '\t' => some "\\t"
  | '\n' => some "\\n"
  | '\r' => some "\\r"
  | '\x00' => some "\\0"
  | c =>
    if c < ' ' || c == '\x7f' then
      some ("\\u\x7b" ++ String.ofList (Nat.toDigits 16 c.toNat) ++ "\x7d")
    else none

/-- A text in quotes.  Quotes, backslashes and the control characters of ASCII are escaped. -/
def quoted (text : String) : String :=
  "\"" ++ String.join (text.toList.map fun c => (quotedEscape? c).getD c.toString) ++ "\""

/-- The texts in quotes, between brackets. -/
def quotedList (texts : List String) : String :=
  "[" ++ ", ".intercalate (texts.map quoted) ++ "]"

end ObjectGraph
