import ObjectGraph.Settings.Json

/-
  Settings of a batch run.

  Settings come from the text of a settings file and from environment variables, which win.  The
  names of the variables are taken in small letters and have to begin with a given text.  What is
  said about a setting counts only if nothing later is said about it, and has to be a truth value.

  The text is read by `Json`.  Everything else takes the `Settings` as they are, wherever they come
  from.
-/

namespace ObjectGraph

/-- Settings of a batch run. -/
structure Settings where
  /-- Whether the run keeps its journal to itself. -/
  installsLogger : Bool := true
  /-- Whether the first failure cancels the compilations that follow. -/
  failFast : Bool := true
  /-- Whether the standard setup is part of every composition. -/
  includesStandard : Bool := true
  deriving DecidableEq, Inhabited

namespace Settings

/-- Why settings cannot be loaded. -/
inductive Error where
  /-- The file is no JSON text. -/
  | malformed
  /-- What is said about a setting is no truth value. -/
  | notBoolean (setting : String)
  deriving DecidableEq, Inhabited

/-! ## Truth values -/

/-- The words for a truth value. -/
def word? (text : String) : Option Bool :=
  let lower := String.ofList (text.toList.map Char.toLower)
  if lower ∈ ["1", "true", "on", "yes"] then some true
  else if lower ∈ ["0", "false", "off", "no"] then some false
  else none

/-- Reads what is said about a setting.  Null says nothing. -/
def truth? (setting : String) : Json → Except Error (Option Bool)
  | .null => .ok none
  | .bool b => .ok (some b)
  | .number d => .ok (some !d.isZero)
  | .string text =>
    match word? text with
    | some b => .ok (some b)
    | none => .error (.notBoolean setting)
  | .array _ | .object _ => .error (.notBoolean setting)

/-! ## Keys -/

/-- The characters of a name in a key. -/
def isNameChar (c : Char) : Bool :=
  c.isAlphanum || c == ' ' || c == '_' || c == '-'

/-- Skips the characters that may stand around an index. -/
def skipSpaces (text : List Char) : List Char := text.dropWhile fun c => c == ' ' || c == '\t'

/-- Reads the index in brackets up to its closing bracket.  An index may be negative and has to fit
    in 64 bits; only the rest of the text is of interest. -/
def afterIndex? (text : List Char) : Option (List Char) :=
  let text := skipSpaces text
  let isNegative := text.head? == some '-'
  let (index, rest) := (if isNegative then text.drop 1 else text).span Char.isDigit
  let limit := if isNegative then Nat.pow 2 63 else Nat.pow 2 63 - 1
  match skipSpaces rest with
  | ']' :: rest =>
    if !index.isEmpty && Json.decimalValue index ≤ limit then some rest else none
  | _ => none

/-- Tells if a text continues a key to a place inside a setting: names after points and indices in
    brackets.  Each step takes a character, so the length of the text is enough for `steps`. -/
def isPath : (steps : Nat) → List Char → Bool
  | _, [] => true
  | 0, _ => false
  | steps + 1, '.' :: rest =>
    let (name, rest) := rest.span isNameChar
    !name.isEmpty && isPath steps rest
  | steps + 1, '[' :: rest =>
    match afterIndex? rest with
    | some rest => isPath steps rest
    | none => false
  | _, _ => false

/-- What a key with a value says about a setting.  A key that leads to a place inside the setting
    makes it a structure. -/
def about? (setting : String) (key : String) (value : Json) : Option Json :=
  if key == setting then some value
  else
    let (name, rest) := key.toList.span isNameChar
    if String.ofList name == setting && isPath rest.length rest then some (.object []) else none

/-- The last thing that is said about a setting. -/
def lastSaid (entries : List (String × Json)) (setting : String) : Json :=
  (entries.reverse.findSome? fun e => about? setting e.1 e.2).getD .null

/-! ## Sources -/

/-- Sets a variable; a variable that is there already keeps its place. -/
def setVariable (name value : String) : List (String × String) → List (String × String)
  | [] => [(name, value)]
  | (other, kept) :: rest =>
    if other = name then (name, value) :: rest else (other, kept) :: setVariable name value rest

/-- The small letter of a character, as far as it can occur in a key.  The Kelvin sign is the one
    character beyond ASCII whose small letter belongs to it. -/
def smallLetter (c : Char) : Char := if c == '\u212a' then 'k' else c.toLower

/-- What environment variables say: those whose name, in small letters, begins with the given text
    speak about the rest of their name. -/
def ofEnvironment (start : String) (environment : List (String × String)) : List (String × Json) :=
  let set := environment.foldl (fun env v => setVariable v.1 v.2 env) []
  set.filterMap fun (name, value) =>
    let lower := name.toList.map smallLetter
    if start.toList.isPrefixOf lower then
      some (String.ofList (lower.drop start.length), .string value)
    else none

/-- What the text of a settings file says.  A value other than an object says nothing. -/
def ofFile (text : String) : Except Error (List (String × Json)) :=
  match Json.parse? text with
  | some (.object members) => .ok members
  | some _ => .ok []
  | none => .error .malformed

/-- The settings that entries describe, from the first to the last. -/
def ofEntries (entries : List (String × Json)) : Except Error Settings := do
  let read (setting : String) (standard : Bool) : Except Error Bool := do
    return (← truth? setting (lastSaid entries setting)).getD standard
  let installsLogger ← read "install_tracing_logger" true
  let failFast ← read "fail_fast" true
  let includesStandard ← read "include_default_setup" true
  return { installsLogger, failFast, includesStandard }

/-- Loads settings from a settings file, if there is one, and from environment variables. -/
def load (start : String) (file : Option String) (environment : List (String × String)) :
    Except Error Settings := do
  let fromFile ← match file with
    | some text => ofFile text
    | none => .ok []
  ofEntries (fromFile ++ ofEnvironment start environment)

end Settings

end ObjectGraph
