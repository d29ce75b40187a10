import ObjectGraph.Settings.Double

/-
  JSON text, as far as settings need it.

  The reader takes exactly the JSON grammar: no comments, no trailing commas, no control characters
  and no unpaired surrogates in strings.  Containers may be nested 127 deep.

  A number is read as a double.  Its digits count for as long as they make a number of 64 bits; those
  that follow only count as places.  A number that is too large for a double is refused.

  This reader stands for the library by which settings are loaded, which is no part of the compiler.
  Nothing is shown about it and nothing depends on it: a batch run takes the `Settings` that were
  loaded as a parameter, and what is shown of it holds for all of them.
-/

namespace ObjectGraph

/-- A JSON value. -/
inductive Json where
  /-- Null. -/
  | null
  /-- A truth value. -/
  | bool (value : Bool)
  /-- A number, of which the sign is dropped. -/
  | number (value : Double)
  /-- A text. -/
  | string (value : String)
  /-- A list of values. -/
  | array (items : List Json)
  /-- Named values in the order in which they are written. -/
  | object (members : List (String × Json))
  deriving Inhabited

namespace Json

/-- What is left of a text after a value was read from its front. -/
abbrev Reader (α : Type) := List Char → Option (α × List Char)

/-- The characters that may stand between tokens. -/
def isBlank (c : Char) : Bool := c == ' ' || c == '\n' || c == '\r' || c == '\t'

/-- Skips blank characters. -/
def skipBlanks (text : List Char) : List Char := text.dropWhile isBlank

/-! ## Strings -/

/-- The value of a hexadecimal digit. -/
def hexDigit? (c : Char) : Option Nat :=
  if '0' ≤ c ∧ c ≤ '9' then some (c.toNat - '0'.toNat)
  else if 'a' ≤ c ∧ c ≤ 'f' then some (c.toNat - 'a'.toNat + 10)
  else if 'A' ≤ c ∧ c ≤ 'F' then some (c.toNat - 'A'.toNat + 10)
  else none

/-- The value of four hexadecimal digits. -/
def hexValue? (a b c d : Char) : Option Nat := do
  let a ← hexDigit? a
  let b ← hexDigit? b
  let c ← hexDigit? c
  let d ← hexDigit? d
  return ((a * 16 + b) * 16 + c) * 16 + d

/-- Tells the first half of a surrogate pair. -/
def isHighSurrogate (n : Nat) : Bool := 0xD800 ≤ n && n < 0xDC00

/-- Tells the second half of a surrogate pair. -/
def isLowSurrogate (n : Nat) : Bool := 0xDC00 ≤ n && n < 0xE000

/-- The character of a surrogate pair. -/
def pairedChar (high low : Nat) : Char :=
  Char.ofNat (0x10000 + (high - 0xD800) * 0x400 + (low - 0xDC00))

/-- The character that a one-letter escape stands for. -/
def escaped? : Char → Option Char
  | '"' => some '"'
  | '\\' => some '\\'
  | '/' => some '/'
  | 'b' => some '\x08'
  | 'f' => some '\x0c'
  | 'n' => some '\n'
  | 'r' => some '\r'
  | 't' => some '\t'
  | _ => none

/-- Reads the rest of a string, up to its closing quote. -/
def characters : Reader (List Char)
  | [] => none
  | '"' :: rest => some ([], rest)
  | '\\' :: 'u' :: a :: b :: c :: d :: '\\' :: 'u' :: e :: f :: g :: h :: rest => do
    let unit ← hexValue? a b c d
    let next ← hexValue? e f g h
    if isHighSurrogate unit then
      if isLowSurrogate next then
        let (others, rest) ← characters rest
        return (pairedChar unit next :: others, rest)
      else none
    else if isLowSurrogate unit then none
    else
      let (others, rest) ← characters ('\\' :: 'u' :: e :: f :: g :: h :: rest)
      return (Char.ofNat unit :: others, rest)
  | '\\' :: 'u' :: a :: b :: c :: d :: rest => do
    let unit ← hexValue? a b c d
    if isHighSurrogate unit || isLowSurrogate unit then none
    else
      let (others, rest) ← characters rest
      return (Char.ofNat unit :: others, rest)
  | '\\' :: letter :: rest => do
    let c ← escaped? letter
    let (others, rest) ← characters rest
    return (c :: others, rest)
  | c :: rest => do
    if c < ' ' || c == '\\' then none
    let (others, rest) ← characters rest
    return (c :: others, rest)

/-! ## Numbers -/

/-- The value of a list of decimal digits. -/
def decimalValue (digits : List Char) : Nat :=
  digits.foldl (fun n c => n * 10 + (c.toNat - '0'.toNat)) 0

/-- Reads at least one digit. -/
def digits : Reader (List Char) := fun text =>
  let (found, rest) := text.span fun c => '0' ≤ c && c ≤ '9'
  if found.isEmpty then none else some (found, rest)

/-- Reads the whole part of a number.  A zero stands alone. -/
def wholePart : Reader (List Char) := fun text => do
  let (found, rest) ← digits text
  if found.head? == some '0' && found.length > 1 then none
  return (found, rest)

/-- Reads the fraction of a number, if there is one. -/
def fraction : Reader (List Char)
  | '.' :: rest => digits rest
  | text => some ([], text)

/-- Reads the exponent of a number, if there is one. -/
def exponent : Reader Int
  | c :: rest =>
    if c == 'e' || c == 'E' then
      let (sign, rest) : Int × List Char := match rest with
        | '+' :: rest => (1, rest)
        | '-' :: rest => (-1, rest)
        | rest => (1, rest)
      (digits rest).map fun (found, rest) => (sign * (decimalValue found : Int), rest)
    else some (0, c :: rest)
  | [] => some (0, [])

/-- Appends decimal digits to a number for as long as it stays within 64 bits.  The second answer is
    the number of digits left over. -/
def appendDigits (n : Nat) : List Char → Nat × Nat
  | [] => (n, 0)
  | c :: rest =>
    let longer := n * 10 + (c.toNat - '0'.toNat)
    if longer < UInt64.size then appendDigits longer rest else (n, rest.length + 1)

/-- The double that the digits before the point, those after it and a power of ten make.  After a
    whole part of which digits are left over, those of the fraction may still fit. -/
def double? (whole places : List Char) (power : Int) : Option Double :=
  let (n, skipped) := appendDigits 0 whole
  let (n, unread) := appendDigits n places
  Double.ofScaled? n (power + skipped - (places.length - unread : Nat))

/-- Reads a number. -/
def numeral : Reader Double := fun text => do
  let text := match text with
    | '-' :: rest => rest
    | text => text
  let (whole, text) ← wholePart text
  let (places, text) ← fraction text
  let (power, text) ← exponent text
  let d ← double? whole places power
  return (d, text)

/-! ## Values -/

/-- The text after a word that it has to begin with. -/
def afterWord (word : List Char) (text : List Char) : Option (List Char) :=
  if word.isPrefixOf text then some (text.drop word.length) else none

mutual

/-- Reads a value.  Each step takes a character or turns from a container to its content, so twice
    the length of the text is enough for `steps`.  `depth` counts the containers still allowed. -/
def value (steps depth : Nat) (text : List Char) : Option (Json × List Char) :=
  match steps with
  | 0 => none
  | steps + 1 =>
    match skipBlanks text with
    | 'n' :: rest => (afterWord ['u', 'l', 'l'] rest).map (.null, ·)
    | 't' :: rest => (afterWord ['r', 'u', 'e'] rest).map (.bool true, ·)
    | 'f' :: rest => (afterWord ['a', 'l', 's', 'e'] rest).map (.bool false, ·)
    | '"' :: rest => (characters rest).map fun (cs, rest) => (.string (String.ofList cs), rest)
    | '[' :: rest =>
      match depth with
      | 0 => none
      | depth + 1 =>
        match skipBlanks rest with
        | ']' :: rest => some (.array [], rest)
        | rest => (items steps depth rest).map fun (found, rest) => (.array found, rest)
    | '\x7b' :: rest =>
      match depth with
      | 0 => none
      | depth + 1 =>
        match skipBlanks rest with
        | '\x7d' :: rest => some (.object [], rest)
        | rest => (members steps depth rest).map fun (found, rest) => (.object found, rest)
    | text => (numeral text).map fun (d, rest) => (.number d, rest)

/-- Reads the items of an array, up to its closing bracket. -/
def items (steps depth : Nat) (text : List Char) : Option (List Json × List Char) :=
  match steps with
  | 0 => none
  | steps + 1 => do
    let (item, text) ← value steps depth text
    match skipBlanks text with
    | ',' :: rest =>
      let (others, rest) ← items steps depth rest
      return (item :: others, rest)
    | ']' :: rest => return ([item], rest)
    | _ => none

/-- Reads the members of an object, up to its closing brace. -/
def members (steps depth : Nat) (text : List Char) : Option (List (String × Json) × List Char) :=
  match steps with
  | 0 => none
  | steps + 1 => do
    let '"' :: text := skipBlanks text | none
    let (name, text) ← characters text
    let ':' :: text := skipBlanks text | none
    let (item, text) ← value steps depth text
    match skipBlanks text with
    | ',' :: rest =>
      let (others, rest) ← members steps depth rest
      return ((String.ofList name, item) :: others, rest)
    | '\x7d' :: rest => return ([(String.ofList name, item)], rest)
    | _ => none

end

/-- How deep containers may be nested. -/
def maxDepth : Nat := 127

/-- Reads a text that holds one value. -/
def parse? (text : String) : Option Json :=
  let cs := text.toList
  match value (2 * cs.length + 2) maxDepth cs with
  | some (json, rest) => if (skipBlanks rest).isEmpty then some json else none
  | none => none

end Json

end ObjectGraph
