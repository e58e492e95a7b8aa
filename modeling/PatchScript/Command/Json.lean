import PatchScript.Text.Class

/-!
# Values of JSON

The data format JSON, as far as settings need it: a number is read and its value is
forgotten.

A string can spell a character above U+FFFF as two escapes, the halves of a
*surrogate pair*.  A half that stands alone spells no character.  Such a string is
well-formed, but has no text.

Values nest, so `readValue` counts down a number of levels; the number of characters is
enough.
-/

namespace PatchScript.Command

/-- A value of JSON. -/
inductive Json where
  | null
  | boolean (b : Bool)
  | number
  /-- A string and its text, if it has one. -/
  | string (text : Option String)
  | array (items : List Json)
  | object (fields : List (Option String × Json))
deriving Inhabited

namespace Json

/-- A parser: it reads something from the front of a list of characters and gives the
characters behind it, unless it fails. -/
abbrev Parser (α : Type) := List Char → Option (α × List Char)

/-! ## Words -/

/-- Can the character stand between values? -/
def isSpace (c : Char) : Bool := c = ' ' || c = '\t' || c = '\n' || c = '\r'

/-- The characters without the space before them. -/
def skipSpace (cs : List Char) : List Char := cs.dropWhile isSpace

/-- Reads characters that have to stand first. -/
def word (wanted : String) : Parser Unit := fun cs =>
  if wanted.toList.isPrefixOf cs then some ((), cs.drop wanted.length) else none

/-! ## Numbers -/

/-- Is the character a digit? -/
def isDigit (c : Char) : Bool := '0' ≤ c && c ≤ '9'

/-- The characters behind digits, at least one of them. -/
def digits : List Char → Option (List Char)
  | c :: cs => if isDigit c then some (cs.dropWhile isDigit) else none
  | [] => none

/-- The characters behind the digits before the point, which start with a zero only if
they are one. -/
def wholePart : List Char → Option (List Char)
  | '0' :: c :: cs => if isDigit c then none else some (c :: cs)
  | cs => digits cs

/-- The characters behind a point and the digits after it, if there is a point. -/
def fraction : List Char → Option (List Char)
  | '.' :: cs => digits cs
  | cs => some cs

/-- The characters behind an exponent, if there is one. -/
def exponent : List Char → Option (List Char)
  | c :: cs =>
    if c = 'e' ∨ c = 'E' then
      match cs with
      | '+' :: cs | '-' :: cs => digits cs
      | cs => digits cs
    else some (c :: cs)
  | [] => some []

/-- Reads a number. -/
def readNumber : Parser Json := fun cs => do
  let cs := match cs with
    | '-' :: cs => cs
    | cs => cs
  let cs ← wholePart cs
  let cs ← fraction cs
  return (.number, ← exponent cs)

/-! ## Strings -/

/-- The value of a digit in base 16. -/
def hexValue (c : Char) : Option Nat :=
  if isDigit c then some (c.toNat - '0'.toNat)
  else if 'a' ≤ c ∧ c ≤ 'f' then some (c.toNat - 'a'.toNat + 10)
  else if 'A' ≤ c ∧ c ≤ 'F' then some (c.toNat - 'A'.toNat + 10)
  else none

/-- The number that four digits in base 16 denote. -/
def hexNumber (a b c d : Char) : Option Nat := do
  let high := (← hexValue a) * 16 + (← hexValue b)
  let low := (← hexValue c) * 16 + (← hexValue d)
  return high * 256 + low

/-- The character that a backslash and this one stand for. -/
def escaped? : Char → Option Char
  | '"' => some '"'
  | '\\' => some '\\'
  | '/' => some '/'
  | 'b' => some '\x08'
  | 'f' => some '\x0c'
  | 'n' => some '\n'
  | 'r' => some '\r'
  | 't' => some '\t'
  | _ => none

/-- The units of a string whose opening quote was read: numbers below 2 ^ 16 that
escapes gave, and characters. -/
def units : Parser (List (Nat ⊕ Char))
  | [] => none
  | '"' :: cs => some ([], cs)
  | '\\' :: 'u' :: a :: b :: c :: d :: cs => do
    let n ← hexNumber a b c d
    let (us, cs) ← units cs
    return (.inl n :: us, cs)
  | '\\' :: c :: cs => do
    let c ← escaped? c
    let (us, cs) ← units cs
    return (.inr c :: us, cs)
  | c :: cs => do
    if c = '\\' ∨ c.toNat < 0x20 then none
    let (us, cs) ← units cs
    return (.inr c :: us, cs)

/-- Is the number the first half of a pair? -/
def isHigh (n : Nat) : Bool := 0xd800 ≤ n && n < 0xdc00

/-- Is the number the second half of a pair? -/
def isLow (n : Nat) : Bool := 0xdc00 ≤ n && n < 0xe000

/-- The characters that units spell, unless a half of a pair stands alone. -/
def spelled : List (Nat ⊕ Char) → Option (List Char)
  | [] => some []
  | .inr c :: us => (spelled us).map (c :: ·)
  | .inl n :: .inl m :: us =>
    if isHigh n ∧ isLow m then
      (spelled us).map (Char.ofNat (0x10000 + (n - 0xd800) * 0x400 + (m - 0xdc00)) :: ·)
    else if isHigh n ∨ isLow n then none
    else (spelled (.inl m :: us)).map (Char.ofNat n :: ·)
  | .inl n :: us =>
    if isHigh n ∨ isLow n then none else (spelled us).map (Char.ofNat n :: ·)

/-- Reads the text of a string, if it has one. -/
def readString : Parser (Option String)
  | '"' :: cs => do
    let (us, cs) ← units cs
    return ((spelled us).map String.ofList, cs)
  | _ => none

/-! ## Values -/

/-- Reads items with commas between them up to a mark that ends them.  The first item
has to be there.  At most `steps` items are read. -/
def items {α : Type} (close : Char) (item : Parser α) : (steps : Nat) → Parser (List α)
  | 0, _ => none
  | n + 1, cs => do
    let (x, cs) ← item cs
    match skipSpace cs with
    | c :: cs =>
      if c = close then return ([x], cs)
      else if c = ',' then
        let (xs, cs) ← items close item n cs
        return (x :: xs, cs)
      else none
    | [] => none

/-- Reads items as `items` does, or none of them. -/
def someItems {α : Type} (close : Char) (item : Parser α) : Parser (List α) := fun cs =>
  match skipSpace cs with
  | c :: rest => if c = close then some ([], rest) else items close item (cs.length + 1) cs
  | [] => none

/-- Reads a field of an object. -/
def field (value : Parser Json) : Parser (Option String × Json) := fun cs => do
  let (key, cs) ← readString (skipSpace cs)
  let ((), cs) ← word ":" (skipSpace cs)
  let (v, cs) ← value cs
  return ((key, v), cs)

/-- Reads a value, and the space before it.  Values nest down to a number of levels. -/
def readValue : (levels : Nat) → Parser Json
  | 0, _ => none
  | n + 1, cs =>
    match skipSpace cs with
    | '[' :: cs => do
      let (xs, cs) ← someItems ']' (readValue n) cs
      return (.array xs, cs)
    | '\x7b' :: cs => do
      let (fs, cs) ← someItems '\x7d' (field (readValue n)) cs
      return (.object fs, cs)
    | '"' :: cs => do
      let (s, cs) ← readString ('"' :: cs)
      return (.string s, cs)
    | 'n' :: cs => do
      let ((), cs) ← word "ull" cs
      return (.null, cs)
    | 't' :: cs => do
      let ((), cs) ← word "rue" cs
      return (.boolean true, cs)
    | 'f' :: cs => do
      let ((), cs) ← word "alse" cs
      return (.boolean false, cs)
    | cs => readNumber cs

/-- The value that a text denotes. -/
def ofText? (s : String) : Option Json := do
  let (v, rest) ← readValue (s.length + 1) s.toList
  if (skipSpace rest).isEmpty then some v else none

end Json

end PatchScript.Command
