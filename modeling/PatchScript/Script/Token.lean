import PatchScript.Text.Location
import PatchScript.Text.Edit
import PatchScript.Text.Quoted

/-!
# Tokens of scripts

A script is a list of tokens.  A token has a kind, a text and the place it was
read at.  Keywords and operators are told by kind and text together, so that a
string that happens to spell `}` closes nothing.
-/

namespace PatchScript.Script

/-! ## Keywords and operators -/

/-- The words that are reserved. -/
inductive Keyword where
  | file | include | use | const | preset | change | changeOrAdd | add | remove | set | all | at
deriving DecidableEq

namespace Keyword

/-- Every keyword. -/
def every : List Keyword :=
  [.file, .include, .use, .const, .preset, .change, .changeOrAdd, .add, .remove, .set, .all, .at]

/-- The spelling a keyword has in tokens. -/
def spelling : Keyword → String
  | .file => "file"
  | .include => "include"
  | .use => "use"
  | .const => "const"
  | .preset => "preset"
  | .change => "change"
  | .changeOrAdd => "change_add"
  | .add => "add"
  | .remove => "remove"
  | .set => "set"
  | .all => "all"
  | .at => "at"

/-- The other spellings a keyword may have in a source. -/
def aliases : Keyword → List String
  | .changeOrAdd => ["change_or_add"]
  | .all => ["change_all"]
  | _ => []

/-- The keyword that a word of a source spells, in either case of letters. -/
def ofWord? (word : String) : Option Keyword :=
  every.find? fun k => (k.spelling :: k.aliases).any (Text.sameLetters · word)

/-- The keyword that has exactly this spelling in tokens. -/
def ofSpelling? (word : String) : Option Keyword := every.find? (·.spelling == word)

end Keyword

/-- The signs that stand between words. -/
inductive Operator where
  | openBrace | closeBrace | openParen | closeParen | minus | equals | comma
deriving DecidableEq

namespace Operator

/-- The operator that a character is. -/
def ofChar? (c : Char) : Option Operator :=
  if c = '\x7b' then some .openBrace
  else if c = '\x7d' then some .closeBrace
  else if c = '(' then some .openParen
  else if c = ')' then some .closeParen
  else if c = '-' then some .minus
  else if c = '=' then some .equals
  else if c = ',' then some .comma
  else none

/-- The character of an operator. -/
def char : Operator → Char
  | .openBrace => '\x7b'
  | .closeBrace => '\x7d'
  | .openParen => '('
  | .closeParen => ')'
  | .minus => '-'
  | .equals => '='
  | .comma => ','

/-- The name of an operator. -/
def name : Operator → String
  | .openBrace => "OpenBrace"
  | .closeBrace => "CloseBrace"
  | .openParen => "OpenParen"
  | .closeParen => "CloseParen"
  | .minus => "Minus"
  | .equals => "Equals"
  | .comma => "Comma"

@[simp] theorem ofChar?_char (op : Operator) : ofChar? op.char = some op := by
  cases op <;> rfl

theorem char_of_ofChar? {c : Char} {op : Operator} (h : ofChar? c = some op) : op.char = c := by
  unfold ofChar? at h
  repeat' split at h
  all_goals cases h
  all_goals simp_all [char]

end Operator

/-! ## Tokens -/

/-- The kinds of tokens. -/
inductive TokenKind where
  | keyword | string | number | operator | identifier | boolean
deriving DecidableEq, Inhabited

/-- The name of a kind of tokens. -/
def TokenKind.name : TokenKind → String
  | .keyword => "Keyword"
  | .string => "String"
  | .number => "Number"
  | .operator => "Operator"
  | .identifier => "Identifier"
  | .boolean => "Boolean"

/-- A token: its kind, its text and the stretch of the source it was read from. -/
structure Token where
  /-- The kind. -/
  kind : TokenKind
  /-- The text: of a string what stands between the quotes, of a keyword its
  spelling, of a number its value in decimal, and else what was read. -/
  text : String
  /-- The stretch of the source. -/
  span : Span
deriving DecidableEq, Inhabited

namespace Token

/-- The keyword that a token is. -/
def keyword? (t : Token) : Option Keyword :=
  if t.kind = .keyword then Keyword.ofSpelling? t.text else none

/-- Is the token this keyword? -/
def isKeyword (t : Token) (k : Keyword) : Bool := t.kind = .keyword && t.text == k.spelling

/-- Is the text of the token this one character? -/
def isChar (t : Token) (c : Char) : Bool := t.text.toList == [c]

/-- Is the token this operator? -/
def isOperator (t : Token) (op : Operator) : Bool := t.kind = .operator && t.isChar op.char

/-! ### Tokens as data -/

/-- A place as an object of JSON. -/
def locationJson (l : Location) : String :=
  "\x7b\"line\":" ++ toString l.line ++ ",\"column\":" ++ toString l.column ++ "\x7d"

/-- The token as an object of JSON. -/
def json (t : Token) : String :=
  "\x7b\"kind\":" ++ Text.json t.kind.name ++ ",\"text\":" ++ Text.json t.text
    ++ ",\"span\":\x7b\"start\":" ++ locationJson t.span.start
    ++ ",\"end\":" ++ locationJson t.span.stop ++ "\x7d\x7d"

/-- Tokens as an array of JSON. -/
def listJson (ts : List Token) : String := "[" ++ ",".intercalate (ts.map json) ++ "]"

end Token

end PatchScript.Script
