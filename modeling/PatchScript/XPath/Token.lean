import PatchScript.Text.Location
import PatchScript.Text.Edit
import PatchScript.Text.Quoted
import PatchScript.Number.Decimal

/-!
# Tokens of XPath

An expression is cut into tokens from the front.  Blanks are skipped.  Which
token comes is told by one character and, for the signs of two characters and
for points, by the one behind it.  A colon joins two names when a name follows
it, so that `a:b` is one token and `a::b` is three.
-/

namespace PatchScript.XPath

/-- A token of an expression. -/
inductive Token where
  | slash | doubleSlash | openBracket | closeBracket | openParen | closeParen
  | at | dot | dotDot | comma | pipe | star | plus | minus
  | equal | notEqual | less | lessOrEqual | greater | greaterOrEqual | doubleColon
  /-- A text between quotes. -/
  | literal (s : String)
  /-- A number. -/
  | number (x : Binary64)
  /-- A name, with a qualifier or not. -/
  | name (s : String)
deriving DecidableEq

/-- How messages show a token. -/
def Token.describe : Token → String
  | .slash => "Slash"
  | .doubleSlash => "DoubleSlash"
  | .openBracket => "OpenBracket"
  | .closeBracket => "CloseBracket"
  | .openParen => "OpenParen"
  | .closeParen => "CloseParen"
  | .at => "At"
  | .dot => "Dot"
  | .dotDot => "DotDot"
  | .comma => "Comma"
  | .pipe => "Pipe"
  | .star => "Star"
  | .plus => "Plus"
  | .minus => "Minus"
  | .equal => "Eq"
  | .notEqual => "NotEq"
  | .less => "Lt"
  | .lessOrEqual => "LtEq"
  | .greater => "Gt"
  | .greaterOrEqual => "GtEq"
  | .doubleColon => "ColonColon"
  | .literal s => "Literal(" ++ Text.visible s ++ ")"
  | .number x => "Number(" ++ x.renderPlainly ++ ")"
  | .name s => "Name(" ++ Text.visible s ++ ")"

/-- How messages show the token that was met, if there was one. -/
def Token.describeMet : Option Token → String
  | some t => "Some(" ++ t.describe ++ ")"
  | none => "None"

/-! ## What can go wrong -/

/-- Why a text is no expression. -/
inductive Fault where
  /-- A quote is opened and not closed. -/
  | openLiteral
  /-- A run of digits and points that denotes no number. -/
  | invalidNumber (word : String)
  /-- No token starts with this character. -/
  | unexpectedChar (c : Char)
  /-- The expression has ended, and a token follows. -/
  | trailing (found : Token)
  /-- Another token has to stand here. -/
  | expected (wanted : Token) (found : Option Token)
  /-- A node test has to stand here. -/
  | expectedTest (found : Option Token)
  /-- There is no axis of this name. -/
  | unknownAxis (name : String)
  /-- There is no node type of this name. -/
  | unknownNodeType (name : String)
  /-- The levels are used up, which `parse` never lets happen. -/
  | levels
deriving DecidableEq

/-- The wording of a cause. -/
def Fault.detail : Fault → String
  | .openLiteral => "unterminated literal"
  | .invalidNumber word => "invalid number \"" ++ word ++ "\""
  | .unexpectedChar c => "unexpected character '" ++ String.ofList [c] ++ "'"
  | .trailing found => "unexpected trailing token " ++ found.describe
  | .expected wanted found =>
    "expected " ++ wanted.describe ++ ", found " ++ Token.describeMet found
  | .expectedTest found => "expected node test, found " ++ Token.describeMet found
  | .unknownAxis name => "unknown axis \"" ++ name ++ "\""
  | .unknownNodeType name => "unknown node type \"" ++ name ++ "\""
  | .levels => "nested too deeply"

/-! ## Cutting an expression -/

/-- Can a name start with the character? -/
def isNameStart (c : Char) : Bool := Text.isAlphabetic c || c == '_'

/-- Can the character stand in a name? -/
def isNamePart (c : Char) : Bool :=
  Text.isAlphanumeric c || c == '_' || c == '-' || c == '.'

/-- Digits and points make numbers. -/
def isNumberPart (c : Char) : Bool := Text.isDigit c || c == '.'

/-- The rest of a name.  A colon is part of it if a name starts behind it. -/
def nameRest : List Char → List Char
  | [] => []
  | c :: cs =>
    if isNamePart c || (c == ':' && (cs.take 1).any isNameStart) then c :: nameRest cs else []

/-- The token at the front of an expression that starts with `c`, which is not
blank, and how many characters it takes. -/
def front (c : Char) (cs : List Char) : Except Fault (Token × Nat) :=
  let next := cs.head?
  if c = '/' then .ok (if next = some '/' then (.doubleSlash, 2) else (.slash, 1))
  else if c = '[' then .ok (.openBracket, 1)
  else if c = ']' then .ok (.closeBracket, 1)
  else if c = '(' then .ok (.openParen, 1)
  else if c = ')' then .ok (.closeParen, 1)
  else if c = '@' then .ok (.at, 1)
  else if c = ',' then .ok (.comma, 1)
  else if c = '|' then .ok (.pipe, 1)
  else if c = '*' then .ok (.star, 1)
  else if c = '+' then .ok (.plus, 1)
  else if c = '-' then .ok (.minus, 1)
  else if c = '=' then .ok (.equal, 1)
  else if c = '!' ∧ next = some '=' then .ok (.notEqual, 2)
  else if c = '<' then .ok (if next = some '=' then (.lessOrEqual, 2) else (.less, 1))
  else if c = '>' then .ok (if next = some '=' then (.greaterOrEqual, 2) else (.greater, 1))
  else if c = ':' ∧ next = some ':' then .ok (.doubleColon, 2)
  else if c = '.' ∧ next = some '.' then .ok (.dotDot, 2)
  else if c = '.' ∧ !next.any Text.isDigit then .ok (.dot, 1)
  else if c = '\'' ∨ c = '"' then
    let text := cs.takeWhile (· != c)
    if text.length < cs.length then .ok (.literal (String.ofList text), text.length + 2)
    else .error .openLiteral
  else if isNumberPart c then
    let word := (c :: cs).takeWhile isNumberPart
    match Decimal.number? word with
    | some x => .ok (.number x, word.length)
    | none => .error (.invalidNumber (String.ofList word))
  else if isNameStart c then
    let word := c :: nameRest cs
    .ok (.name (String.ofList word), word.length)
  else .error (.unexpectedChar c)

/-- The tokens of an expression.  `skip` counts the characters that still belong to
the token last read, and `done` are the tokens so far, last one first. -/
def tokensFrom : (skip : Nat) → (done : List Token) → List Char → Except Fault (List Token)
  | _, done, [] => .ok done.reverse
  | skip + 1, done, _ :: cs => tokensFrom skip done cs
  | 0, done, c :: cs =>
    if Text.isBlank c then tokensFrom 0 done cs
    else
      match front c cs with
      | .ok (t, width) => tokensFrom (width - 1) (t :: done) cs
      | .error fault => .error fault

/-- The tokens of an expression. -/
def tokens (expression : String) : Except Fault (List Token) :=
  tokensFrom 0 [] expression.toList

end PatchScript.XPath
