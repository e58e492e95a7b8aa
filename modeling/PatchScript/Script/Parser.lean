import PatchScript.Script.Lexer
import PatchScript.Script.Term

/-!
# From tokens to terms

The grammar of scripts, with the tokens of a kind by the name of the kind and
`?` for what may be left out.

* script: directives
* block: `{` directives `}`
* directive: one of
  `include` identifier,
  `file` selector block,
  `use` identifier arguments?,
  `preset` identifier parameters block,
  `set` selector `=` value,
  `add` selector position? block,
  `change_add` selector position? block,
  `change` selector block,
  `all` selector block,
  `remove` selector,
  `remove` `all` selector,
  `const` identifier `=` value
* selector: string, or identifier arguments?
* value: `-`? number, string, boolean, or identifier arguments?
* position: `at` `-`? number, or identifier arguments?
* arguments: `(` `)`, or values between parentheses with commas between them
* parameters: likewise with identifiers

The next token always tells which case applies, so the parser never goes back,
and a failure is at the first token that cannot follow.  Blocks and arguments
nest, so the functions that read them count down a number of levels.  The number
that `parse` and `values` start with is enough for every list of tokens, since
two levels take at least one token.
-/

namespace PatchScript.Script

/-! ## What can go wrong -/

/-- What the grammar asks for at some point. -/
inductive Expected where
  | operator (op : Operator)
  | identifier
  | selector
  | value
  | position
deriving DecidableEq

/-- The wording of what is asked for. -/
def Expected.text : Expected → String
  | .operator op => "Operator '" ++ String.ofList [op.char] ++ "'"
  | .identifier => "Identifier"
  | .selector => "String or Variable"
  | .value => "Number or String or Variable"
  | .position => "Integer or Variable"

/-- Why a list of tokens is no script. -/
inductive ParseFault where
  /-- No directive starts with this token. -/
  | noDirective (found : Token)
  /-- Something else has to stand here. -/
  | mismatch (found : Token) (expected : Expected)
  /-- The tokens end where something has to follow. -/
  | ended (expected : Expected)
  /-- The name of a preset is not followed by parameters. -/
  | missingParams (preset : String) (found : Option Token)
  /-- A number token whose text denotes no number. -/
  | invalidNumber (found : Token)
  /-- The levels are used up, which `parse` never lets happen. -/
  | levels
deriving DecidableEq

/-- A list of tokens that is no script: the cause and the place. -/
structure ParseError where
  /-- The cause. -/
  fault : ParseFault
  /-- The place. -/
  span : Span
deriving DecidableEq

namespace ParseFault

/-- The code of a cause. -/
def code : ParseFault → String
  | .noDirective _ | .mismatch .. | .ended _ => "PARSE_UNEXPECTED_TOKEN"
  | .missingParams .. => "PARSE_MISSING_PARAMS"
  | .invalidNumber _ => "LEX_INVALID_NUMBER"
  | .levels => "PARSE_LEVELS"

/-- The wording of a cause. -/
def message : ParseFault → String
  | .noDirective found => "Unexpected token \"" ++ found.text ++ "\""
  | .mismatch found expected =>
    "Unexpected token \"" ++ found.text ++ "\". Expected " ++ expected.text
      ++ ". Found " ++ found.kind.name
  | .ended expected => "Unexpected end of input. Expected " ++ expected.text ++ ". Found None"
  | .missingParams preset _ => "Missing parameter list for preset '" ++ preset ++ "'"
  | .invalidNumber found => "Invalid number \"" ++ found.text ++ "\""
  | .levels => "Nested too deeply"

/-- The token that a cause is about, if the tokens did not end. -/
def token? : ParseFault → Option Token
  | .noDirective found | .mismatch found _ | .invalidNumber found => some found
  | .missingParams _ found => found
  | .ended _ | .levels => none

end ParseFault

/-- What is told about a list of tokens that is no script. -/
def ParseError.report (e : ParseError) : Report :=
  ⟨e.fault.code, e.fault.message, some e.span⟩

/-! ## Single tokens -/

/-- What a parser gives, unless it fails.  Mostly this is a value together with the
tokens that were not read. -/
abbrev Reading := Except ParseFault

/-- The first token, which has to pass a test. -/
def expect (accept : Token → Bool) (expected : Expected) : List Token → Reading (Token × List Token)
  | [] => .error (.ended expected)
  | t :: ts => if accept t then .ok (t, ts) else .error (.mismatch t expected)

/-- The tokens behind an operator that has to stand first. -/
def skipOperator (op : Operator) (ts : List Token) : Reading (List Token) :=
  (expect (·.isOperator op) (.operator op) ts).map (·.2)

/-- Does the operator stand first?  If so, the tokens behind it. -/
def operator? (op : Operator) : List Token → Option (List Token)
  | [] => none
  | t :: ts => if t.isOperator op then some ts else none

/-- A minus sign that may stand first. -/
def minus (ts : List Token) : Bool × List Token :=
  match operator? .minus ts with
  | some rest => (true, rest)
  | none => (false, ts)

/-- An identifier. -/
def identifier (ts : List Token) : Reading (String × List Token) := do
  let (t, ts) ← expect (·.kind = .identifier) .identifier ts
  return (t.text, ts)

/-- The number that a number token denotes. -/
def numberOf (t : Token) : Reading Binary64 :=
  match Binary64.ofText? t.text with
  | some x => .ok x
  | none => .error (.invalidNumber t)

/-- The integer with the other sign; the least integer has none and stays. -/
def negateInteger (n : Int) : Int := if n = Binary64.minInteger then n else -n

/-! ## Values -/

/-- A name, with its arguments if an opening parenthesis follows.  `args` reads
the arguments and the closing parenthesis. -/
def reference (args : List Token → Reading (List (Term Unit) × List Token)) (name : String)
    (negative : Bool) (ts : List Token) : Reading (Term Unit × List Token) :=
  match operator? .openParen ts with
  | none => .ok (.name name negative, ts)
  | some ts =>
    match operator? .closeParen ts with
    | some ts => .ok (.call name [] negative, ts)
    | none => do
      let (args, ts) ← args ts
      return (.call name args negative, ts)

/-- Can the token stand for a value? -/
def isValueToken (t : Token) : Bool :=
  t.kind = .number || t.kind = .string || t.kind = .boolean || t.kind = .identifier

/-- The value that a token starts, behind a minus sign or not.  The sign tells
only on numbers and names. -/
def valueOf (args : List Token → Reading (List (Term Unit) × List Token)) (negative : Bool)
    (t : Token) (ts : List Token) : Reading (Term Unit × List Token) :=
  match t.kind with
  | .identifier => reference args t.text negative ts
  | .number => do
    let x ← numberOf t
    return (.literal (.number (if negative then x.negate else x)), ts)
  | .boolean => .ok (.literal (.boolean (t.text == "true")), ts)
  | _ => .ok (.literal (.text t.text), ts)

mutual

/-- A value. -/
def value : (levels : Nat) → List Token → Reading (Term Unit × List Token)
  | 0, _ => .error .levels
  | n + 1, ts => do
    let (negative, ts) := minus ts
    let (t, ts) ← expect isValueToken .value ts
    valueOf (args n) negative t ts

/-- Values with commas between them, and the closing parenthesis. -/
def args : (levels : Nat) → List Token → Reading (List (Term Unit) × List Token)
  | 0, _ => .error .levels
  | n + 1, ts => do
    let (v, ts) ← value n ts
    match operator? .closeParen ts with
    | some ts => return ([v], ts)
    | none =>
      let ts ← skipOperator .comma ts
      let (vs, ts) ← args n ts
      return (v :: vs, ts)

end

/-- Enough levels for the values of a list of tokens. -/
def levelsFor (ts : List Token) : Nat := 2 * ts.length + 2

/-- Arguments, with as many levels as they need. -/
def arguments (ts : List Token) : Reading (List (Term Unit) × List Token) := args (levelsFor ts) ts

/-- A value, with as many levels as it needs. -/
def readValue (ts : List Token) : Reading (Term Unit × List Token) := value (levelsFor ts) ts

/-- A selector. -/
def selector (ts : List Token) : Reading (Term Unit × List Token) := do
  let (t, ts) ← expect (fun t => t.kind = .string || t.kind = .identifier) .selector ts
  if t.kind = .identifier then reference arguments t.text false ts
  else return (.literal (.text t.text), ts)

/-- A position, if the keyword of positions stands first. -/
def position? : List Token → Reading (Option (Term Unit) × List Token)
  | [] => .ok (none, [])
  | at' :: ts =>
    if at'.isKeyword .at then do
      let (negative, ts) := minus ts
      let (t, ts) ← expect (fun t => t.kind = .number || t.kind = .identifier) .position ts
      if t.kind = .identifier then
        let (p, ts) ← reference arguments t.text negative ts
        return (some p, ts)
      else
        let n := (← numberOf t).toInteger
        return (some (.literal (.integer (if negative then negateInteger n else n))), ts)
    else .ok (none, at' :: ts)

/-- The parameters of a preset behind the first, and the closing parenthesis. -/
def paramsFrom : (levels : Nat) → List Token → Reading (List String × List Token)
  | 0, _ => .error .levels
  | n + 1, ts => do
    let (p, ts) ← identifier ts
    match operator? .closeParen ts with
    | some ts => return ([p], ts)
    | none =>
      let ts ← skipOperator .comma ts
      let (ps, ts) ← paramsFrom n ts
      return (p :: ps, ts)

/-- The parameters of a preset, parentheses included. -/
def params (preset : String) (ts : List Token) : Reading (List String × List Token) :=
  match operator? .openParen ts with
  | none => .error (.missingParams preset ts.head?)
  | some ts =>
    match operator? .closeParen ts with
    | some ts => .ok ([], ts)
    | none => paramsFrom (levelsFor ts) ts

/-! ## Directives -/

/-- A block, whose directives `body` reads. -/
def block (body : List Token → Reading (List (Term Unit) × List Token)) (ts : List Token) :
    Reading (List (Term Unit) × List Token) := do
  let ts ← skipOperator .openBrace ts
  let (b, ts) ← body ts
  let ts ← skipOperator .closeBrace ts
  return (b, ts)

/-- The rest of a directive behind its keyword.  `body` reads the directives of a
block. -/
def directiveOf (body : List Token → Reading (List (Term Unit) × List Token)) (t : Token)
    (ts : List Token) : Reading (Term Unit × List Token) :=
  match t.keyword? with
  | some .include => do
    let (name, ts) ← identifier ts
    return (.include name, ts)
  | some .file => do
    let (path, ts) ← selector ts
    let (b, ts) ← block body ts
    return (.file path b, ts)
  | some .use => do
    let (name, ts) ← identifier ts
    match ← reference arguments name false ts with
    | (.call _ args _, ts) => return (.use name args, ts)
    | (_, ts) => return (.use name [], ts)
  | some .preset => do
    let (name, ts) ← identifier ts
    let (ps, ts) ← params name ts
    let (b, ts) ← block body ts
    return (.preset () name ps b, ts)
  | some .set => do
    let (name, ts) ← selector ts
    let ts ← skipOperator .equals ts
    let (v, ts) ← readValue ts
    return (.set name v, ts)
  | some .add => do
    let (tag, ts) ← selector ts
    let (p, ts) ← position? ts
    let (b, ts) ← block body ts
    return (match p with | none => .add tag b | some p => .addAt tag p b, ts)
  | some .changeOrAdd => do
    let (tag, ts) ← selector ts
    let (p, ts) ← position? ts
    let (b, ts) ← block body ts
    return (match p with | none => .changeOrAdd tag b | some p => .changeOrAddAt tag p b, ts)
  | some .all => do
    let (s, ts) ← selector ts
    let (b, ts) ← block body ts
    return (.changeAll s b, ts)
  | some .change => do
    let (s, ts) ← selector ts
    let (b, ts) ← block body ts
    return (.change s b, ts)
  | some .remove =>
    match ts with
    | all :: rest =>
      if all.isKeyword .all then do
        let (s, ts) ← selector rest
        return (.removeAll s, ts)
      else do
        let (s, ts) ← selector ts
        return (.removeAttribute s, ts)
    | [] => do
      let (s, ts) ← selector ts
      return (.removeAttribute s, ts)
  | some .const => do
    let (name, ts) ← identifier ts
    let ts ← skipOperator .equals ts
    let (v, ts) ← readValue ts
    return (.const name v, ts)
  | some .at | none => .error (.noDirective t)

/-- Directives up to a closing brace or the end. -/
def directives : (levels : Nat) → List Token → Reading (List (Term Unit) × List Token)
  | 0, _ => .error .levels
  | _ + 1, [] => .ok ([], [])
  | n + 1, t :: ts =>
    if t.isOperator .closeBrace then .ok ([], t :: ts)
    else do
      let (d, ts) ← directiveOf (directives n) t ts
      let (ds, ts) ← directives n ts
      return (d :: ds, ts)

/-! ## Scripts -/

/-- The place behind the last token. -/
def endSpan (ts : List Token) : Span :=
  match ts.getLast? with
  | some t => .point t.span.stop
  | none => .point .origin

/-- The directives of a list of tokens, which a closing brace may not end. -/
def script (ts : List Token) : Reading (List (Term Unit)) := do
  match ← directives (levelsFor ts) ts with
  | (body, []) => return body
  | (_, t :: _) => throw (.noDirective t)

/-- The script that a list of tokens spells. -/
def parse (ts : List Token) : Except ParseError (List (Term Unit)) :=
  (script ts).mapError fun fault => ⟨fault, (fault.token?.map Token.span).getD (endSpan ts)⟩

/-! ## Sources -/

/-- A source that is no script. -/
inductive SourceError where
  /-- It has no tokens. -/
  | lex (e : LexError)
  /-- Its tokens are no script. -/
  | parse (e : ParseError)
deriving DecidableEq

/-- What is told about a source that is no script. -/
def SourceError.report : SourceError → Report
  | .lex e => e.report
  | .parse e => e.report

/-- The script that a source spells. -/
def read (source : String) : Except SourceError (List (Term Unit)) := do
  let ts ← (lex source).mapError .lex
  (parse ts).mapError .parse

end PatchScript.Script
