import PatchScript.XPath.Expr

/-!
# From tokens to expressions

The grammar, from the loosest binding to the tightest; every operator of two
sides binds to the left.

* `or`, then `and`, then `=` and `!=`, then `<`, `<=`, `>` and `>=`, then `+` and
  `-`, then the sign `-`, then `|`
* path: `/`; `/` steps; `//` steps; steps; or a primary with predicates, then
  nothing, `/` steps or `//` steps
* primary: a literal, a number, an expression in parentheses, or a function call
  whose name is none of `text`, `node` and `comment`
* steps: steps with `/` or `//` between them
* step: `.`, `..`, or a node test with predicates, behind `@`, an axis and `::`,
  or nothing
* node test: `*`, a name, or `text`, `node` or `comment` with `()`
* predicates: expressions in brackets

A slash at the end of a path stands for the top of the tree, unless a step
follows.  The words `or` and `and` are operators where one can stand, and names
elsewhere.

Each binary operator is read by `chain`, from a parser for its operands.
Expressions nest only in a path, so `path` counts down a number of levels; the
number of tokens is enough.
-/

namespace PatchScript.XPath

/-- What a parser gives, unless it fails. -/
abbrev Reading := Except Fault

/-- A parser: it reads a value from the front of a list of tokens and gives the
tokens behind it. -/
abbrev Parser (α : Type) := List Token → Reading (α × List Token)

/-- The tokens behind a token that has to stand first. -/
def skip (wanted : Token) : List Token → Reading (List Token)
  | [] => .error (.expected wanted none)
  | t :: ts => if t = wanted then .ok ts else .error (.expected wanted (some t))

/-! ## Operators -/

/-- Operands with operators between them, to the right of the operand `left`.  At
most `steps` operators are read. -/
def chainFrom (op : Token → Option (Expr → Expr → Expr)) (operand : Parser Expr) :
    (steps : Nat) → (left : Expr) → Parser Expr
  | 0, _, _ => .error .levels
  | _ + 1, left, [] => .ok (left, [])
  | n + 1, left, t :: ts =>
    match op t with
    | none => .ok (left, t :: ts)
    | some combine => do
      let (right, ts) ← operand ts
      chainFrom op operand n (combine left right) ts

/-- Operands with operators between them that bind to the left. -/
def chain (op : Token → Option (Expr → Expr → Expr)) (operand : Parser Expr) : Parser Expr :=
  fun ts => do
    let (left, ts) ← operand ts
    chainFrom op operand (ts.length + 1) left ts

/-- The operators of each binding. -/
def orOp : Token → Option (Expr → Expr → Expr)
  | .name s => if s = "or" then some .or else none
  | _ => none

@[inherit_doc orOp]
def andOp : Token → Option (Expr → Expr → Expr)
  | .name s => if s = "and" then some .and else none
  | _ => none

@[inherit_doc orOp]
def equalityOp : Token → Option (Expr → Expr → Expr)
  | .equal => some (.compare .equal)
  | .notEqual => some (.compare .notEqual)
  | _ => none

@[inherit_doc orOp]
def orderOp : Token → Option (Expr → Expr → Expr)
  | .less => some (.compare .less)
  | .lessOrEqual => some (.compare .lessOrEqual)
  | .greater => some (.compare .greater)
  | .greaterOrEqual => some (.compare .greaterOrEqual)
  | _ => none

@[inherit_doc orOp]
def sumOp : Token → Option (Expr → Expr → Expr)
  | .plus => some .add
  | .minus => some .subtract
  | _ => none

@[inherit_doc orOp]
def unionOp : Token → Option (Expr → Expr → Expr)
  | .pipe => some .union
  | _ => none

/-- An operand behind any number of signs. -/
def signed (operand : Parser Expr) : Parser Expr
  | .minus :: ts => do
    let (e, ts) ← signed operand ts
    return (.negate e, ts)
  | ts => operand ts

/-- An expression, from a parser for its paths. -/
def expression (path : Parser Expr) : Parser Expr :=
  chain orOp (chain andOp (chain equalityOp (chain orderOp (chain sumOp
    (signed (chain unionOp path))))))

/-! ## Steps -/

/-- Predicates, at most `steps` of them. -/
def predicatesFrom (expr : Parser Expr) : (steps : Nat) → Parser (List Expr)
  | 0, _ => .error .levels
  | n + 1, .openBracket :: ts => do
    let (e, ts) ← expr ts
    let ts ← skip .closeBracket ts
    let (es, ts) ← predicatesFrom expr n ts
    return (e :: es, ts)
  | _ + 1, ts => .ok ([], ts)

/-- Predicates. -/
def predicates (expr : Parser Expr) : Parser (List Expr) :=
  fun ts => predicatesFrom expr (ts.length + 1) ts

/-- A node test. -/
def nodeTest : Parser NodeTest
  | .star :: ts => .ok (.any, ts)
  | .name s :: .openParen :: ts =>
    match (if s = "text" then some NodeTest.text
      else if s = "node" then some .node
      else if s = "comment" then some .comment
      else none) with
    | some test => do
      let ts ← skip .closeParen ts
      return (test, ts)
    | none => .error (.unknownNodeType s)
  | .name s :: ts => .ok (.name s, ts)
  | ts => .error (.expectedTest ts.head?)

/-- The axis of a step, which is that of children if none is written. -/
def axis : Parser Axis
  | .at :: ts => .ok (.attribute, ts)
  | .name s :: .doubleColon :: ts =>
    match Axis.ofName? s with
    | some a => .ok (a, ts)
    | none => .error (.unknownAxis s)
  | ts => .ok (.child, ts)

/-- A step. -/
def step (expr : Parser Expr) : Parser Step
  | .dot :: ts => .ok (.along .self .node [], ts)
  | .dotDot :: ts => .ok (.along .parent .node [], ts)
  | ts => do
    let (a, ts) ← axis ts
    let (test, ts) ← nodeTest ts
    let (ps, ts) ← predicates expr ts
    return (.along a test ps, ts)

/-- The steps behind the first, each behind a slash or two, at most `steps` of
them. -/
def stepsFrom (expr : Parser Expr) : (steps : Nat) → Parser (List Step)
  | 0, _ => .error .levels
  | n + 1, .slash :: ts => do
    let (s, ts) ← step expr ts
    let (ss, ts) ← stepsFrom expr n ts
    return (s :: ss, ts)
  | n + 1, .doubleSlash :: ts => do
    let (s, ts) ← step expr ts
    let (ss, ts) ← stepsFrom expr n ts
    return (.anywhere :: s :: ss, ts)
  | _ + 1, ts => .ok ([], ts)

/-- Steps, at least one. -/
def steps (expr : Parser Expr) : Parser (List Step) := fun ts => do
  let (s, ts) ← step expr ts
  let (ss, ts) ← stepsFrom expr (ts.length + 1) ts
  return (s :: ss, ts)

/-! ## Paths -/

/-- Can a step start with the token? -/
def startsStep : Token → Bool
  | .name _ | .star | .at | .dot | .dotDot => true
  | _ => false

/-- Is the name that of a node type? -/
def isNodeType (s : String) : Bool := s == "text" || s == "node" || s == "comment"

/-- The arguments of a function behind the first, and the closing parenthesis. -/
def argsFrom (expr : Parser Expr) : (steps : Nat) → Parser (List Expr)
  | 0, _ => .error .levels
  | n + 1, ts => do
    let (e, ts) ← expr ts
    match ts with
    | .closeParen :: ts => return ([e], ts)
    | ts =>
      let ts ← skip .comma ts
      let (es, ts) ← argsFrom expr n ts
      return (e :: es, ts)

/-- The arguments of a function behind the opening parenthesis. -/
def args (expr : Parser Expr) : Parser (List Expr)
  | .closeParen :: ts => .ok ([], ts)
  | ts => argsFrom expr (ts.length + 1) ts

/-- A primary, if one stands first. -/
def primary? (expr : Parser Expr) : List Token → Option (Reading (Expr × List Token))
  | .literal s :: ts => some (.ok (.literal s, ts))
  | .number x :: ts => some (.ok (.number x, ts))
  | .openParen :: ts => some do
    let (e, ts) ← expr ts
    let ts ← skip .closeParen ts
    return (e, ts)
  | .name s :: .openParen :: ts =>
    if isNodeType s then none
    else some do
      let (as, ts) ← args expr ts
      return (.call s as, ts)
  | _ => none

/-- What follows a primary: predicates, and steps behind a slash or two. -/
def filterRest (expr : Parser Expr) (e : Expr) (ts : List Token) :
    Reading (Expr × List Token) := do
  let (ps, ts) ← predicates expr ts
  match ts with
  | .slash :: ts => do
    let (ss, ts) ← steps expr ts
    return (.filter e ps ss, ts)
  | .doubleSlash :: ts => do
    let (ss, ts) ← steps expr ts
    return (.filter e ps (.anywhere :: ss), ts)
  | ts => return (if ps.isEmpty then e else .filter e ps [], ts)

/-- A path, from a parser for the expressions in it. -/
def pathOf (expr : Parser Expr) : Parser Expr
  | .slash :: ts =>
    if (ts.take 1).any startsStep then do
      let (ss, ts) ← steps expr ts
      return (.path true ss, ts)
    else .ok (.path true [], ts)
  | .doubleSlash :: ts => do
    let (ss, ts) ← steps expr ts
    return (.path true (.anywhere :: ss), ts)
  | ts =>
    match primary? expr ts with
    | some r => do
      let (e, ts) ← r
      filterRest expr e ts
    | none => do
      let (ss, ts) ← steps expr ts
      return (.path false ss, ts)

/-- A path in which expressions nest down to a number of levels. -/
def path : (levels : Nat) → Parser Expr
  | 0, _ => .error .levels
  | n + 1, ts => pathOf (expression (path n)) ts

/-! ## Expressions -/

/-- The expression that a list of tokens spells. -/
def parse (ts : List Token) : Reading Expr := do
  match ← expression (path (ts.length + 1)) ts with
  | (e, []) => return e
  | (_, t :: _) => throw (.trailing t)

/-- The expression that a text spells. -/
def read (text : String) : Reading Expr := do parse (← tokens text)

end PatchScript.XPath
