import PatchScript.XPath.Parser

/-!
# The grammar of XPath

A derivation is a tree whose inner nodes are the rules of the grammar and whose leaves are
tokens.  It spells a list of tokens, and it has an expression for its value.

A phrase is of a *level*.  A phrase of operators of two sides is an operand and, behind it,
operators with an operand each; the operands are of the level that binds tighter next, and the
operators bind to the left.  The words `or` and `and` stand for operators there and nowhere
else.  In the place of an operand they are names.

One rule looks at what comes behind it: a slash alone is a path only if no step could start with
the next token.  A derivation for which this is so wherever it uses the rule is *settled*.
-/

namespace PatchScript.XPath.Grammar

/-! ## Levels -/

/-- The operators of two sides that bind alike. -/
inductive Binary where
  | or | and | equality | order | sum | union
deriving DecidableEq

/-- The levels of phrases, from the loosest binding to the tightest: `or`, `and`, `=` and `!=`, the
comparisons by order, `+` and `-`, the sign, `|`, and paths. -/
inductive Level where
  | binary (b : Binary)
  | sign
  | path

namespace Binary

/-- What a token does as an operator. -/
def op? : Binary → Token → Option (Expr → Expr → Expr)
  | or => orOp
  | and => andOp
  | equality => equalityOp
  | order => orderOp
  | sum => sumOp
  | union => unionOp

/-- The level of the operands. -/
def operand : Binary → Level
  | or => .binary and
  | and => .binary equality
  | equality => .binary order
  | order => .binary sum
  | sum => .sign
  | union => .path

/-- The place in the order of levels. -/
def rank : Binary → Nat
  | or => 0
  | and => 1
  | equality => 2
  | order => 3
  | sum => 4
  | union => 6

end Binary

/-- The place in the order of levels, from the loosest binding to the tightest. -/
def Level.rank : Level → Nat
  | binary b => b.rank
  | sign => 5
  | path => 7

theorem Binary.rank_operand (b : Binary) : b.operand.rank = b.rank + 1 := by
  cases b <;> rfl

/-! ## Leaves -/

/-- An operator of two sides. -/
abbrev Operator (b : Binary) := {t : Token // (b.op? t).isSome}

/-- What an operator makes of its operands. -/
def Operator.combine {b : Binary} (o : Operator b) : Expr → Expr → Expr := (b.op? o.1).get o.2

/-- What stands between two steps. -/
inductive Lead where
  | slash
  | doubleSlash
deriving DecidableEq

/-- The token of a lead. -/
def Lead.token : Lead → Token
  | slash => .slash
  | doubleSlash => .doubleSlash

/-- The steps that a lead stands for. -/
def Lead.steps : Lead → List Step
  | slash => []
  | doubleSlash => [.anywhere]

/-- The name of an axis. -/
def axisName : Axis → String
  | .child => "child"
  | .descendant => "descendant"
  | .descendantOrSelf => "descendant-or-self"
  | .parent => "parent"
  | .ancestor => "ancestor"
  | .ancestorOrSelf => "ancestor-or-self"
  | .followingSibling => "following-sibling"
  | .precedingSibling => "preceding-sibling"
  | .self => "self"
  | .attribute => "attribute"

/-- How the axis of a step is written: not at all, by the sign of attributes, or by its name. -/
inductive Way where
  | children
  | attributes
  | named (a : Axis)

/-- The tokens of a way. -/
def Way.tokens : Way → List Token
  | children => []
  | attributes => [.at]
  | named a => [.name (axisName a), .doubleColon]

/-- The axis of a way. -/
def Way.axis : Way → Axis
  | children => .child
  | attributes => .attribute
  | named a => a

/-- The tokens of a node test. -/
def testTokens : NodeTest → List Token
  | .any => [.star]
  | .name s => [.name s]
  | .text => [.name "text", .openParen, .closeParen]
  | .comment => [.name "comment", .openParen, .closeParen]
  | .node => [.name "node", .openParen, .closeParen]

/-- The name of a function. -/
abbrev FunctionName := {s : String // isNodeType s = false}

/-! ## Derivations -/

mutual

/-- A phrase: an operand with more operands behind it; `-`* and a union; or a path, which is `/`,
a lead and steps, steps, or a primary with predicates and steps behind it. -/
inductive Phrase : Level → Type where
  | operands {b : Binary} (first : Phrase b.operand) (more : Operands b) : Phrase (.binary b)
  | unsigned (p : Phrase (.binary .union)) : Phrase .sign
  | negated (p : Phrase .sign) : Phrase .sign
  | root : Phrase .path
  | absolute (lead : Lead) (first : Stride) (more : Strides) : Phrase .path
  | relative (first : Stride) (more : Strides) : Phrase .path
  | primary (p : Primary) (predicates : Predicates) (more : Strides) : Phrase .path

/-- Operators with an operand each. -/
inductive Operands : Binary → Type where
  | nil {b : Binary} : Operands b
  | cons {b : Binary} (o : Operator b) (operand : Phrase b.operand) (more : Operands b) : Operands b

/-- A step: `.`, `..`, or a way and a node test with predicates. -/
inductive Stride where
  | self
  | parent
  | along (way : Way) (test : NodeTest) (predicates : Predicates)

/-- Steps with a lead each. -/
inductive Strides where
  | nil
  | cons (lead : Lead) (s : Stride) (more : Strides)

/-- Predicates: expressions in brackets. -/
inductive Predicates where
  | nil
  | cons (e : Phrase (.binary .or)) (more : Predicates)

/-- A primary: a literal, a number, an expression in parentheses, or a function call. -/
inductive Primary where
  | literal (s : String)
  | number (x : Binary64)
  | group (e : Phrase (.binary .or))
  | call (name : FunctionName) (args : Arguments)

/-- The arguments of a function. -/
inductive Arguments where
  | empty
  | listed (first : Phrase (.binary .or)) (more : MoreArguments)

/-- Commas with an argument each. -/
inductive MoreArguments where
  | nil
  | cons (e : Phrase (.binary .or)) (more : MoreArguments)

end

/-- An expression is a phrase of the loosest level. -/
abbrev Whole := Phrase (.binary .or)

mutual

/-- The tokens of a phrase. -/
def Phrase.tokens : {l : Level} → Phrase l → List Token
  | _, .operands first more => first.tokens ++ more.tokens
  | _, .unsigned p => p.tokens
  | _, .negated p => .minus :: p.tokens
  | _, .root => [.slash]
  | _, .absolute lead first more => lead.token :: (first.tokens ++ more.tokens)
  | _, .relative first more => first.tokens ++ more.tokens
  | _, .primary p ps more => p.tokens ++ (ps.tokens ++ more.tokens)

/-- The tokens of operands. -/
def Operands.tokens : {b : Binary} → Operands b → List Token
  | _, .nil => []
  | _, .cons o operand more => o.1 :: (operand.tokens ++ more.tokens)

/-- The tokens of a step. -/
def Stride.tokens : Stride → List Token
  | .self => [.dot]
  | .parent => [.dotDot]
  | .along way test ps => way.tokens ++ (testTokens test ++ ps.tokens)

/-- The tokens of steps. -/
def Strides.tokens : Strides → List Token
  | .nil => []
  | .cons lead s more => lead.token :: (s.tokens ++ more.tokens)

/-- The tokens of predicates. -/
def Predicates.tokens : Predicates → List Token
  | .nil => []
  | .cons e more => .openBracket :: (e.tokens ++ .closeBracket :: more.tokens)

/-- The tokens of a primary. -/
def Primary.tokens : Primary → List Token
  | .literal s => [.literal s]
  | .number x => [.number x]
  | .group e => .openParen :: (e.tokens ++ [.closeParen])
  | .call name args => .name name.1 :: .openParen :: args.tokens

/-- The tokens of arguments, the closing parenthesis included. -/
def Arguments.tokens : Arguments → List Token
  | .empty => [.closeParen]
  | .listed first more => first.tokens ++ more.tokens

/-- The tokens of the arguments behind the first, the closing parenthesis included. -/
def MoreArguments.tokens : MoreArguments → List Token
  | .nil => [.closeParen]
  | .cons e more => .comma :: (e.tokens ++ more.tokens)

end

theorem Strides.cons_tokens_append (lead : Lead) (s : Stride) (more : Strides) (rest : List Token) :
    (Strides.cons lead s more).tokens ++ rest =
      lead.token :: (s.tokens ++ (more.tokens ++ rest)) := by
  rw [Strides.tokens, List.cons_append, List.append_assoc]

theorem Predicates.cons_tokens_append (e : Whole) (more : Predicates) (rest : List Token) :
    (Predicates.cons e more).tokens ++ rest =
      .openBracket :: (e.tokens ++ .closeBracket :: (more.tokens ++ rest)) := by
  rw [Predicates.tokens, List.cons_append, List.append_assoc, List.cons_append]

theorem MoreArguments.cons_tokens_append (e : Whole) (more : MoreArguments) (rest : List Token) :
    (MoreArguments.cons e more).tokens ++ rest =
      .comma :: (e.tokens ++ (more.tokens ++ rest)) := by
  rw [MoreArguments.tokens, List.cons_append, List.append_assoc]

theorem Operands.cons_tokens_append {b : Binary} (o : Operator b) (operand : Phrase b.operand)
    (more : Operands b) (rest : List Token) : (Operands.cons o operand more).tokens ++ rest =
      o.1 :: (operand.tokens ++ (more.tokens ++ rest)) := by
  rw [Operands.tokens, List.cons_append, List.append_assoc]

/-- A primary with predicates and steps behind it. -/
def filtered (e : Expr) (predicates : List Expr) (steps : List Step) : Expr :=
  if predicates.isEmpty && steps.isEmpty then e else .filter e predicates steps

mutual

/-- The expression that a phrase stands for. -/
def Phrase.value : {l : Level} → Phrase l → Expr
  | _, .operands first more => more.behind first.value
  | _, .unsigned p => p.value
  | _, .negated p => .negate p.value
  | _, .root => .path true []
  | _, .absolute lead first more => .path true (lead.steps ++ first.value :: more.values)
  | _, .relative first more => .path false (first.value :: more.values)
  | _, .primary p ps more => filtered p.value ps.values more.values

/-- The expression of operands behind one that is read already: operators bind to the left. -/
def Operands.behind : {b : Binary} → Operands b → Expr → Expr
  | _, .nil, left => left
  | _, .cons o operand more, left => more.behind (o.combine left operand.value)

/-- The step that a stride stands for. -/
def Stride.value : Stride → Step
  | .self => .along .self .node []
  | .parent => .along .parent .node []
  | .along way test ps => .along way.axis test ps.values

/-- The steps that strides stand for. -/
def Strides.values : Strides → List Step
  | .nil => []
  | .cons lead s more => lead.steps ++ s.value :: more.values

/-- The expressions of predicates. -/
def Predicates.values : Predicates → List Expr
  | .nil => []
  | .cons e more => e.value :: more.values

/-- The expression that a primary stands for. -/
def Primary.value : Primary → Expr
  | .literal s => .literal s
  | .number x => .number x
  | .group e => e.value
  | .call name args => .call name.1 args.values

/-- The expressions of arguments. -/
def Arguments.values : Arguments → List Expr
  | .empty => []
  | .listed first more => first.value :: more.values

/-- The expressions of the arguments behind the first. -/
def MoreArguments.values : MoreArguments → List Expr
  | .nil => []
  | .cons e more => e.value :: more.values

end

mutual

/-- Wherever a slash alone is a path, no step could start with what follows it.  `rest` is what
follows the phrase. -/
def Phrase.Settled : {l : Level} → Phrase l → (rest : List Token) → Prop
  | _, .operands first more, rest => first.Settled (more.tokens ++ rest) ∧ more.Settled rest
  | _, .unsigned p, rest => p.Settled rest
  | _, .negated p, rest => p.Settled rest
  | _, .root, rest => (rest.take 1).any startsStep = false
  | _, .absolute _ first more, rest => first.Settled (more.tokens ++ rest) ∧ more.Settled rest
  | _, .relative first more, rest => first.Settled (more.tokens ++ rest) ∧ more.Settled rest
  | _, .primary p ps more, rest =>
    p.Settled (ps.tokens ++ (more.tokens ++ rest)) ∧ ps.Settled (more.tokens ++ rest) ∧
      more.Settled rest

@[inherit_doc Phrase.Settled]
def Operands.Settled : {b : Binary} → Operands b → (rest : List Token) → Prop
  | _, .nil, _ => True
  | _, .cons _ operand more, rest => operand.Settled (more.tokens ++ rest) ∧ more.Settled rest

@[inherit_doc Phrase.Settled]
def Stride.Settled : Stride → (rest : List Token) → Prop
  | .self, _ => True
  | .parent, _ => True
  | .along _ _ ps, rest => ps.Settled rest

@[inherit_doc Phrase.Settled]
def Strides.Settled : Strides → (rest : List Token) → Prop
  | .nil, _ => True
  | .cons _ s more, rest => s.Settled (more.tokens ++ rest) ∧ more.Settled rest

@[inherit_doc Phrase.Settled]
def Predicates.Settled : Predicates → (rest : List Token) → Prop
  | .nil, _ => True
  | .cons e more, rest => e.Settled (.closeBracket :: (more.tokens ++ rest)) ∧ more.Settled rest

@[inherit_doc Phrase.Settled]
def Primary.Settled : Primary → (rest : List Token) → Prop
  | .literal _, _ => True
  | .number _, _ => True
  | .group e, rest => e.Settled (.closeParen :: rest)
  | .call _ args, rest => args.Settled rest

@[inherit_doc Phrase.Settled]
def Arguments.Settled : Arguments → (rest : List Token) → Prop
  | .empty, _ => True
  | .listed first more, rest => first.Settled (more.tokens ++ rest) ∧ more.Settled rest

@[inherit_doc Phrase.Settled]
def MoreArguments.Settled : MoreArguments → (rest : List Token) → Prop
  | .nil, _ => True
  | .cons e more, rest => e.Settled (more.tokens ++ rest) ∧ more.Settled rest

end

/-! ## What can follow -/

/-- The level of the phrases that a token can go on with: its operators, or what stands behind a
step or a name. -/
def rank? : Token → Option Nat
  | .name s => if s = "or" then some 0 else if s = "and" then some 1 else none
  | .equal | .notEqual => some 2
  | .less | .lessOrEqual | .greater | .greaterOrEqual => some 3
  | .plus | .minus => some 4
  | .pipe => some 6
  | .slash | .doubleSlash => some 7
  | .openBracket | .openParen | .doubleColon => some 8
  | _ => none

/-- The next token, if there is one, goes on with a looser phrase than one of the rank. -/
def Below (rank : Nat) (rest : List Token) : Prop :=
  ∀ t ∈ rest.head?, ∀ k ∈ rank? t, k < rank

variable {m n : Nat} {t : Token} {ts rest : List Token} {b : Binary}

theorem below_nil : Below n [] := nofun

theorem below_cons : Below n (t :: ts) ↔ ∀ k, rank? t = some k → k < n := by
  simp [Below]

theorem Below.mono (h : Below m ts) (hmn : m ≤ n) : Below n ts :=
  fun t ht k hk => Nat.lt_of_lt_of_le (h t ht k hk) hmn

/-- An operator goes on with the phrases that it makes. -/
theorem rank?_eq_some_iff : rank? t = some b.rank ↔ (b.op? t).isSome := by
  cases t with
  | name s =>
    by_cases hor : s = "or"
    · subst hor
      cases b <;> simp [rank?, Binary.rank, Binary.op?, orOp, andOp, equalityOp, orderOp, sumOp,
        unionOp]
    · by_cases hand : s = "and"
      · subst hand
        cases b <;> simp [rank?, Binary.rank, Binary.op?, orOp, andOp, equalityOp, orderOp, sumOp,
          unionOp]
      · cases b <;> simp [rank?, Binary.op?, orOp, andOp, equalityOp, orderOp, sumOp, unionOp,
          hor, hand]
  | _ => cases b <;> simp [rank?, Binary.rank, Binary.op?, orOp, andOp, equalityOp, orderOp, sumOp,
      unionOp]

theorem Operator.rank (o : Operator b) : rank? o.1 = some b.rank := rank?_eq_some_iff.mpr o.2

/-- What goes on with a looser phrase is no operator of this one. -/
theorem Below.op?_eq_none (h : Below b.rank (t :: ts)) : b.op? t = none := by
  cases hop : b.op? t with
  | none => rfl
  | some combine =>
    have hrank := (rank?_eq_some_iff (b := b) (t := t)).mpr (by rw [hop]; rfl)
    exact absurd (below_cons.mp h _ hrank) (Nat.lt_irrefl _)

theorem Below.ne_operator (h : Below b.rank rest) (o : Operator b) : rest ≠ o.1 :: ts := by
  rintro rfl
  exact absurd (below_cons.mp h _ o.rank) (Nat.lt_irrefl _)

theorem Below.ne_lead (h : Below 7 rest) (lead : Lead) (ts : List Token) :
    rest ≠ lead.token :: ts := by
  rintro rfl
  have hrank : rank? lead.token = some 7 := by cases lead <;> rfl
  exact absurd (below_cons.mp h _ hrank) (Nat.lt_irrefl _)

theorem Below.ne_openBracket (h : Below 8 rest) (ts : List Token) : rest ≠ .openBracket :: ts := by
  rintro rfl
  exact absurd (below_cons.mp h 8 rfl) (Nat.lt_irrefl _)

/-- Operands are followed by an operator, or by what follows the phrase. -/
theorem Operands.below_tokens (more : Operands b) (h : Below b.rank rest) :
    Below b.operand.rank (more.tokens ++ rest) := by
  rw [b.rank_operand]
  cases more with
  | nil => exact h.mono (Nat.le_succ _)
  | cons o operand more =>
    refine below_cons.mpr fun k hk => ?_
    rw [o.rank] at hk
    cases hk
    exact Nat.lt_succ_self _

end PatchScript.XPath.Grammar
