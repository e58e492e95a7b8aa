import PatchScript.Script.Parser

/-!
# The grammar of scripts

A derivation is a tree whose inner nodes are the rules of the grammar and whose leaves
are tokens that the rules admit at their places.  It spells a list of tokens, and it
stands for a term, or for several.

A numeral has a number with it, the one that its text denotes.  A token of the kind of
numbers whose text denotes none is no leaf of any derivation.
-/

namespace PatchScript.Script.Grammar

/-! ## Leaves -/

/-- A token that is the operator. -/
abbrev Sign (op : Operator) := {t : Token // t.isOperator op}

/-- A token that is the keyword. -/
abbrev Reserved (k : Keyword) := {t : Token // t.isKeyword k}

/-- A token of the kind. -/
abbrev OfKind (kind : TokenKind) := {t : Token // t.kind = kind}

/-- An identifier. -/
abbrev Word := OfKind .identifier

/-- A string. -/
abbrev Quoted := OfKind .string

/-- A truth value. -/
abbrev Truth := OfKind .boolean

/-- A number token that denotes a number. -/
structure Numeral where
  /-- The token. -/
  token : Token
  kind : token.kind = .number
  /-- The number. -/
  value : Binary64
  denotes : Binary64.ofText? token.text = some value

/-- A minus sign, if there is one. -/
abbrev Minus := Option (Sign .minus)

/-- The tokens of a minus sign. -/
def Minus.tokens : Minus → List Token
  | none => []
  | some m => [m.1]

/-- What stands for a value alone. -/
inductive Scalar where
  | number (n : Numeral)
  | string (s : Quoted)
  | boolean (b : Truth)

namespace Scalar

/-- The token of a scalar. -/
def token : Scalar → Token
  | number n => n.token
  | string s => s.1
  | boolean b => b.1

/-- The literal of a scalar.  The sign tells only on numbers. -/
def literal (negative : Bool) : Scalar → Literal
  | number n => .number (if negative then n.value.negate else n.value)
  | string s => .text s.1.text
  | boolean b => .boolean (b.1.text == "true")

end Scalar

/-! ### What the leaves are not -/

section

variable {op : Operator} {k : Keyword} {sort : TokenKind}

theorem isOperator_eq_false {t : Token} (h : t.kind ≠ .operator) (op : Operator) :
    t.isOperator op = false := by
  simp [Token.isOperator, h]

theorem isKeyword_eq_false {t : Token} (h : t.kind ≠ .keyword) (k : Keyword) :
    t.isKeyword k = false := by
  simp [Token.isKeyword, h]

theorem Sign.kind (o : Sign op) : o.1.kind = .operator := by
  have h := o.2
  simp only [Token.isOperator, Bool.and_eq_true, decide_eq_true_eq] at h
  exact h.1

@[simp] theorem Sign.isOperator (o : Sign op) (op' : Operator) :
    o.1.isOperator op' = decide (op = op') := by
  have h := o.2
  simp only [Token.isOperator, Token.isChar, Bool.and_eq_true, decide_eq_true_eq, beq_iff_eq] at h
  rw [Token.isOperator, Token.isChar, h.1, h.2]
  cases op <;> cases op' <;> rfl

@[simp] theorem Sign.isKeyword (o : Sign op) (k : Keyword) : o.1.isKeyword k = false :=
  isKeyword_eq_false (by simp [o.kind]) k

theorem Reserved.spec (r : Reserved k) : r.1.kind = .keyword ∧ r.1.text = k.spelling := by
  simpa [Token.isKeyword] using r.2

@[simp] theorem Reserved.isOperator (r : Reserved k) (op : Operator) :
    r.1.isOperator op = false :=
  isOperator_eq_false (by simp [r.spec.1]) op

@[simp] theorem Reserved.isKeyword (r : Reserved k) (k' : Keyword) :
    r.1.isKeyword k' = decide (k = k') := by
  obtain ⟨hkind, htext⟩ := r.spec
  rw [Token.isKeyword, hkind, htext]
  cases k <;> cases k' <;> rfl

@[simp] theorem Reserved.keyword? (r : Reserved k) : r.1.keyword? = some k := by
  obtain ⟨hkind, htext⟩ := r.spec
  rw [Token.keyword?, if_pos hkind, htext]
  cases k <;> rfl

@[simp] theorem OfKind.isOperator (t : OfKind sort) (h : sort ≠ .operator) (op : Operator) :
    t.1.isOperator op = false :=
  isOperator_eq_false (by rwa [t.2]) op

@[simp] theorem OfKind.isKeyword (t : OfKind sort) (h : sort ≠ .keyword) (k : Keyword) :
    t.1.isKeyword k = false :=
  isKeyword_eq_false (by rwa [t.2]) k

@[simp] theorem Numeral.isOperator (n : Numeral) (op : Operator) :
    n.token.isOperator op = false :=
  isOperator_eq_false (by simp [n.kind]) op

@[simp] theorem Scalar.isOperator (s : Scalar) (op : Operator) :
    s.token.isOperator op = false := by
  cases s <;> simp [Scalar.token]

end

/-! ## Values -/

mutual

/-- A value: `-`? scalar, or `-`? identifier arguments? -/
inductive Value where
  | scalar (minus : Minus) (s : Scalar)
  | reference (minus : Minus) (name : Word) (args : Arguments)

/-- The arguments behind a name, if there are any. -/
inductive Arguments where
  | absent
  | empty (opening : Sign .openParen) (closing : Sign .closeParen)
  | listed (opening : Sign .openParen) (values : Values) (closing : Sign .closeParen)

/-- Values with commas between them. -/
inductive Values where
  | one (v : Value)
  | cons (v : Value) (comma : Sign .comma) (rest : Values)

end

mutual

/-- The tokens of a value. -/
def Value.tokens : Value → List Token
  | .scalar m s => m.tokens ++ [s.token]
  | .reference m name args => m.tokens ++ name.1 :: args.tokens

/-- The tokens of arguments. -/
def Arguments.tokens : Arguments → List Token
  | .absent => []
  | .empty o c => [o.1, c.1]
  | .listed o values c => o.1 :: (values.tokens ++ [c.1])

/-- The tokens of values. -/
def Values.tokens : Values → List Token
  | .one v => v.tokens
  | .cons v comma rest => v.tokens ++ comma.1 :: rest.tokens

end

/-- The term of a name, with the arguments behind it. -/
def refer (name : String) (negative : Bool) : Option (List (Term Unit)) → Term Unit
  | none => .name name negative
  | some args => .call name args negative

mutual

/-- The term that a value stands for. -/
def Value.term : Value → Term Unit
  | .scalar m s => .literal (s.literal m.isSome)
  | .reference m name args => refer name.1.text m.isSome args.terms?

/-- The terms that arguments stand for, if there are any. -/
def Arguments.terms? : Arguments → Option (List (Term Unit))
  | .absent => none
  | .empty .. => some []
  | .listed _ values _ => some values.terms

/-- The terms that values stand for. -/
def Values.terms : Values → List (Term Unit)
  | .one v => [v.term]
  | .cons v _ rest => v.term :: rest.terms

end

/-! ## Selectors, positions and parameters -/

/-- A selector: string, or identifier arguments? -/
inductive Selector where
  | string (s : Quoted)
  | reference (name : Word) (args : Arguments)

namespace Selector

/-- The tokens of a selector. -/
def tokens : Selector → List Token
  | string s => [s.1]
  | reference name args => name.1 :: args.tokens

/-- The term that a selector stands for. -/
def term : Selector → Term Unit
  | string s => .literal (.text s.1.text)
  | reference name args => refer name.1.text false args.terms?

end Selector

/-- A position, if there is one: `at` `-`? number, or `at` `-`? identifier arguments? -/
inductive Position where
  | absent
  | number (at' : Reserved .at) (minus : Minus) (n : Numeral)
  | reference (at' : Reserved .at) (minus : Minus) (name : Word) (args : Arguments)

namespace Position

/-- The tokens of a position. -/
def tokens : Position → List Token
  | absent => []
  | number at' m n => at'.1 :: (m.tokens ++ [n.token])
  | reference at' m name args => at'.1 :: (m.tokens ++ name.1 :: args.tokens)

/-- The term that a position stands for. -/
def term? : Position → Option (Term Unit)
  | absent => none
  | number _ m n =>
    let i := n.value.toInteger
    some (.literal (.integer (if m.isSome then negateInteger i else i)))
  | reference _ m name args => some (refer name.1.text m.isSome args.terms?)

end Position

/-- Identifiers with commas between them. -/
inductive Words where
  | one (name : Word)
  | cons (name : Word) (comma : Sign .comma) (rest : Words)

namespace Words

/-- The tokens of identifiers. -/
def tokens : Words → List Token
  | one name => [name.1]
  | cons name comma rest => name.1 :: comma.1 :: rest.tokens

/-- The texts of identifiers. -/
def texts : Words → List String
  | one name => [name.1.text]
  | cons name _ rest => name.1.text :: rest.texts

end Words

/-- The parameters of a preset, parentheses included. -/
inductive Params where
  | empty (opening : Sign .openParen) (closing : Sign .closeParen)
  | listed (opening : Sign .openParen) (names : Words) (closing : Sign .closeParen)

namespace Params

/-- The tokens of parameters. -/
def tokens : Params → List Token
  | empty o c => [o.1, c.1]
  | listed o names c => o.1 :: (names.tokens ++ [c.1])

/-- The names of parameters. -/
def names : Params → List String
  | empty .. => []
  | listed _ names _ => names.texts

end Params

/-! ## Directives -/

mutual

/-- A directive. -/
inductive Directive where
  | include (k : Reserved .include) (name : Word)
  | file (k : Reserved .file) (path : Selector) (body : Block)
  | use (k : Reserved .use) (name : Word) (args : Arguments)
  | preset (k : Reserved .preset) (name : Word) (params : Params) (body : Block)
  | set (k : Reserved .set) (name : Selector) (equals : Sign .equals) (v : Value)
  | add (k : Reserved .add) (tag : Selector) (position : Position) (body : Block)
  | changeOrAdd (k : Reserved .changeOrAdd) (tag : Selector) (position : Position) (body : Block)
  | all (k : Reserved .all) (s : Selector) (body : Block)
  | change (k : Reserved .change) (s : Selector) (body : Block)
  | remove (k : Reserved .remove) (s : Selector)
  | removeAll (k : Reserved .remove) (all' : Reserved .all) (s : Selector)
  | const (k : Reserved .const) (name : Word) (equals : Sign .equals) (v : Value)

/-- A block: directives between braces. -/
inductive Block where
  | braces (opening : Sign .openBrace) (body : Directives) (closing : Sign .closeBrace)

/-- Directives one after the other.  A script is that and nothing else. -/
inductive Directives where
  | nil
  | cons (d : Directive) (rest : Directives)

end

mutual

/-- The tokens of a directive. -/
def Directive.tokens : Directive → List Token
  | .include k name => [k.1, name.1]
  | .file k path body => k.1 :: (path.tokens ++ body.tokens)
  | .use k name args => k.1 :: name.1 :: args.tokens
  | .preset k name params body => k.1 :: name.1 :: (params.tokens ++ body.tokens)
  | .set k name eq v => k.1 :: (name.tokens ++ eq.1 :: v.tokens)
  | .add k tag p body => k.1 :: (tag.tokens ++ (p.tokens ++ body.tokens))
  | .changeOrAdd k tag p body => k.1 :: (tag.tokens ++ (p.tokens ++ body.tokens))
  | .all k s body => k.1 :: (s.tokens ++ body.tokens)
  | .change k s body => k.1 :: (s.tokens ++ body.tokens)
  | .remove k s => k.1 :: s.tokens
  | .removeAll k all' s => k.1 :: all'.1 :: s.tokens
  | .const k name eq v => k.1 :: name.1 :: eq.1 :: v.tokens

/-- The tokens of a block. -/
def Block.tokens : Block → List Token
  | .braces o body c => o.1 :: (body.tokens ++ [c.1])

/-- The tokens of directives. -/
def Directives.tokens : Directives → List Token
  | .nil => []
  | .cons d rest => d.tokens ++ rest.tokens

end

mutual

/-- The term that a directive stands for. -/
def Directive.term : Directive → Term Unit
  | .include _ name => .include name.1.text
  | .file _ path body => .file path.term body.terms
  | .use _ name args => .use name.1.text (args.terms?.getD [])
  | .preset _ name params body => .preset () name.1.text params.names body.terms
  | .set _ name _ v => .set name.term v.term
  | .add _ tag p body =>
    match p.term? with
    | none => .add tag.term body.terms
    | some p => .addAt tag.term p body.terms
  | .changeOrAdd _ tag p body =>
    match p.term? with
    | none => .changeOrAdd tag.term body.terms
    | some p => .changeOrAddAt tag.term p body.terms
  | .all _ s body => .changeAll s.term body.terms
  | .change _ s body => .change s.term body.terms
  | .remove _ s => .removeAttribute s.term
  | .removeAll _ _ s => .removeAll s.term
  | .const _ name _ v => .const name.1.text v.term

/-- The terms of a block. -/
def Block.terms : Block → List (Term Unit)
  | .braces _ body _ => body.terms

/-- The terms of directives. -/
def Directives.terms : Directives → List (Term Unit)
  | .nil => []
  | .cons d rest => d.term :: rest.terms

end

/-- The keyword that a directive starts with. -/
def Directive.keyword : Directive → Keyword
  | .include .. => .include
  | .file .. => .file
  | .use .. => .use
  | .preset .. => .preset
  | .set .. => .set
  | .add .. => .add
  | .changeOrAdd .. => .changeOrAdd
  | .all .. => .all
  | .change .. => .change
  | .remove .. | .removeAll .. => .remove
  | .const .. => .const

/-- Directives behind others. -/
def Directives.append : Directives → Directives → Directives
  | .nil, after => after
  | .cons d rest, after => .cons d (rest.append after)

@[simp] theorem Directives.append_tokens (after : Directives) :
    ∀ before : Directives, (before.append after).tokens = before.tokens ++ after.tokens
  | .nil => rfl
  | .cons d rest => by
    rw [append, tokens, tokens, append_tokens after rest, List.append_assoc]

@[simp] theorem Directives.append_terms (after : Directives) :
    ∀ before : Directives, (before.append after).terms = before.terms ++ after.terms
  | .nil => rfl
  | .cons d rest => by
    rw [append, terms, terms, append_terms after rest, List.cons_append]

end PatchScript.Script.Grammar
