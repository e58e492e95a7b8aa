import PatchScript.Proofs.Reading
import PatchScript.Proofs.Script.Grammar

/-!
# Every derivation is read

The parser reads the tokens that a derivation spells, whatever follows them, and gives
the term that the derivation stands for.  Only one thing must not follow: a parenthesis
behind a name, which would be read as arguments.  No rule lets it.

Arguments and blocks are read with fewer levels than what they are in, so the proofs are
by induction on the number of levels.
-/

namespace PatchScript.Script.Grammar

variable {op : Operator} {t : Token} {ts rest : List Token}

/-! ## Single tokens -/

@[simp] theorem operator?_cons (op : Operator) (t : Token) (ts : List Token) :
    operator? op (t :: ts) = if t.isOperator op then some ts else none := rfl

theorem expect_cons {accept : Token → Bool} (expected : Expected) (h : accept t) :
    expect accept expected (t :: ts) = .ok (t, ts) := by
  rw [expect, if_pos h]

@[simp] theorem skipOperator_sign (o : Sign op) (ts : List Token) :
    skipOperator op (o.1 :: ts) = .ok ts := by
  rw [skipOperator, expect_cons _ o.2]
  rfl

@[simp] theorem identifier_word (name : Word) (ts : List Token) :
    identifier (name.1 :: ts) = .ok (name.1.text, ts) := by
  rw [identifier, expect_cons _ (decide_eq_true name.2)]
  rfl

@[simp] theorem numberOf_numeral (n : Numeral) : numberOf n.token = .ok n.value := by
  rw [numberOf, n.denotes]

theorem minus_tokens (m : Minus) (h : t.isOperator .minus = false) :
    minus (m.tokens ++ t :: ts) = (m.isSome, t :: ts) := by
  cases m <;> simp [Minus.tokens, minus, h]

/-! ## Values -/

/-- No arguments are next. -/
def Stops (ts : List Token) : Prop := operator? .openParen ts = none

theorem Stops.nil : Stops [] := rfl

theorem Stops.cons (h : t.isOperator .openParen = false) (ts : List Token) : Stops (t :: ts) := by
  simp [Stops, h]

/-- Values do not start with a closing parenthesis. -/
theorem Value.operator?_tokens (v : Value) (ts : List Token) :
    operator? .closeParen (v.tokens ++ ts) = none := by
  cases v with
  | scalar m s => cases m <;> simp [tokens, Minus.tokens]
  | reference m name args => cases m <;> simp [tokens, Minus.tokens]

theorem Values.operator?_tokens (values : Values) (ts : List Token) :
    operator? .closeParen (values.tokens ++ ts) = none := by
  cases values with
  | one v => exact v.operator?_tokens ts
  | cons v comma values =>
    rw [tokens, List.append_assoc]
    exact v.operator?_tokens _

/-- A name with arguments is read if the values between the parentheses are. -/
theorem reference_reads {a : List Token → Reading (List (Term Unit) × List Token)}
    {args : Arguments} (hrest : Stops rest)
    (h : ∀ (values : Values) (c : Sign .closeParen), values.tokens.length < args.tokens.length →
      a (values.tokens ++ c.1 :: rest) = .ok (values.terms, rest))
    (name : String) (negative : Bool) :
    reference a name negative (args.tokens ++ rest) =
      .ok (refer name negative args.terms?, rest) := by
  cases args with
  | absent =>
    rw [Arguments.tokens, List.nil_append, reference, hrest]
    rfl
  | empty o c =>
    simp [Arguments.tokens, reference, Arguments.terms?, refer]
  | listed o values c =>
    have hvalues := h values c (by
      rw [Arguments.tokens, List.length_cons, List.length_append]
      omega)
    simp [Arguments.tokens, reference, values.operator?_tokens, hvalues, Arguments.terms?, refer]

/-- A scalar is read where a value is. -/
theorem valueOf_scalar (a : List Token → Reading (List (Term Unit) × List Token))
    (negative : Bool) (s : Scalar) (ts : List Token) :
    valueOf a negative s.token ts = .ok (.literal (s.literal negative), ts) := by
  cases s with
  | number n => simp [valueOf, Scalar.token, n.kind, Scalar.literal]
  | string s => simp [valueOf, Scalar.token, s.2, Scalar.literal]
  | boolean b => simp [valueOf, Scalar.token, b.2, Scalar.literal]

theorem isValueToken_scalar (s : Scalar) : isValueToken s.token := by
  cases s with
  | number n => simp [isValueToken, Scalar.token, n.kind]
  | string s => simp [isValueToken, Scalar.token, s.2]
  | boolean b => simp [isValueToken, Scalar.token, b.2]

mutual

theorem value_reads : ∀ (n : Nat) (v : Value) (rest : List Token), v.tokens.length < n →
    Stops rest → value n (v.tokens ++ rest) = .ok (v.term, rest)
  | 0, _, _, h, _ => absurd h (Nat.not_lt_zero _)
  | n + 1, .scalar m s, rest, _, _ => by
    rw [Value.tokens, List.append_assoc, List.singleton_append, value,
      minus_tokens m (s.isOperator _)]
    dsimp only
    rw [expect_cons _ (isValueToken_scalar s), ok_bind]
    exact valueOf_scalar ..
  | n + 1, .reference m name args, rest, h, hrest => by
    rw [Value.tokens, List.length_append, List.length_cons] at h
    rw [Value.tokens, List.append_assoc, List.cons_append, value,
      minus_tokens m (name.isOperator nofun _)]
    dsimp only
    rw [expect_cons _ (by simp [isValueToken, name.2]), ok_bind]
    dsimp only
    rw [valueOf, name.2]
    exact reference_reads hrest (fun values c hv => args_reads n values c rest (by omega)) ..

/-- Values are read up to the closing parenthesis. -/
theorem args_reads : ∀ (n : Nat) (values : Values) (c : Sign .closeParen) (rest : List Token),
    values.tokens.length + 1 < n →
    args n (values.tokens ++ c.1 :: rest) = .ok (values.terms, rest)
  | 0, _, _, _, h => absurd h (Nat.not_lt_zero _)
  | n + 1, .one v, c, rest, h => by
    have hv := value_reads n v (c.1 :: rest) (by rw [Values.tokens] at h; omega) (.cons (by simp) _)
    rw [Values.tokens, args, hv, ok_bind]
    simp [Values.terms]
  | n + 1, .cons v comma values, c, rest, h => by
    rw [Values.tokens, List.length_append, List.length_cons] at h
    have hv := value_reads n v (comma.1 :: (values.tokens ++ c.1 :: rest)) (by omega)
      (.cons (by simp) _)
    have hvalues := args_reads n values c rest (by omega)
    rw [Values.tokens, List.append_assoc, List.cons_append, args, hv, ok_bind]
    simp [hvalues, Values.terms]

end

/-- The list of tokens itself has levels enough for values at its start. -/
theorem arguments_reads (values : Values) (c : Sign .closeParen) (rest : List Token) :
    arguments (values.tokens ++ c.1 :: rest) = .ok (values.terms, rest) := by
  refine args_reads _ values c rest ?_
  rw [levelsFor, List.length_append, List.length_cons]
  omega

theorem readValue_reads (v : Value) (hrest : Stops rest) :
    readValue (v.tokens ++ rest) = .ok (v.term, rest) := by
  refine value_reads _ v rest ?_ hrest
  rw [levelsFor, List.length_append]
  omega

theorem reference_arguments (args : Arguments) (hrest : Stops rest) (name : String)
    (negative : Bool) :
    reference arguments name negative (args.tokens ++ rest) =
      .ok (refer name negative args.terms?, rest) :=
  reference_reads hrest (fun values c _ => arguments_reads values c rest) name negative

/-! ## Selectors, positions and parameters -/

theorem selector_reads (s : Selector) (hrest : Stops rest) :
    selector (s.tokens ++ rest) = .ok (s.term, rest) := by
  cases s with
  | string s =>
    rw [Selector.tokens, List.singleton_append, selector, expect_cons _ (by simp [s.2]), ok_bind]
    simp [s.2, Selector.term]
  | reference name args =>
    rw [Selector.tokens, List.cons_append, selector, expect_cons _ (by simp [name.2]), ok_bind]
    simp [name.2, reference_arguments args hrest, Selector.term]

/-- A position is read in front of a block. -/
theorem position?_reads (p : Position) (o : Sign .openBrace) (ts : List Token) :
    position? (p.tokens ++ o.1 :: ts) = .ok (p.term?, o.1 :: ts) := by
  cases p with
  | absent => simp [Position.tokens, position?, Position.term?]
  | number at' m n =>
    rw [Position.tokens, List.cons_append, List.append_assoc, List.singleton_append, position?,
      if_pos at'.2, minus_tokens m (n.isOperator _)]
    dsimp only
    rw [expect_cons _ (by simp [n.kind]), ok_bind]
    simp [n.kind, Position.term?]
  | reference at' m name args =>
    rw [Position.tokens, List.cons_append, List.append_assoc, List.cons_append, position?,
      if_pos at'.2, minus_tokens m (name.isOperator nofun _)]
    dsimp only
    rw [expect_cons _ (by simp [name.2]), ok_bind]
    simp [name.2, reference_arguments args (.cons (o.isOperator _) ts), Position.term?]

theorem paramsFrom_reads : ∀ (n : Nat) (names : Words) (c : Sign .closeParen) (rest : List Token),
    names.tokens.length < n →
    paramsFrom n (names.tokens ++ c.1 :: rest) = .ok (names.texts, rest)
  | 0, _, _, _, h => absurd h (Nat.not_lt_zero _)
  | n + 1, .one name, c, rest, _ => by
    simp [Words.tokens, paramsFrom, Words.texts]
  | n + 1, .cons name comma names, c, rest, h => by
    rw [Words.tokens, List.length_cons, List.length_cons] at h
    have hnames := paramsFrom_reads n names c rest (by omega)
    simp [Words.tokens, paramsFrom, Words.texts, hnames]

/-- Identifiers do not start with a closing parenthesis. -/
theorem Words.operator?_tokens (names : Words) (ts : List Token) :
    operator? .closeParen (names.tokens ++ ts) = none := by
  cases names <;> simp [tokens]

theorem params_reads (preset : String) (ps : Params) (rest : List Token) :
    params preset (ps.tokens ++ rest) = .ok (ps.names, rest) := by
  cases ps with
  | empty o c => simp [Params.tokens, params, Params.names]
  | listed o names c =>
    have hnames := paramsFrom_reads (levelsFor (names.tokens ++ c.1 :: rest)) names c rest
      (by rw [levelsFor, List.length_append]; omega)
    simp [Params.tokens, params, names.operator?_tokens, hnames, Params.names]

/-! ## Directives -/

/-- The tokens end, or a block does. -/
def Closes (ts : List Token) : Prop := ∀ t ∈ ts.head?, t.isOperator .closeBrace

theorem Closes.nil : Closes [] := nofun

theorem Closes.cons (c : Sign .closeBrace) (ts : List Token) : Closes (c.1 :: ts) := by
  rintro t ⟨⟩
  exact c.2

theorem Closes.stops (h : Closes ts) : Stops ts := by
  cases ts with
  | nil => exact .nil
  | cons t ts =>
    have ht : t.isOperator .closeBrace := h t rfl
    exact .cons (Sign.isOperator ⟨t, ht⟩ .openParen) ts

theorem directives_closes (n : Nat) (h : Closes ts) : directives (n + 1) ts = .ok ([], ts) := by
  cases ts with
  | nil => rfl
  | cons t ts => rw [directives, if_pos (h t rfl)]

/-- A selector is not taken for the keyword of all elements. -/
theorem Selector.tokens_eq (s : Selector) : ∃ t ts, s.tokens = t :: ts ∧ t.isKeyword .all = false := by
  cases s with
  | string s => exact ⟨s.1, [], rfl, s.isKeyword nofun _⟩
  | reference name args => exact ⟨name.1, args.tokens, rfl, name.isKeyword nofun _⟩

/-- A block does not go on with arguments. -/
theorem Block.stops (b : Block) (ts : List Token) : Stops (b.tokens ++ ts) := by
  cases b with
  | braces o body c => exact .cons (by simp) _

/-- A position is read in front of a block, and none is found where there is none. -/
theorem position?_block (p : Position) (b : Block) (ts : List Token) :
    position? (p.tokens ++ (b.tokens ++ ts)) = .ok (p.term?, b.tokens ++ ts) := by
  cases b with
  | braces o body c => exact position?_reads p o _

theorem Position.stops (p : Position) (b : Block) (ts : List Token) :
    Stops (p.tokens ++ (b.tokens ++ ts)) := by
  cases p with
  | absent => exact b.stops ts
  | number at' m n => exact .cons (by simp) _
  | reference at' m name args => exact .cons (by simp) _

/-- A directive starts with its keyword. -/
theorem Directive.tokens_eq (d : Directive) : ∃ (k : Reserved d.keyword) (ts : List Token),
    d.tokens = k.1 :: ts := by
  cases d <;> exact ⟨_, _, rfl⟩

/-- What starts with a keyword is no directive but one of this keyword. -/
theorem Directive.keyword_eq_of_tokens {k : Keyword} {r : Reserved k} {d : Directive}
    (h : r.1 :: ts = d.tokens ++ rest) : d.keyword = k := by
  obtain ⟨r', ts', hd⟩ := d.tokens_eq
  rw [hd, List.cons_append] at h
  obtain ⟨hr, -⟩ := List.cons.inj h
  have hkeyword := r'.keyword?
  rw [← hr, r.keyword?] at hkeyword
  exact (Option.some.inj hkeyword).symm

/-- A directive is read behind its keyword, if its block is read. -/
theorem directiveOf_reads {body : List Token → Reading (List (Term Unit) × List Token)}
    (d : Directive) (hrest : Stops rest)
    (hbody : ∀ b : Block, b.tokens.length < d.tokens.length →
      block body (b.tokens ++ rest) = .ok (b.terms, rest)) :
    ∃ (k : Reserved d.keyword) (ts : List Token), d.tokens = k.1 :: ts ∧
      directiveOf body k.1 (ts ++ rest) = .ok (d.term, rest) := by
  cases d with
  | «include» k name =>
    refine ⟨k, _, rfl, ?_⟩
    simp [directiveOf, Directive.term]
  | file k path b =>
    refine ⟨k, _, rfl, ?_⟩
    have hb := hbody b (by
      simp only [Directive.tokens, List.length_cons, List.length_append]
      omega)
    simp [directiveOf, selector_reads path (b.stops rest), hb, Directive.term]
  | use k name args =>
    refine ⟨k, _, rfl, ?_⟩
    have hargs := reference_arguments args hrest name.1.text false
    cases hterms : args.terms? with
    | none => simp [directiveOf, hargs, hterms, refer, Directive.term]
    | some vs => simp [directiveOf, hargs, hterms, refer, Directive.term]
  | preset k name ps b =>
    refine ⟨k, _, rfl, ?_⟩
    have hb := hbody b (by
      simp only [Directive.tokens, List.length_cons, List.length_append]
      omega)
    simp [directiveOf, params_reads, hb, Directive.term]
  | set k name eq v =>
    refine ⟨k, _, rfl, ?_⟩
    have hname : Stops (eq.1 :: (v.tokens ++ rest)) := .cons (by simp) _
    simp [directiveOf, selector_reads name hname, readValue_reads v hrest, Directive.term]
  | add k tag p b =>
    refine ⟨k, _, rfl, ?_⟩
    have hb := hbody b (by
      simp only [Directive.tokens, List.length_cons, List.length_append]
      omega)
    have htag := selector_reads tag (p.stops b rest)
    cases hterm : p.term? with
    | none => simp [directiveOf, htag, position?_block, hb, hterm, Directive.term]
    | some v => simp [directiveOf, htag, position?_block, hb, hterm, Directive.term]
  | changeOrAdd k tag p b =>
    refine ⟨k, _, rfl, ?_⟩
    have hb := hbody b (by
      simp only [Directive.tokens, List.length_cons, List.length_append]
      omega)
    have htag := selector_reads tag (p.stops b rest)
    cases hterm : p.term? with
    | none => simp [directiveOf, htag, position?_block, hb, hterm, Directive.term]
    | some v => simp [directiveOf, htag, position?_block, hb, hterm, Directive.term]
  | all k s b =>
    refine ⟨k, _, rfl, ?_⟩
    have hb := hbody b (by
      simp only [Directive.tokens, List.length_cons, List.length_append]
      omega)
    simp [directiveOf, selector_reads s (b.stops rest), hb, Directive.term]
  | change k s b =>
    refine ⟨k, _, rfl, ?_⟩
    have hb := hbody b (by
      simp only [Directive.tokens, List.length_cons, List.length_append]
      omega)
    simp [directiveOf, selector_reads s (b.stops rest), hb, Directive.term]
  | remove k s =>
    refine ⟨k, _, rfl, ?_⟩
    have hs := selector_reads s hrest
    obtain ⟨t, ts, heq, ht⟩ := s.tokens_eq
    rw [heq, List.cons_append] at hs ⊢
    simp [directiveOf, ht, hs, Directive.term]
  | removeAll k all' s =>
    refine ⟨k, _, rfl, ?_⟩
    simp [directiveOf, selector_reads s hrest, Directive.term]
  | const k name eq v =>
    refine ⟨k, _, rfl, ?_⟩
    simp [directiveOf, readValue_reads v hrest, Directive.term]

/-- Directives and what ends them do not go on with arguments. -/
theorem Directives.stops (ds : Directives) (hrest : Closes rest) : Stops (ds.tokens ++ rest) := by
  cases ds with
  | nil => exact hrest.stops
  | cons d ds =>
    obtain ⟨k, ts, heq⟩ := d.tokens_eq
    rw [tokens, heq]
    exact .cons (by simp) _

theorem block_reads {body : List Token → Reading (List (Term Unit) × List Token)} (b : Block)
    (ts : List Token)
    (h : ∀ ds : Directives, ds.tokens.length < b.tokens.length → ∀ ts', Closes ts' →
      body (ds.tokens ++ ts') = .ok (ds.terms, ts')) :
    block body (b.tokens ++ ts) = .ok (b.terms, ts) := by
  cases b with
  | braces o ds c =>
    have hds := h ds (by rw [Block.tokens, List.length_cons, List.length_append]; omega) _
      (.cons c ts)
    simp [Block.tokens, block, hds, Block.terms]

/-- Directives are read up to the end of their block. -/
theorem directives_reads : ∀ (n : Nat) (ds : Directives) (rest : List Token),
    ds.tokens.length < n → Closes rest →
    directives n (ds.tokens ++ rest) = .ok (ds.terms, rest)
  | 0, _, _, h, _ => absurd h (Nat.not_lt_zero _)
  | n + 1, .nil, rest, _, hrest => directives_closes n hrest
  | n + 1, .cons d ds, rest, h, hrest => by
    rw [Directives.tokens, List.length_append] at h
    have hlength : 0 < d.tokens.length := by
      obtain ⟨k, ts, heq⟩ := d.tokens_eq
      simp [heq]
    obtain ⟨k, ts, heq, hd⟩ := directiveOf_reads d (ds.stops hrest)
      fun b hb => block_reads b _ fun ds' hds' rest' hrest' =>
        directives_reads n ds' rest' (by omega) hrest'
    have hds := directives_reads n ds rest (by omega) hrest
    simp [Directives.tokens, heq, directives, hd, hds, Directives.terms]

/-- A directive is read behind its keyword, if there are more levels than tokens. -/
theorem directiveOf_directives (d : Directive) (hrest : Stops rest) {n : Nat}
    (hn : d.tokens.length ≤ n) :
    ∃ (k : Reserved d.keyword) (ts : List Token), d.tokens = k.1 :: ts ∧
      directiveOf (directives n) k.1 (ts ++ rest) = .ok (d.term, rest) :=
  directiveOf_reads d hrest fun b hb => block_reads b rest fun ds hds ts' hts' =>
    directives_reads n ds ts' (by omega) hts'

/-- A script that a derivation spells is read, and is what the derivation stands for. -/
theorem parse_tokens (ds : Directives) : parse ds.tokens = .ok ds.terms := by
  have h := directives_reads (levelsFor ds.tokens) ds [] (by rw [levelsFor]; omega) .nil
  rw [List.append_nil] at h
  rw [parse, script, h]
  rfl

end PatchScript.Script.Grammar
