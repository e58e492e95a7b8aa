import PatchScript.Proofs.Script.Completeness

/-!
# Derivations are told by their tokens

No two derivations spell the same tokens.  Where a rule puts one thing behind another,
the question is where the first one ends, and the parser answers it: it reads both from
the same tokens and gets to the same place (`split_eq`).
-/

namespace PatchScript.Script.Grammar

variable {t t' : Token} {ts ts' rest rest' : List Token}

/-! ## Leaves -/

theorem Numeral.unique {n n' : Numeral} (h : n.token = n'.token) : n = n' := by
  obtain ⟨t, kind, x, hx⟩ := n
  obtain ⟨t', kind', x', hx'⟩ := n'
  obtain rfl : t = t' := h
  obtain rfl : x = x' := Option.some.inj (hx.symm.trans hx')
  rfl

theorem Scalar.unique {s s' : Scalar} (h : s.token = s'.token) : s = s' := by
  have hkind := congrArg Token.kind h
  cases s with
  | number n =>
    cases s' with
    | number n' => rw [Numeral.unique h]
    | string s' => simp [token, n.kind, s'.2] at hkind
    | boolean b' => simp [token, n.kind, b'.2] at hkind
  | string s =>
    cases s' with
    | number n' => simp [token, s.2, n'.kind] at hkind
    | string s' => rw [Subtype.ext h]
    | boolean b' => simp [token, s.2, b'.2] at hkind
  | boolean b =>
    cases s' with
    | number n' => simp [token, b.2, n'.kind] at hkind
    | string s' => simp [token, b.2, s'.2] at hkind
    | boolean b' => rw [Subtype.ext h]

/-- No scalar is an identifier. -/
theorem Scalar.token_ne (s : Scalar) (name : Word) : s.token ≠ name.1 := by
  intro h
  have hkind := congrArg Token.kind h
  cases s with
  | number n => simp [token, n.kind, name.2] at hkind
  | string s => simp [token, s.2, name.2] at hkind
  | boolean b => simp [token, b.2, name.2] at hkind

/-- In front of anything else, a minus sign is there or it is not. -/
theorem Minus.unique {m m' : Minus} (ht : t.isOperator .minus = false)
    (ht' : t'.isOperator .minus = false) (h : m.tokens ++ t :: ts = m'.tokens ++ t' :: ts') :
    m = m' ∧ t = t' ∧ ts = ts' := by
  cases m with
  | none =>
    cases m' with
    | none =>
      obtain ⟨rfl, rfl⟩ := List.cons.inj h
      exact ⟨rfl, rfl, rfl⟩
    | some o' =>
      obtain ⟨rfl, -⟩ := List.cons.inj h
      simp at ht
  | some o =>
    cases m' with
    | none =>
      obtain ⟨rfl, -⟩ := List.cons.inj h
      simp at ht'
    | some o' =>
      obtain ⟨ho, h⟩ := List.cons.inj h
      obtain ⟨rfl, rfl⟩ := List.cons.inj h
      exact ⟨by rw [Subtype.ext ho], rfl, rfl⟩

/-- Parentheses with something between them are not parentheses with nothing between. -/
theorem listed_ne_empty {o o' t : Token} {c : Sign .closeParen}
    (h : ∀ us, operator? .closeParen (ts ++ us) = none) : o :: (ts ++ [t]) ≠ [o', c.1] := by
  intro heq
  obtain ⟨-, heq⟩ := List.cons.inj heq
  have hts := h [t]
  rw [heq] at hts
  simp at hts

/-! ## Where the first part ends -/

/-- What is read from the same tokens is the same. -/
theorem split_eq {α : Type} {p : List Token → Reading (α × List Token)} {x x' : α}
    (h : p (ts ++ rest) = .ok (x, rest)) (h' : p (ts' ++ rest') = .ok (x', rest'))
    (heq : ts ++ rest = ts' ++ rest') : ts = ts' ∧ rest = rest' := by
  rw [heq, h'] at h
  cases h
  exact ⟨List.append_cancel_right heq, rfl⟩

theorem Value.split {v v' : Value} (hrest : Stops rest) (hrest' : Stops rest')
    (h : v.tokens ++ rest = v'.tokens ++ rest') : v.tokens = v'.tokens ∧ rest = rest' :=
  split_eq (readValue_reads v hrest) (readValue_reads v' hrest') h

theorem Selector.split {s s' : Selector} (hrest : Stops rest) (hrest' : Stops rest')
    (h : s.tokens ++ rest = s'.tokens ++ rest') : s.tokens = s'.tokens ∧ rest = rest' :=
  split_eq (selector_reads s hrest) (selector_reads s' hrest') h

/-- A selector in front of a block. -/
theorem Selector.split_block {s s' : Selector} {b b' : Block}
    (h : s.tokens ++ b.tokens = s'.tokens ++ b'.tokens) :
    s.tokens = s'.tokens ∧ b.tokens = b'.tokens := by
  have hb := b.stops []
  have hb' := b'.stops []
  rw [List.append_nil] at hb hb'
  exact Selector.split hb hb' h

/-- A selector in front of a position and a block. -/
theorem Selector.split_position {s s' : Selector} {p p' : Position} {b b' : Block}
    (h : s.tokens ++ (p.tokens ++ b.tokens) = s'.tokens ++ (p'.tokens ++ b'.tokens)) :
    s.tokens = s'.tokens ∧ p.tokens ++ b.tokens = p'.tokens ++ b'.tokens := by
  have hp := p.stops b []
  have hp' := p'.stops b' []
  rw [List.append_nil] at hp hp'
  exact Selector.split hp hp' h

theorem Position.split {p p' : Position} {b b' : Block}
    (h : p.tokens ++ b.tokens = p'.tokens ++ b'.tokens) :
    p.tokens = p'.tokens ∧ b.tokens = b'.tokens := by
  have hp := position?_block p b []
  have hp' := position?_block p' b' []
  rw [List.append_nil] at hp hp'
  exact split_eq hp hp' h

theorem Params.split {ps ps' : Params} (h : ps.tokens ++ rest = ps'.tokens ++ rest') :
    ps.tokens = ps'.tokens ∧ rest = rest' :=
  split_eq (params_reads "" ps rest) (params_reads "" ps' rest') h

/-! ## Values -/

mutual

/-- Values are told by their tokens. -/
theorem Value.unique : ∀ {v v' : Value}, v.tokens = v'.tokens → v = v'
  | .scalar m s, .scalar m' s', h => by
    obtain ⟨rfl, hs, -⟩ := Minus.unique (s.isOperator _) (s'.isOperator _) h
    rw [Scalar.unique hs]
  | .scalar m s, .reference m' name' args', h => by
    obtain ⟨-, hs, -⟩ := Minus.unique (s.isOperator _) (name'.isOperator nofun _) h
    exact absurd hs (s.token_ne name')
  | .reference m name args, .scalar m' s', h => by
    obtain ⟨-, hs, -⟩ := Minus.unique (name.isOperator nofun _) (s'.isOperator _) h
    exact absurd hs.symm (s'.token_ne name)
  | .reference m name args, .reference m' name' args', h => by
    obtain ⟨rfl, hname, hargs⟩ :=
      Minus.unique (name.isOperator nofun _) (name'.isOperator nofun _) h
    rw [Subtype.ext hname, Arguments.unique hargs]

/-- Arguments are told by their tokens. -/
theorem Arguments.unique : ∀ {args args' : Arguments}, args.tokens = args'.tokens → args = args'
  | .absent, .absent, _ => rfl
  | .absent, .empty .., h => nomatch h
  | .absent, .listed .., h => nomatch h
  | .empty .., .absent, h => nomatch h
  | .listed .., .absent, h => nomatch h
  | .empty o c, .empty o' c', h => by
    obtain ⟨ho, hc⟩ := List.cons.inj h
    rw [Subtype.ext ho, Subtype.ext (List.singleton_inj.mp hc)]
  | .empty o c, .listed o' values' c', h =>
    absurd h.symm (listed_ne_empty values'.operator?_tokens)
  | .listed o values c, .empty o' c', h => absurd h (listed_ne_empty values.operator?_tokens)
  | .listed o values c, .listed o' values' c', h => by
    obtain ⟨ho, h⟩ := List.cons.inj h
    obtain ⟨hvalues, hc⟩ := List.append_inj' h rfl
    rw [Subtype.ext ho, Values.unique hvalues, Subtype.ext (List.singleton_inj.mp hc)]

/-- Lists of values are told by their tokens. -/
theorem Values.unique : ∀ {values values' : Values}, values.tokens = values'.tokens →
    values = values'
  | .one v, .one v', h => by rw [Value.unique h]
  | .one v, .cons v' comma' values', h => by
    rw [Values.tokens, Values.tokens, ← List.append_nil v.tokens] at h
    obtain ⟨-, hnil⟩ := Value.split .nil (.cons (comma'.isOperator _) _) h
    cases hnil
  | .cons v comma values, .one v', h => by
    rw [eq_comm, Values.tokens, Values.tokens, ← List.append_nil v'.tokens] at h
    obtain ⟨-, hnil⟩ := Value.split .nil (.cons (comma.isOperator _) _) h
    cases hnil
  | .cons v comma values, .cons v' comma' values', h => by
    obtain ⟨hv, hrest⟩ :=
      Value.split (.cons (comma.isOperator _) _) (.cons (comma'.isOperator _) _) h
    obtain ⟨hcomma, hvalues⟩ := List.cons.inj hrest
    rw [Value.unique hv, Subtype.ext hcomma, Values.unique hvalues]

end

/-! ## Selectors, positions and parameters -/

theorem Selector.unique {s s' : Selector} (h : s.tokens = s'.tokens) : s = s' := by
  cases s with
  | string s =>
    cases s' with
    | string s' => rw [Subtype.ext (List.singleton_inj.mp h)]
    | reference name' args' =>
      obtain ⟨hs, -⟩ := List.cons.inj h
      exact absurd hs ((Scalar.string s).token_ne name')
  | reference name args =>
    cases s' with
    | string s' =>
      obtain ⟨hs, -⟩ := List.cons.inj h
      exact absurd hs.symm ((Scalar.string s').token_ne name)
    | reference name' args' =>
      obtain ⟨hname, hargs⟩ := List.cons.inj h
      rw [Subtype.ext hname, Arguments.unique hargs]

/-- A selector does not start with the keyword of all elements. -/
theorem Selector.tokens_ne (s : Selector) (all' : Reserved .all) (ts : List Token) :
    s.tokens ≠ all'.1 :: ts := by
  intro h
  obtain ⟨t, ts', hs, ht⟩ := s.tokens_eq
  obtain ⟨rfl, -⟩ := List.cons.inj (hs.symm.trans h)
  simp at ht

theorem Position.unique {p p' : Position} (h : p.tokens = p'.tokens) : p = p' := by
  cases p with
  | absent =>
    cases p' with
    | absent => rfl
    | number at' m n => cases h
    | reference at' m name args => cases h
  | number at' m n =>
    cases p' with
    | absent => cases h
    | number at'' m' n' =>
      obtain ⟨hat, h⟩ := List.cons.inj h
      obtain ⟨rfl, hn, -⟩ := Minus.unique (n.isOperator _) (n'.isOperator _) h
      rw [Subtype.ext hat, Numeral.unique hn]
    | reference at'' m' name' args' =>
      obtain ⟨-, h⟩ := List.cons.inj h
      obtain ⟨-, hn, -⟩ := Minus.unique (n.isOperator _) (name'.isOperator nofun _) h
      exact absurd hn ((Scalar.number n).token_ne name')
  | reference at' m name args =>
    cases p' with
    | absent => cases h
    | number at'' m' n' =>
      obtain ⟨-, h⟩ := List.cons.inj h
      obtain ⟨-, hn, -⟩ := Minus.unique (name.isOperator nofun _) (n'.isOperator _) h
      exact absurd hn.symm ((Scalar.number n').token_ne name)
    | reference at'' m' name' args' =>
      obtain ⟨hat, h⟩ := List.cons.inj h
      obtain ⟨rfl, hname, hargs⟩ :=
        Minus.unique (name.isOperator nofun _) (name'.isOperator nofun _) h
      rw [Subtype.ext hat, Subtype.ext hname, Arguments.unique hargs]

theorem Words.unique : ∀ {names names' : Words}, names.tokens = names'.tokens → names = names'
  | .one name, .one name', h => by rw [Subtype.ext (List.singleton_inj.mp h)]
  | .one name, .cons name' comma' names', h => by
    obtain ⟨-, h⟩ := List.cons.inj h
    cases h
  | .cons name comma names, .one name', h => by
    obtain ⟨-, h⟩ := List.cons.inj h
    cases h
  | .cons name comma names, .cons name' comma' names', h => by
    obtain ⟨hname, h⟩ := List.cons.inj h
    obtain ⟨hcomma, hnames⟩ := List.cons.inj h
    rw [Subtype.ext hname, Subtype.ext hcomma, Words.unique hnames]

theorem Params.unique {ps ps' : Params} (h : ps.tokens = ps'.tokens) : ps = ps' := by
  cases ps with
  | empty o c =>
    cases ps' with
    | empty o' c' =>
      obtain ⟨ho, hc⟩ := List.cons.inj h
      rw [Subtype.ext ho, Subtype.ext (List.singleton_inj.mp hc)]
    | listed o' names' c' => exact absurd h.symm (listed_ne_empty names'.operator?_tokens)
  | listed o names c =>
    cases ps' with
    | empty o' c' => exact absurd h (listed_ne_empty names.operator?_tokens)
    | listed o' names' c' =>
      obtain ⟨ho, h⟩ := List.cons.inj h
      obtain ⟨hnames, hc⟩ := List.append_inj' h rfl
      rw [Subtype.ext ho, Words.unique hnames, Subtype.ext (List.singleton_inj.mp hc)]

/-! ## Directives -/

theorem Directive.keyword_eq {d d' : Directive} (h : d.tokens = d'.tokens) :
    d.keyword = d'.keyword := by
  obtain ⟨k', ts', hd'⟩ := d'.tokens_eq
  have htokens : k'.1 :: ts' = d.tokens ++ [] := by rw [List.append_nil, h, hd']
  exact keyword_eq_of_tokens htokens

theorem Directive.split {d d' : Directive} (hrest : Stops rest) (hrest' : Stops rest')
    (h : d.tokens ++ rest = d'.tokens ++ rest') : d.tokens = d'.tokens ∧ rest = rest' := by
  obtain ⟨k, ts, hd, hread⟩ := directiveOf_directives d hrest
    (Nat.le_max_left d.tokens.length d'.tokens.length)
  obtain ⟨k', ts', hd', hread'⟩ := directiveOf_directives d' hrest'
    (Nat.le_max_right d.tokens.length d'.tokens.length)
  rw [hd, hd'] at h ⊢
  obtain ⟨hk, h⟩ := List.cons.inj h
  rw [hk] at hread
  obtain ⟨rfl, rfl⟩ := split_eq hread hread' h
  exact ⟨by rw [hk], rfl⟩

mutual

/-- A directive is told by its tokens: the keyword tells the rule. -/
theorem Directive.unique {d d' : Directive} (h : d.tokens = d'.tokens) : d = d' := by
  have hkeyword := Directive.keyword_eq h
  cases d with
  | «include» k name =>
    cases d' with
    | «include» k' name' =>
      obtain ⟨hk, h⟩ := List.cons.inj h
      rw [Subtype.ext hk, Subtype.ext (List.singleton_inj.mp h)]
    | _ => cases hkeyword
  | file k path b =>
    cases d' with
    | file k' path' b' =>
      obtain ⟨hk, h⟩ := List.cons.inj h
      obtain ⟨hpath, hb⟩ := Selector.split_block h
      rw [Subtype.ext hk, Selector.unique hpath, Block.unique hb]
    | _ => cases hkeyword
  | use k name args =>
    cases d' with
    | use k' name' args' =>
      obtain ⟨hk, h⟩ := List.cons.inj h
      obtain ⟨hname, hargs⟩ := List.cons.inj h
      rw [Subtype.ext hk, Subtype.ext hname, Arguments.unique hargs]
    | _ => cases hkeyword
  | preset k name ps b =>
    cases d' with
    | preset k' name' ps' b' =>
      obtain ⟨hk, h⟩ := List.cons.inj h
      obtain ⟨hname, h⟩ := List.cons.inj h
      obtain ⟨hps, hb⟩ := Params.split h
      rw [Subtype.ext hk, Subtype.ext hname, Params.unique hps, Block.unique hb]
    | _ => cases hkeyword
  | set k name eq v =>
    cases d' with
    | set k' name' eq' v' =>
      obtain ⟨hk, h⟩ := List.cons.inj h
      obtain ⟨hname, h⟩ :=
        Selector.split (.cons (eq.isOperator _) _) (.cons (eq'.isOperator _) _) h
      obtain ⟨heq, hv⟩ := List.cons.inj h
      rw [Subtype.ext hk, Selector.unique hname, Subtype.ext heq, Value.unique hv]
    | _ => cases hkeyword
  | add k tag p b =>
    cases d' with
    | add k' tag' p' b' =>
      obtain ⟨hk, h⟩ := List.cons.inj h
      obtain ⟨htag, h⟩ := Selector.split_position h
      obtain ⟨hp, hb⟩ := Position.split h
      rw [Subtype.ext hk, Selector.unique htag, Position.unique hp, Block.unique hb]
    | _ => cases hkeyword
  | changeOrAdd k tag p b =>
    cases d' with
    | changeOrAdd k' tag' p' b' =>
      obtain ⟨hk, h⟩ := List.cons.inj h
      obtain ⟨htag, h⟩ := Selector.split_position h
      obtain ⟨hp, hb⟩ := Position.split h
      rw [Subtype.ext hk, Selector.unique htag, Position.unique hp, Block.unique hb]
    | _ => cases hkeyword
  | all k s b =>
    cases d' with
    | all k' s' b' =>
      obtain ⟨hk, h⟩ := List.cons.inj h
      obtain ⟨hs, hb⟩ := Selector.split_block h
      rw [Subtype.ext hk, Selector.unique hs, Block.unique hb]
    | _ => cases hkeyword
  | change k s b =>
    cases d' with
    | change k' s' b' =>
      obtain ⟨hk, h⟩ := List.cons.inj h
      obtain ⟨hs, hb⟩ := Selector.split_block h
      rw [Subtype.ext hk, Selector.unique hs, Block.unique hb]
    | _ => cases hkeyword
  | remove k s =>
    cases d' with
    | remove k' s' =>
      obtain ⟨hk, hs⟩ := List.cons.inj h
      rw [Subtype.ext hk, Selector.unique hs]
    | removeAll k' all' s' =>
      obtain ⟨-, h⟩ := List.cons.inj h
      exact absurd h (s.tokens_ne all' _)
    | _ => cases hkeyword
  | removeAll k all' s =>
    cases d' with
    | remove k' s' =>
      obtain ⟨-, h⟩ := List.cons.inj h
      exact absurd h.symm (s'.tokens_ne all' _)
    | removeAll k' all'' s' =>
      obtain ⟨hk, h⟩ := List.cons.inj h
      obtain ⟨hall, hs⟩ := List.cons.inj h
      rw [Subtype.ext hk, Subtype.ext hall, Selector.unique hs]
    | _ => cases hkeyword
  | const k name eq v =>
    cases d' with
    | const k' name' eq' v' =>
      obtain ⟨hk, h⟩ := List.cons.inj h
      obtain ⟨hname, h⟩ := List.cons.inj h
      obtain ⟨heq, hv⟩ := List.cons.inj h
      rw [Subtype.ext hk, Subtype.ext hname, Subtype.ext heq, Value.unique hv]
    | _ => cases hkeyword

/-- A block is told by its tokens. -/
theorem Block.unique : ∀ {b b' : Block}, b.tokens = b'.tokens → b = b'
  | .braces o ds c, .braces o' ds' c', h => by
    obtain ⟨ho, h⟩ := List.cons.inj h
    obtain ⟨hds, hc⟩ := List.append_inj' h rfl
    rw [Subtype.ext ho, Directives.unique hds, Subtype.ext (List.singleton_inj.mp hc)]

/-- Directives are told by their tokens. -/
theorem Directives.unique : ∀ {ds ds' : Directives}, ds.tokens = ds'.tokens → ds = ds'
  | .nil, .nil, _ => rfl
  | .nil, .cons d' ds', h => by
    obtain ⟨k, ts, hd⟩ := d'.tokens_eq
    rw [Directives.tokens, Directives.tokens, hd] at h
    cases h
  | .cons d ds, .nil, h => by
    obtain ⟨k, ts, hd⟩ := d.tokens_eq
    rw [Directives.tokens, Directives.tokens, hd] at h
    cases h
  | .cons d ds, .cons d' ds', h => by
    have hds := ds.stops .nil
    have hds' := ds'.stops .nil
    rw [List.append_nil] at hds hds'
    obtain ⟨hd, h⟩ := Directive.split hds hds' h
    rw [Directive.unique hd, Directives.unique h]

end

end PatchScript.Script.Grammar
