import Mathlib
import PatchScript.Proofs.Script.Soundness
import PatchScript.Proofs.Script.Unambiguity

/-!
# The parser decides the grammar

The parser accepts the lists of tokens that have a derivation, and gives what the
derivation stands for (`parse_eq_ok_iff`).  There is only one derivation of each list.

What holds of all accepted lists is read off their derivations: every number token in
them denotes a number, and a minus sign in front of a string or a truth value can be left
out without a change of the script.
-/

namespace PatchScript.Script.Grammar

variable {t : Token} {ts us ts' us' : List Token}

/-! ## Numbers -/

/-- Each number token denotes a number. -/
def Readable (ts : List Token) : Prop :=
  ∀ t ∈ ts, t.kind = .number → (Binary64.ofText? t.text).isSome

namespace Readable

theorem nil : Readable [] := nofun

theorem cons (ht : t.kind ≠ .number) (hts : Readable ts) : Readable (t :: ts) := by
  intro u hu hkind
  rcases List.mem_cons.mp hu with rfl | hu
  · exact absurd hkind ht
  · exact hts u hu hkind

theorem append (hts : Readable ts) (hus : Readable us) : Readable (ts ++ us) := by
  intro u hu hkind
  rcases List.mem_append.mp hu with hu | hu
  · exact hts u hu hkind
  · exact hus u hu hkind

end Readable

theorem Sign.ne_number {op : Operator} (o : Sign op) : o.1.kind ≠ .number := by
  rw [o.kind]
  nofun

theorem Reserved.ne_number {k : Keyword} (r : Reserved k) : r.1.kind ≠ .number := by
  rw [r.spec.1]
  nofun

theorem OfKind.ne_number {sort : TokenKind} (t : OfKind sort) (h : sort ≠ .number) :
    t.1.kind ≠ .number := by
  rwa [t.2]

theorem Numeral.readable (n : Numeral) : Readable [n.token] := by
  intro t ht _
  rw [List.mem_singleton.mp ht, n.denotes]
  rfl

theorem Minus.readable (m : Minus) : Readable m.tokens := by
  cases m with
  | none => exact .nil
  | some o => exact .cons o.ne_number .nil

theorem Scalar.readable (s : Scalar) : Readable [s.token] := by
  cases s with
  | number n => exact n.readable
  | string s => exact .cons (s.ne_number nofun) .nil
  | boolean b => exact .cons (b.ne_number nofun) .nil

mutual

theorem Value.readable : ∀ v : Value, Readable v.tokens
  | .scalar m s => m.readable.append s.readable
  | .reference m name args => m.readable.append (.cons (name.ne_number nofun) args.readable)

theorem Arguments.readable : ∀ args : Arguments, Readable args.tokens
  | .absent => .nil
  | .empty o c => .cons o.ne_number (.cons c.ne_number .nil)
  | .listed o values c => .cons o.ne_number (values.readable.append (.cons c.ne_number .nil))

theorem Values.readable : ∀ values : Values, Readable values.tokens
  | .one v => v.readable
  | .cons v comma values => v.readable.append (.cons comma.ne_number values.readable)

end

theorem Selector.readable (s : Selector) : Readable s.tokens := by
  cases s with
  | string s => exact .cons (s.ne_number nofun) .nil
  | reference name args => exact .cons (name.ne_number nofun) args.readable

theorem Position.readable (p : Position) : Readable p.tokens := by
  cases p with
  | absent => exact .nil
  | number at' m n => exact .cons at'.ne_number (m.readable.append n.readable)
  | reference at' m name args =>
    exact .cons at'.ne_number (m.readable.append (.cons (name.ne_number nofun) args.readable))

theorem Words.readable : ∀ names : Words, Readable names.tokens
  | .one name => .cons (name.ne_number nofun) .nil
  | .cons name comma names => .cons (name.ne_number nofun) (.cons comma.ne_number names.readable)

theorem Params.readable (ps : Params) : Readable ps.tokens := by
  cases ps with
  | empty o c => exact .cons o.ne_number (.cons c.ne_number .nil)
  | listed o names c => exact .cons o.ne_number (names.readable.append (.cons c.ne_number .nil))

mutual

theorem Directive.readable : ∀ d : Directive, Readable d.tokens
  | .include k name => .cons k.ne_number (.cons (name.ne_number nofun) .nil)
  | .file k path b => .cons k.ne_number (path.readable.append b.readable)
  | .use k name args => .cons k.ne_number (.cons (name.ne_number nofun) args.readable)
  | .preset k name ps b =>
    .cons k.ne_number (.cons (name.ne_number nofun) (ps.readable.append b.readable))
  | .set k name eq v => .cons k.ne_number (name.readable.append (.cons eq.ne_number v.readable))
  | .add k tag p b => .cons k.ne_number (tag.readable.append (p.readable.append b.readable))
  | .changeOrAdd k tag p b =>
    .cons k.ne_number (tag.readable.append (p.readable.append b.readable))
  | .all k s b => .cons k.ne_number (s.readable.append b.readable)
  | .change k s b => .cons k.ne_number (s.readable.append b.readable)
  | .remove k s => .cons k.ne_number s.readable
  | .removeAll k all' s => .cons k.ne_number (.cons all'.ne_number s.readable)
  | .const k name eq v =>
    .cons k.ne_number (.cons (name.ne_number nofun) (.cons eq.ne_number v.readable))

theorem Block.readable : ∀ b : Block, Readable b.tokens
  | .braces o ds c => .cons o.ne_number (ds.readable.append (.cons c.ne_number .nil))

/-- A derivation has no number tokens but those that denote numbers. -/
theorem Directives.readable : ∀ ds : Directives, Readable ds.tokens
  | .nil => .nil
  | .cons d ds => d.readable.append ds.readable

end

/-! ## Signs that tell nothing -/

/-- The token is a string or a truth value. -/
def isUnsigned (t : Token) : Bool := t.kind = .string || t.kind = .boolean

/-- The tokens without the minus signs in front of strings and truth values. -/
def dropSigns : List Token → List Token
  | [] => []
  | t :: ts =>
    if t.isOperator .minus && ts.head?.any isUnsigned then dropSigns ts else t :: dropSigns ts

/-- Without these signs, the first tokens become the second, whatever follows them. -/
def Drops (ts us : List Token) : Prop :=
  ∀ rest, dropSigns (ts ++ rest) = us ++ dropSigns rest

namespace Drops

theorem nil : Drops [] [] := fun _ => rfl

theorem cons (ht : t.isOperator .minus = false) (h : Drops ts us) :
    Drops (t :: ts) (t :: us) := by
  intro rest
  rw [List.cons_append, dropSigns, ht, h rest]
  rfl

theorem append (h : Drops ts us) (h' : Drops ts' us') : Drops (ts ++ ts') (us ++ us') := by
  intro rest
  rw [List.append_assoc, h, h', List.append_assoc]

/-- A minus sign in front of a number or a name stays. -/
theorem minus (m : Minus) (ht : t.isOperator .minus = false) (hunsigned : isUnsigned t = false)
    (h : Drops ts us) : Drops (m.tokens ++ t :: ts) (m.tokens ++ t :: us) := by
  cases m with
  | none => exact .cons ht h
  | some o =>
    intro rest
    have hrest := Drops.cons ht h rest
    rw [List.cons_append] at hrest
    rw [Minus.tokens, List.singleton_append, List.cons_append, List.cons_append, dropSigns,
      List.head?_cons, Option.any_some, hunsigned, Bool.and_false, hrest]
    rfl

/-- A minus sign in front of a string or a truth value goes. -/
theorem unsigned (m : Minus) (ht : t.isOperator .minus = false) (hunsigned : isUnsigned t) :
    Drops (m.tokens ++ [t]) [t] := by
  cases m with
  | none => exact .cons ht .nil
  | some o =>
    intro rest
    simp [Minus.tokens, dropSigns, hunsigned, ht]

end Drops

mutual

theorem Value.drops : ∀ v : Value, ∃ v' : Value, v'.term = v.term ∧ Drops v.tokens v'.tokens
  | .scalar m (.number n) => by
    refine ⟨.scalar m (.number n), rfl, ?_⟩
    exact .minus m (n.isOperator _) (by simp [isUnsigned, Scalar.token, n.kind]) .nil
  | .scalar m (.string s) => by
    refine ⟨.scalar none (.string s), rfl, ?_⟩
    exact .unsigned m (s.isOperator nofun _) (by simp [isUnsigned, Scalar.token, s.2])
  | .scalar m (.boolean b) => by
    refine ⟨.scalar none (.boolean b), rfl, ?_⟩
    exact .unsigned m (b.isOperator nofun _) (by simp [isUnsigned, Scalar.token, b.2])
  | .reference m name args => by
    obtain ⟨args', hterms, hargs⟩ := args.drops
    refine ⟨.reference m name args', ?_, ?_⟩
    · rw [Value.term, hterms, Value.term]
    · exact .minus m (name.isOperator nofun _) (by simp [isUnsigned, name.2]) hargs

theorem Arguments.drops : ∀ args : Arguments, ∃ args' : Arguments,
    args'.terms? = args.terms? ∧ Drops args.tokens args'.tokens
  | .absent => ⟨.absent, rfl, .nil⟩
  | .empty o c => ⟨.empty o c, rfl, .cons (by simp) (.cons (by simp) .nil)⟩
  | .listed o values c => by
    obtain ⟨values', hterms, hvalues⟩ := values.drops
    refine ⟨.listed o values' c, ?_, ?_⟩
    · rw [Arguments.terms?, hterms, Arguments.terms?]
    · exact .cons (by simp) (hvalues.append (.cons (by simp) .nil))

theorem Values.drops : ∀ values : Values, ∃ values' : Values,
    values'.terms = values.terms ∧ Drops values.tokens values'.tokens
  | .one v => by
    obtain ⟨v', hterm, hv⟩ := v.drops
    exact ⟨.one v', by rw [Values.terms, hterm, Values.terms], hv⟩
  | .cons v comma values => by
    obtain ⟨v', hterm, hv⟩ := v.drops
    obtain ⟨values', hterms, hvalues⟩ := values.drops
    refine ⟨.cons v' comma values', ?_, ?_⟩
    · rw [Values.terms, hterm, hterms, Values.terms]
    · exact hv.append (.cons (by simp) hvalues)

end

theorem Selector.drops (s : Selector) :
    ∃ s' : Selector, s'.term = s.term ∧ Drops s.tokens s'.tokens := by
  cases s with
  | string s => exact ⟨.string s, rfl, .cons (by simp) .nil⟩
  | reference name args =>
    obtain ⟨args', hterms, hargs⟩ := args.drops
    exact ⟨.reference name args', by rw [term, hterms, term], .cons (by simp) hargs⟩

theorem Position.drops (p : Position) :
    ∃ p' : Position, p'.term? = p.term? ∧ Drops p.tokens p'.tokens := by
  cases p with
  | absent => exact ⟨.absent, rfl, .nil⟩
  | number at' m n =>
    refine ⟨.number at' m n, rfl, .cons (by simp) ?_⟩
    exact .minus m (n.isOperator _) (by simp [isUnsigned, n.kind]) .nil
  | reference at' m name args =>
    obtain ⟨args', hterms, hargs⟩ := args.drops
    refine ⟨.reference at' m name args', by rw [term?, hterms, term?], .cons (by simp) ?_⟩
    exact .minus m (name.isOperator nofun _) (by simp [isUnsigned, name.2]) hargs

theorem Words.drops : ∀ names : Words, Drops names.tokens names.tokens
  | .one name => .cons (by simp) .nil
  | .cons name comma names => .cons (by simp) (.cons (by simp) names.drops)

theorem Params.drops (ps : Params) : Drops ps.tokens ps.tokens := by
  cases ps with
  | empty o c => exact .cons (by simp) (.cons (by simp) .nil)
  | listed o names c => exact .cons (by simp) (names.drops.append (.cons (by simp) .nil))

mutual

theorem Directive.drops : ∀ d : Directive, ∃ d' : Directive,
    d'.term = d.term ∧ Drops d.tokens d'.tokens
  | .include k name => ⟨.include k name, rfl, .cons (by simp) (.cons (by simp) .nil)⟩
  | .file k path b => by
    obtain ⟨path', hpath, hpaths⟩ := path.drops
    obtain ⟨b', hb, hbs⟩ := b.drops
    refine ⟨.file k path' b', ?_, .cons (by simp) (hpaths.append hbs)⟩
    rw [Directive.term, hpath, hb, Directive.term]
  | .use k name args => by
    obtain ⟨args', hargs, hargss⟩ := args.drops
    refine ⟨.use k name args', ?_, .cons (by simp) (.cons (by simp) hargss)⟩
    rw [Directive.term, hargs, Directive.term]
  | .preset k name ps b => by
    obtain ⟨b', hb, hbs⟩ := b.drops
    refine ⟨.preset k name ps b', ?_, .cons (by simp) (.cons (by simp) (ps.drops.append hbs))⟩
    rw [Directive.term, hb, Directive.term]
  | .set k name eq v => by
    obtain ⟨name', hname, hnames⟩ := name.drops
    obtain ⟨v', hv, hvs⟩ := v.drops
    refine ⟨.set k name' eq v', ?_, .cons (by simp) (hnames.append (.cons (by simp) hvs))⟩
    rw [Directive.term, hname, hv, Directive.term]
  | .add k tag p b => by
    obtain ⟨tag', htag, htags⟩ := tag.drops
    obtain ⟨p', hp, hps⟩ := p.drops
    obtain ⟨b', hb, hbs⟩ := b.drops
    refine ⟨.add k tag' p' b', ?_, .cons (by simp) (htags.append (hps.append hbs))⟩
    rw [Directive.term, htag, hp, hb, Directive.term]
  | .changeOrAdd k tag p b => by
    obtain ⟨tag', htag, htags⟩ := tag.drops
    obtain ⟨p', hp, hps⟩ := p.drops
    obtain ⟨b', hb, hbs⟩ := b.drops
    refine ⟨.changeOrAdd k tag' p' b', ?_, .cons (by simp) (htags.append (hps.append hbs))⟩
    rw [Directive.term, htag, hp, hb, Directive.term]
  | .all k s b => by
    obtain ⟨s', hs, hss⟩ := s.drops
    obtain ⟨b', hb, hbs⟩ := b.drops
    refine ⟨.all k s' b', ?_, .cons (by simp) (hss.append hbs)⟩
    rw [Directive.term, hs, hb, Directive.term]
  | .change k s b => by
    obtain ⟨s', hs, hss⟩ := s.drops
    obtain ⟨b', hb, hbs⟩ := b.drops
    refine ⟨.change k s' b', ?_, .cons (by simp) (hss.append hbs)⟩
    rw [Directive.term, hs, hb, Directive.term]
  | .remove k s => by
    obtain ⟨s', hs, hss⟩ := s.drops
    exact ⟨.remove k s', by rw [Directive.term, hs, Directive.term], .cons (by simp) hss⟩
  | .removeAll k all' s => by
    obtain ⟨s', hs, hss⟩ := s.drops
    refine ⟨.removeAll k all' s', ?_, .cons (by simp) (.cons (by simp) hss)⟩
    rw [Directive.term, hs, Directive.term]
  | .const k name eq v => by
    obtain ⟨v', hv, hvs⟩ := v.drops
    refine ⟨.const k name eq v', ?_, .cons (by simp) (.cons (by simp) (.cons (by simp) hvs))⟩
    rw [Directive.term, hv, Directive.term]

theorem Block.drops : ∀ b : Block, ∃ b' : Block, b'.terms = b.terms ∧ Drops b.tokens b'.tokens
  | .braces o ds c => by
    obtain ⟨ds', hds, hdss⟩ := ds.drops
    refine ⟨.braces o ds' c, ?_, .cons (by simp) (hdss.append (.cons (by simp) .nil))⟩
    rw [Block.terms, hds, Block.terms]

/-- Without the signs that tell nothing, the tokens spell the same script. -/
theorem Directives.drops : ∀ ds : Directives, ∃ ds' : Directives,
    ds'.terms = ds.terms ∧ Drops ds.tokens ds'.tokens
  | .nil => ⟨.nil, rfl, .nil⟩
  | .cons d ds => by
    obtain ⟨d', hd, hdt⟩ := d.drops
    obtain ⟨ds', hds, hdst⟩ := ds.drops
    refine ⟨.cons d' ds', ?_, hdt.append hdst⟩
    rw [Directives.terms, hd, hds, Directives.terms]

end

/-! ## Scripts -/

/-- The parser accepts just the tokens of derivations. -/
theorem parse_eq_ok_iff {body : List (Term Unit)} :
    parse ts = .ok body ↔ ∃ ds : Directives, ds.tokens = ts ∧ ds.terms = body := by
  constructor
  · exact parse_eq_ok
  · rintro ⟨ds, rfl, rfl⟩
    exact parse_tokens ds

/-- A script with one directive among others. -/
theorem parse_between (before after : Directives) (d : Directive) :
    parse (before.tokens ++ (d.tokens ++ after.tokens)) =
      .ok (before.terms ++ d.term :: after.terms) := by
  have h := parse_tokens (before.append (.cons d after))
  rwa [Directives.append_tokens, Directives.append_terms] at h

theorem parse_dropSigns {body : List (Term Unit)} (h : parse ts = .ok body) :
    parse (dropSigns ts) = .ok body := by
  obtain ⟨ds, rfl, rfl⟩ := parse_eq_ok_iff.mp h
  obtain ⟨ds', hterms, hdrops⟩ := ds.drops
  have htokens := hdrops []
  rw [List.append_nil, dropSigns, List.append_nil] at htokens
  rw [htokens, ← hterms]
  exact parse_tokens ds'

/-- Behind `remove`, at any depth, the keyword of all elements tells what is removed. -/
theorem directiveOf_remove {n : Nat} {k : Reserved .remove} {rest : List Token} {v : Term Unit}
    (h : directiveOf (directives n) k.1 ts = .ok (v, rest)) :
    (∃ (all' : Reserved .all) (s : Selector), ts = all'.1 :: s.tokens ++ rest ∧
      v = .removeAll s.term) ∨
    ∃ s : Selector, ts = s.tokens ++ rest ∧ v = .removeAttribute s.term := by
  obtain ⟨d, htokens, rfl⟩ := directiveOf_eq_ok (directives_eq_ok n) h
  have hkeyword := Directive.keyword_eq_of_tokens htokens
  cases d with
  | remove k' s =>
    obtain ⟨-, htokens⟩ := List.cons.inj htokens
    exact .inr ⟨s, htokens, rfl⟩
  | removeAll k' all' s =>
    obtain ⟨-, htokens⟩ := List.cons.inj htokens
    exact .inl ⟨all', s, htokens, rfl⟩
  | _ => cases hkeyword

/-- The parser accepts a list of tokens just if the grammar derives it, and gives the script
of the derivation, of which there is one.  Then `remove` with `all` removes elements and
without it an attribute, among other directives and inside blocks; signs in front of
strings and truth values make no difference; and every number token denotes a number. -/
theorem parser_decides_grammar (ts : List Token) :
    (∀ body, parse ts = .ok body ↔ ∃ ds : Directives, ds.tokens = ts ∧ ds.terms = body) ∧
    (∀ ds ds' : Directives, ds.tokens = ts → ds'.tokens = ts → ds = ds') ∧
    (∀ (before after : Directives) (k : Reserved .remove) (all' : Reserved .all) (s : Selector),
      ts = before.tokens ++ (k.1 :: all'.1 :: s.tokens ++ after.tokens) →
      parse ts = .ok (before.terms ++ .removeAll s.term :: after.terms)) ∧
    (∀ (before after : Directives) (k : Reserved .remove) (s : Selector),
      ts = before.tokens ++ (k.1 :: s.tokens ++ after.tokens) →
      parse ts = .ok (before.terms ++ .removeAttribute s.term :: after.terms)) ∧
    (∀ (n : Nat) (k : Reserved .remove) (rest : List Token) (v : Term Unit),
      directiveOf (directives n) k.1 ts = .ok (v, rest) →
      (∃ (all' : Reserved .all) (s : Selector), ts = all'.1 :: s.tokens ++ rest ∧
        v = .removeAll s.term) ∨
      ∃ s : Selector, ts = s.tokens ++ rest ∧ v = .removeAttribute s.term) ∧
    ∀ body, parse ts = .ok body → parse (dropSigns ts) = .ok body ∧
      ∀ t ∈ ts, t.kind = .number → (Binary64.ofText? t.text).isSome := by
  refine ⟨fun body => parse_eq_ok_iff, ?_, ?_, ?_, fun n k rest v => directiveOf_remove,
    fun body h => ⟨parse_dropSigns h, ?_⟩⟩
  · intro ds ds' h h'
    exact Directives.unique (h.trans h'.symm)
  · rintro before after k all' s rfl
    exact parse_between before after (.removeAll k all' s)
  · rintro before after k s rfl
    exact parse_between before after (.remove k s)
  · obtain ⟨ds, rfl, -⟩ := parse_eq_ok_iff.mp h
    exact ds.readable

/-- A string with a sign in front of it, and a directive that removes elements. -/
theorem parser_decides_grammar_of_signed :
    let token (kind : TokenKind) (text : String) : Token := ⟨kind, text, default⟩
    let ts := [token .keyword "set", token .string "a", token .operator "=", token .operator "-",
      token .string "b", token .keyword "remove", token .keyword "all", token .string "c"]
    let body : List (Term Unit) := [.set (.literal (.text "a")) (.literal (.text "b")),
      .removeAll (.literal (.text "c"))]
    parse ts = .ok body ∧ parse (dropSigns ts) = .ok body ∧
      ∃ ds : Directives, ds.tokens = ts ∧ ds.terms = body := by
  intro token ts body
  obtain ⟨derives, -, -, -, -, accepted⟩ := parser_decides_grammar ts
  have h : parse ts = .ok body := by cbv
  exact ⟨h, (accepted body h).1, (derives body).mp h⟩

end PatchScript.Script.Grammar
