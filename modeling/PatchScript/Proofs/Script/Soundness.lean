import PatchScript.Proofs.Reading
import PatchScript.Proofs.Script.Grammar

/-!
# What is read has a derivation

Where the parser gives a term, the tokens that it read are those of a derivation, and the
term is what the derivation stands for.  The derivation is put together in the order in
which the parser reads, each time from one reading in front of another.
-/

namespace PatchScript.Script.Grammar

variable {op : Operator} {t : Token} {ts rest : List Token}

/-! ## Single tokens -/

theorem expect_ok {accept : Token → Bool} {expected : Expected}
    (h : expect accept expected ts = .ok (t, rest)) : ts = t :: rest ∧ accept t := by
  cases ts with
  | nil => cases h
  | cons u us =>
    rw [expect] at h
    split at h
    · rename_i hu
      cases h
      exact ⟨rfl, hu⟩
    · cases h

theorem operator?_eq_some (h : operator? op ts = some rest) : ∃ o : Sign op, ts = o.1 :: rest := by
  cases ts with
  | nil => cases h
  | cons u us =>
    rw [operator?] at h
    split at h
    · rename_i hu
      cases h
      exact ⟨⟨u, hu⟩, rfl⟩
    · cases h

theorem skipOperator_eq_ok (h : skipOperator op ts = .ok rest) : ∃ o : Sign op, ts = o.1 :: rest := by
  rw [skipOperator] at h
  cases he : expect (·.isOperator op) (.operator op) ts with
  | error e =>
    rw [he] at h
    cases h
  | ok r =>
    obtain ⟨t, rest'⟩ := r
    rw [he] at h
    cases h
    obtain ⟨rfl, ht⟩ := expect_ok he
    exact ⟨⟨t, ht⟩, rfl⟩

theorem identifier_eq_ok {name : String} (h : identifier ts = .ok (name, rest)) :
    ∃ w : Word, ts = w.1 :: rest ∧ w.1.text = name := by
  obtain ⟨⟨t, rest'⟩, he, hr⟩ := bind_eq_ok h
  obtain ⟨rfl, ht⟩ := expect_ok he
  cases hr
  exact ⟨⟨t, of_decide_eq_true ht⟩, rfl, rfl⟩

theorem minus_eq {negative : Bool} (h : minus ts = (negative, rest)) :
    ∃ m : Minus, ts = m.tokens ++ rest ∧ m.isSome = negative := by
  rw [minus] at h
  cases ho : operator? .minus ts with
  | none =>
    rw [ho] at h
    cases h
    exact ⟨none, rfl, rfl⟩
  | some ts' =>
    rw [ho] at h
    obtain ⟨o, rfl⟩ := operator?_eq_some ho
    cases h
    exact ⟨some o, rfl, rfl⟩

theorem numberOf_eq_ok {x : Binary64} (hkind : t.kind = .number) (h : numberOf t = .ok x) :
    ∃ n : Numeral, n.token = t ∧ n.value = x := by
  rw [numberOf] at h
  split at h
  · rename_i y hy
    cases h
    exact ⟨⟨t, hkind, x, hy⟩, rfl, rfl⟩
  · cases h

/-! ## Values -/

/-- The parser gives the terms of values, and reads the closing parenthesis. -/
def ReadsValues (a : List Token → Reading (List (Term Unit) × List Token)) : Prop :=
  ∀ {ts vs rest}, a ts = .ok (vs, rest) →
    ∃ (values : Values) (c : Sign .closeParen), ts = values.tokens ++ c.1 :: rest ∧
      values.terms = vs

theorem reference_eq_ok {a : List Token → Reading (List (Term Unit) × List Token)}
    (ha : ReadsValues a) {name : String} {negative : Bool} {v : Term Unit}
    (h : reference a name negative ts = .ok (v, rest)) :
    ∃ args : Arguments, ts = args.tokens ++ rest ∧ v = refer name negative args.terms? := by
  rw [reference] at h
  cases hopen : operator? .openParen ts with
  | none =>
    rw [hopen] at h
    cases h
    exact ⟨.absent, rfl, rfl⟩
  | some ts' =>
    rw [hopen] at h
    obtain ⟨o, rfl⟩ := operator?_eq_some hopen
    dsimp only at h
    cases hclose : operator? .closeParen ts' with
    | some rest' =>
      rw [hclose] at h
      obtain ⟨c, rfl⟩ := operator?_eq_some hclose
      cases h
      exact ⟨.empty o c, rfl, rfl⟩
    | none =>
      rw [hclose] at h
      obtain ⟨⟨vs, rest'⟩, hvs, h⟩ := bind_eq_ok h
      obtain ⟨values, c, rfl, rfl⟩ := ha hvs
      cases h
      exact ⟨.listed o values c, by simp [Arguments.tokens], rfl⟩

/-- The value that a token starts, with the minus sign in front of it. -/
theorem valueOf_eq_ok {a : List Token → Reading (List (Term Unit) × List Token)}
    (ha : ReadsValues a) (m : Minus) {v : Term Unit} (ht : isValueToken t)
    (h : valueOf a m.isSome t ts = .ok (v, rest)) :
    ∃ x : Value, m.tokens ++ t :: ts = x.tokens ++ rest ∧ x.term = v := by
  rw [valueOf] at h
  split at h
  · rename_i hkind
    obtain ⟨args, rfl, rfl⟩ := reference_eq_ok ha h
    exact ⟨.reference m ⟨t, hkind⟩ args, by simp [Value.tokens], rfl⟩
  · rename_i hkind
    obtain ⟨x, hx, h⟩ := bind_eq_ok h
    obtain ⟨n, rfl, rfl⟩ := numberOf_eq_ok hkind hx
    cases h
    exact ⟨.scalar m (.number n), by simp [Value.tokens, Scalar.token], rfl⟩
  · rename_i hkind
    cases h
    exact ⟨.scalar m (.boolean ⟨t, hkind⟩), by simp [Value.tokens, Scalar.token], rfl⟩
  · rename_i hidentifier hnumber hboolean
    have hkind : t.kind = .string := by
      simp only [isValueToken, Bool.or_eq_true, decide_eq_true_eq] at ht
      rcases ht with ((h | h) | h) | h
      · exact absurd h hnumber
      · exact h
      · exact absurd h hboolean
      · exact absurd h hidentifier
    cases h
    exact ⟨.scalar m (.string ⟨t, hkind⟩), by simp [Value.tokens, Scalar.token], rfl⟩

mutual

theorem value_eq_ok : ∀ (n : Nat) {ts rest : List Token} {v : Term Unit},
    value n ts = .ok (v, rest) → ∃ x : Value, ts = x.tokens ++ rest ∧ x.term = v
  | 0, _, _, _, h => nomatch h
  | n + 1, ts, rest, v, h => by
    cases hminus : minus ts with
    | mk negative ts₁ =>
      rw [value, hminus] at h
      obtain ⟨m, rfl, rfl⟩ := minus_eq hminus
      obtain ⟨⟨t, ts₂⟩, he, hv⟩ := bind_eq_ok h
      obtain ⟨rfl, ht⟩ := expect_ok he
      exact valueOf_eq_ok (args_eq_ok n) m ht hv

theorem args_eq_ok : ∀ n : Nat, ReadsValues (args n)
  | 0, _, _, _, h => nomatch h
  | n + 1, ts, vs, rest, h => by
    rw [args] at h
    obtain ⟨⟨v, ts₁⟩, hv, hr⟩ := bind_eq_ok h
    obtain ⟨x, rfl, rfl⟩ := value_eq_ok n hv
    dsimp only at hr
    cases hclose : operator? .closeParen ts₁ with
    | some rest' =>
      rw [hclose] at hr
      obtain ⟨c, rfl⟩ := operator?_eq_some hclose
      cases hr
      exact ⟨.one x, c, rfl, rfl⟩
    | none =>
      rw [hclose] at hr
      obtain ⟨ts₂, hcomma, hr₂⟩ := bind_eq_ok hr
      obtain ⟨⟨vs', rest'⟩, hvs, hr₃⟩ := bind_eq_ok hr₂
      obtain ⟨comma, rfl⟩ := skipOperator_eq_ok hcomma
      obtain ⟨values, c, rfl, rfl⟩ := args_eq_ok n hvs
      cases hr₃
      exact ⟨.cons x comma values, c, by simp [Values.tokens], rfl⟩

end

theorem arguments_eq_ok : ReadsValues arguments := fun h => args_eq_ok _ h

theorem readValue_eq_ok {v : Term Unit} (h : readValue ts = .ok (v, rest)) :
    ∃ x : Value, ts = x.tokens ++ rest ∧ x.term = v :=
  value_eq_ok _ h

/-! ## Selectors, positions and parameters -/

theorem selector_eq_ok {v : Term Unit} (h : selector ts = .ok (v, rest)) :
    ∃ s : Selector, ts = s.tokens ++ rest ∧ s.term = v := by
  rw [selector] at h
  obtain ⟨⟨t, ts'⟩, he, hr⟩ := bind_eq_ok h
  obtain ⟨rfl, ht⟩ := expect_ok he
  dsimp only at hr
  split at hr
  · rename_i hkind
    obtain ⟨args, rfl, rfl⟩ := reference_eq_ok arguments_eq_ok hr
    exact ⟨.reference ⟨t, hkind⟩ args, rfl, rfl⟩
  · rename_i hkind
    have hstring : t.kind = .string := by simpa [hkind] using ht
    cases hr
    exact ⟨.string ⟨t, hstring⟩, rfl, rfl⟩

theorem position?_eq_ok {p : Option (Term Unit)} (h : position? ts = .ok (p, rest)) :
    ∃ x : Position, ts = x.tokens ++ rest ∧ x.term? = p := by
  cases ts with
  | nil =>
    cases h
    exact ⟨.absent, rfl, rfl⟩
  | cons at' ts =>
    rw [position?] at h
    split at h
    · rename_i hat
      cases hminus : minus ts with
      | mk negative ts₁ =>
        rw [hminus] at h
        obtain ⟨m, rfl, rfl⟩ := minus_eq hminus
        obtain ⟨⟨t, ts₂⟩, he, hr⟩ := bind_eq_ok h
        obtain ⟨rfl, ht⟩ := expect_ok he
        dsimp only at hr
        split at hr
        · rename_i hkind
          obtain ⟨⟨v, rest'⟩, hv, hr₂⟩ := bind_eq_ok hr
          obtain ⟨args, rfl, rfl⟩ := reference_eq_ok arguments_eq_ok hv
          cases hr₂
          exact ⟨.reference ⟨at', hat⟩ m ⟨t, hkind⟩ args, by simp [Position.tokens], rfl⟩
        · rename_i hkind
          have hnumber : t.kind = .number := by simpa [hkind] using ht
          obtain ⟨x, hx, hr₂⟩ := bind_eq_ok hr
          obtain ⟨n, rfl, rfl⟩ := numberOf_eq_ok hnumber hx
          cases hr₂
          exact ⟨.number ⟨at', hat⟩ m n, by simp [Position.tokens], rfl⟩
    · cases h
      exact ⟨.absent, rfl, rfl⟩

theorem paramsFrom_eq_ok : ∀ (n : Nat) {ts rest : List Token} {ps : List String},
    paramsFrom n ts = .ok (ps, rest) →
    ∃ (names : Words) (c : Sign .closeParen), ts = names.tokens ++ c.1 :: rest ∧ names.texts = ps
  | 0, _, _, _, h => nomatch h
  | n + 1, ts, rest, ps, h => by
    rw [paramsFrom] at h
    obtain ⟨⟨p, ts₁⟩, hp, hr⟩ := bind_eq_ok h
    obtain ⟨name, rfl, rfl⟩ := identifier_eq_ok hp
    dsimp only at hr
    cases hclose : operator? .closeParen ts₁ with
    | some rest' =>
      rw [hclose] at hr
      obtain ⟨c, rfl⟩ := operator?_eq_some hclose
      cases hr
      exact ⟨.one name, c, rfl, rfl⟩
    | none =>
      rw [hclose] at hr
      obtain ⟨ts₂, hcomma, hr₂⟩ := bind_eq_ok hr
      obtain ⟨⟨ps', rest'⟩, hps, hr₃⟩ := bind_eq_ok hr₂
      obtain ⟨comma, rfl⟩ := skipOperator_eq_ok hcomma
      obtain ⟨names, c, rfl, rfl⟩ := paramsFrom_eq_ok n hps
      cases hr₃
      exact ⟨.cons name comma names, c, rfl, rfl⟩

theorem params_eq_ok {preset : String} {ps : List String} (h : params preset ts = .ok (ps, rest)) :
    ∃ x : Params, ts = x.tokens ++ rest ∧ x.names = ps := by
  rw [params] at h
  cases hopen : operator? .openParen ts with
  | none =>
    rw [hopen] at h
    cases h
  | some ts₁ =>
    rw [hopen] at h
    obtain ⟨o, rfl⟩ := operator?_eq_some hopen
    dsimp only at h
    cases hclose : operator? .closeParen ts₁ with
    | some rest' =>
      rw [hclose] at h
      obtain ⟨c, rfl⟩ := operator?_eq_some hclose
      cases h
      exact ⟨.empty o c, rfl, rfl⟩
    | none =>
      rw [hclose] at h
      obtain ⟨names, c, rfl, rfl⟩ := paramsFrom_eq_ok _ h
      exact ⟨.listed o names c, by simp [Params.tokens], rfl⟩

/-! ## Directives -/

/-- The parser gives the terms of directives. -/
def ReadsDirectives (body : List Token → Reading (List (Term Unit) × List Token)) : Prop :=
  ∀ {ts b rest}, body ts = .ok (b, rest) →
    ∃ ds : Directives, ts = ds.tokens ++ rest ∧ ds.terms = b

section

variable {body : List Token → Reading (List (Term Unit) × List Token)}

theorem block_eq_ok (hbody : ReadsDirectives body) {b : List (Term Unit)}
    (h : block body ts = .ok (b, rest)) : ∃ x : Block, ts = x.tokens ++ rest ∧ x.terms = b := by
  rw [block] at h
  obtain ⟨ts₁, hopen, hr⟩ := bind_eq_ok h
  obtain ⟨⟨b', ts₂⟩, hb, hr₂⟩ := bind_eq_ok hr
  obtain ⟨rest', hclose, hr₃⟩ := bind_eq_ok hr₂
  obtain ⟨o, rfl⟩ := skipOperator_eq_ok hopen
  obtain ⟨ds, rfl, rfl⟩ := hbody hb
  obtain ⟨c, rfl⟩ := skipOperator_eq_ok hclose
  cases hr₃
  exact ⟨.braces o ds c, by simp [Block.tokens], rfl⟩

/-- Reading a selector and a block behind it. -/
theorem selector_block_eq_ok (hbody : ReadsDirectives body)
    {f : Term Unit → List (Term Unit) → Term Unit} {v : Term Unit}
    (h : (do
      let (s, ts) ← selector ts
      let (b, ts) ← block body ts
      return (f s b, ts)) = .ok (v, rest)) :
    ∃ (s : Selector) (b : Block), ts = s.tokens ++ (b.tokens ++ rest) ∧ v = f s.term b.terms := by
  obtain ⟨⟨s, ts₁⟩, hs, hr⟩ := bind_eq_ok h
  obtain ⟨⟨b, ts₂⟩, hb, hr₂⟩ := bind_eq_ok hr
  obtain ⟨s, rfl, rfl⟩ := selector_eq_ok hs
  obtain ⟨b, rfl, rfl⟩ := block_eq_ok hbody hb
  cases hr₂
  exact ⟨s, b, rfl, rfl⟩

/-- Reading a selector, a position if there is one, and a block behind them. -/
theorem selector_position_block_eq_ok (hbody : ReadsDirectives body)
    {f : Term Unit → Option (Term Unit) → List (Term Unit) → Term Unit} {v : Term Unit}
    (h : (do
      let (s, ts) ← selector ts
      let (p, ts) ← position? ts
      let (b, ts) ← block body ts
      return (f s p b, ts)) = .ok (v, rest)) :
    ∃ (s : Selector) (p : Position) (b : Block),
      ts = s.tokens ++ (p.tokens ++ (b.tokens ++ rest)) ∧ v = f s.term p.term? b.terms := by
  obtain ⟨⟨s, ts₁⟩, hs, hr⟩ := bind_eq_ok h
  obtain ⟨⟨p, ts₂⟩, hp, hr₂⟩ := bind_eq_ok hr
  obtain ⟨⟨b, ts₃⟩, hb, hr₃⟩ := bind_eq_ok hr₂
  obtain ⟨s, rfl, rfl⟩ := selector_eq_ok hs
  obtain ⟨p, rfl, rfl⟩ := position?_eq_ok hp
  obtain ⟨b, rfl, rfl⟩ := block_eq_ok hbody hb
  cases hr₃
  exact ⟨s, p, b, rfl, rfl⟩

/-- A token that is some keyword is that keyword. -/
theorem isKeyword_of_keyword? {k : Keyword} (h : t.keyword? = some k) : t.isKeyword k := by
  rw [Token.keyword?] at h
  split at h
  · rename_i hkind
    have hspelling := List.find?_some h
    rw [Token.isKeyword, ← beq_iff_eq.mp hspelling]
    simp [hkind]
  · cases h

/-- The directive that adds an element, at a position if there is one. -/
def addTerm (tag : Term Unit) (position : Option (Term Unit)) (body : List (Term Unit)) :
    Term Unit :=
  match position with
  | none => .add tag body
  | some p => .addAt tag p body

/-- The directive that changes or adds an element, at a position if there is one. -/
def changeOrAddTerm (tag : Term Unit) (position : Option (Term Unit)) (body : List (Term Unit)) :
    Term Unit :=
  match position with
  | none => .changeOrAdd tag body
  | some p => .changeOrAddAt tag p body

theorem directiveOf_eq_ok (hbody : ReadsDirectives body) {v : Term Unit}
    (h : directiveOf body t ts = .ok (v, rest)) :
    ∃ d : Directive, t :: ts = d.tokens ++ rest ∧ d.term = v := by
  unfold directiveOf at h
  cases hkeyword : t.keyword? with
  | none =>
    rw [hkeyword] at h
    cases h
  | some k =>
    have hk := isKeyword_of_keyword? hkeyword
    rw [hkeyword] at h
    cases k with
    | «include» =>
      obtain ⟨⟨name, ts₁⟩, hname, hr⟩ := bind_eq_ok h
      obtain ⟨name, rfl, rfl⟩ := identifier_eq_ok hname
      cases hr
      exact ⟨.include ⟨t, hk⟩ name, rfl, rfl⟩
    | file =>
      obtain ⟨path, b, rfl, rfl⟩ := selector_block_eq_ok hbody h
      exact ⟨.file ⟨t, hk⟩ path b, by simp [Directive.tokens], rfl⟩
    | use =>
      obtain ⟨⟨name, ts₁⟩, hname, hr⟩ := bind_eq_ok h
      obtain ⟨⟨call, ts₂⟩, hcall, hr₂⟩ := bind_eq_ok hr
      obtain ⟨name, rfl, rfl⟩ := identifier_eq_ok hname
      obtain ⟨args, rfl, rfl⟩ := reference_eq_ok arguments_eq_ok hcall
      refine ⟨.use ⟨t, hk⟩ name args, ?_⟩
      cases hargs : args.terms? with
      | none =>
        rw [hargs] at hr₂
        cases hr₂
        exact ⟨rfl, by rw [Directive.term, hargs]; rfl⟩
      | some vs =>
        rw [hargs] at hr₂
        cases hr₂
        exact ⟨rfl, by rw [Directive.term, hargs]; rfl⟩
    | preset =>
      obtain ⟨⟨name, ts₁⟩, hname, hr⟩ := bind_eq_ok h
      obtain ⟨⟨ps, ts₂⟩, hps, hr₂⟩ := bind_eq_ok hr
      obtain ⟨⟨b, ts₃⟩, hb, hr₃⟩ := bind_eq_ok hr₂
      obtain ⟨name, rfl, rfl⟩ := identifier_eq_ok hname
      obtain ⟨ps, rfl, rfl⟩ := params_eq_ok hps
      obtain ⟨b, rfl, rfl⟩ := block_eq_ok hbody hb
      cases hr₃
      exact ⟨.preset ⟨t, hk⟩ name ps b, by simp [Directive.tokens], rfl⟩
    | set =>
      obtain ⟨⟨name, ts₁⟩, hname, hr⟩ := bind_eq_ok h
      obtain ⟨ts₂, hequals, hr₂⟩ := bind_eq_ok hr
      obtain ⟨⟨v, ts₃⟩, hv, hr₃⟩ := bind_eq_ok hr₂
      obtain ⟨name, rfl, rfl⟩ := selector_eq_ok hname
      obtain ⟨eq, rfl⟩ := skipOperator_eq_ok hequals
      obtain ⟨v, rfl, rfl⟩ := readValue_eq_ok hv
      cases hr₃
      exact ⟨.set ⟨t, hk⟩ name eq v, by simp [Directive.tokens], rfl⟩
    | add =>
      obtain ⟨tag, p, b, rfl, rfl⟩ := selector_position_block_eq_ok hbody
        (f := addTerm) h
      exact ⟨.add ⟨t, hk⟩ tag p b, by simp [Directive.tokens], rfl⟩
    | changeOrAdd =>
      obtain ⟨tag, p, b, rfl, rfl⟩ := selector_position_block_eq_ok hbody
        (f := changeOrAddTerm) h
      exact ⟨.changeOrAdd ⟨t, hk⟩ tag p b, by simp [Directive.tokens], rfl⟩
    | all =>
      obtain ⟨s, b, rfl, rfl⟩ := selector_block_eq_ok hbody h
      exact ⟨.all ⟨t, hk⟩ s b, by simp [Directive.tokens], rfl⟩
    | change =>
      obtain ⟨s, b, rfl, rfl⟩ := selector_block_eq_ok hbody h
      exact ⟨.change ⟨t, hk⟩ s b, by simp [Directive.tokens], rfl⟩
    | remove =>
      cases ts with
      | nil => cases h
      | cons u us =>
        dsimp only at h
        split at h
        · rename_i hall
          obtain ⟨⟨s, ts₁⟩, hs, hr⟩ := bind_eq_ok h
          obtain ⟨s, rfl, rfl⟩ := selector_eq_ok hs
          cases hr
          exact ⟨.removeAll ⟨t, hk⟩ ⟨u, hall⟩ s, rfl, rfl⟩
        · obtain ⟨⟨s, ts₁⟩, hs, hr⟩ := bind_eq_ok h
          obtain ⟨s, heq, rfl⟩ := selector_eq_ok hs
          cases hr
          exact ⟨.remove ⟨t, hk⟩ s, by rw [heq]; rfl, rfl⟩
    | const =>
      obtain ⟨⟨name, ts₁⟩, hname, hr⟩ := bind_eq_ok h
      obtain ⟨ts₂, hequals, hr₂⟩ := bind_eq_ok hr
      obtain ⟨⟨v, ts₃⟩, hv, hr₃⟩ := bind_eq_ok hr₂
      obtain ⟨name, rfl, rfl⟩ := identifier_eq_ok hname
      obtain ⟨eq, rfl⟩ := skipOperator_eq_ok hequals
      obtain ⟨v, rfl, rfl⟩ := readValue_eq_ok hv
      cases hr₃
      exact ⟨.const ⟨t, hk⟩ name eq v, by simp [Directive.tokens], rfl⟩
    | «at» => cases h

end

theorem directives_eq_ok : ∀ n : Nat, ReadsDirectives (directives n)
  | 0, _, _, _, h => nomatch h
  | n + 1, [], _, _, h => by
    cases h
    exact ⟨.nil, rfl, rfl⟩
  | n + 1, t :: ts, b, rest, h => by
    rw [directives] at h
    split at h
    · cases h
      exact ⟨.nil, rfl, rfl⟩
    · obtain ⟨⟨v, ts₁⟩, hd, hr⟩ := bind_eq_ok h
      obtain ⟨⟨b', rest'⟩, hds, hr₂⟩ := bind_eq_ok hr
      obtain ⟨d, heq, rfl⟩ := directiveOf_eq_ok (directives_eq_ok n) hd
      obtain ⟨ds, rfl, rfl⟩ := directives_eq_ok n hds
      cases hr₂
      exact ⟨.cons d ds, by simp [Directives.tokens, heq], rfl⟩

/-- A script that is read is what some derivation of its tokens stands for. -/
theorem parse_eq_ok {body : List (Term Unit)} (h : parse ts = .ok body) :
    ∃ ds : Directives, ds.tokens = ts ∧ ds.terms = body := by
  cases hscript : script ts with
  | error e =>
    rw [parse, hscript] at h
    cases h
  | ok body' =>
    rw [parse, hscript] at h
    cases h
    obtain ⟨⟨b, rest⟩, hds, hr⟩ := bind_eq_ok hscript
    obtain ⟨ds, hts, rfl⟩ := directives_eq_ok _ hds
    cases rest with
    | nil =>
      cases hr
      exact ⟨ds, by rw [hts, List.append_nil], rfl⟩
    | cons t rest => cases hr

end PatchScript.Script.Grammar
