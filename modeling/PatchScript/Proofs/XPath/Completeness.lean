import PatchScript.Proofs.Reading
import PatchScript.Proofs.XPath.Grammar

/-!
# Every derivation is read

The parser reads the tokens that a settled derivation spells and gives the expression that it
stands for, if what follows goes on with a looser phrase.  What follows a part of a derivation
always does, since operands bind tighter than the operators between them.

Brackets and parentheses are read with one level less than the path that they are in, and they are
two tokens more than what stands between them.
-/

namespace PatchScript.XPath.Grammar

variable {m n count : Nat} {t : Token} {ts rest : List Token} {expr : Parser Expr}

/-! ## Parsers of the levels -/

/-- The parser for the phrases of a level. -/
def Level.parser (path : Parser Expr) : Level → Parser Expr
  | .path => path
  | .binary .union => chain unionOp path
  | .sign => signed (chain unionOp path)
  | .binary .sum => chain sumOp (signed (chain unionOp path))
  | .binary .order => chain orderOp (chain sumOp (signed (chain unionOp path)))
  | .binary .equality =>
    chain equalityOp (chain orderOp (chain sumOp (signed (chain unionOp path))))
  | .binary .and =>
    chain andOp (chain equalityOp (chain orderOp (chain sumOp (signed (chain unionOp path)))))
  | .binary .or => expression path

theorem Level.parser_binary (path : Parser Expr) (b : Binary) :
    Level.parser path (.binary b) = chain b.op? (b.operand.parser path) := by
  cases b <;> rfl

theorem Level.parser_sign (path : Parser Expr) :
    Level.parser path .sign = signed (Level.parser path (.binary .union)) := rfl

/-! ## What comes next -/

/-- A name in front of the tokens is neither that of a function nor that of an axis. -/
def Ends (ts : List Token) : Prop := ∀ t ∈ ts.head?, t ≠ .openParen ∧ t ≠ .doubleColon

theorem Below.ends (h : Below 8 ts) : Ends ts := by
  intro t ht
  have hrank := h t ht
  constructor
  · rintro rfl
    exact absurd (hrank 8 rfl) (Nat.lt_irrefl 8)
  · rintro rfl
    exact absurd (hrank 8 rfl) (Nat.lt_irrefl 8)

theorem Predicates.ends (ps : Predicates) (h : Below 8 rest) : Ends (ps.tokens ++ rest) := by
  cases ps with
  | nil => exact h.ends
  | cons e more =>
    intro t ht
    cases ht
    exact ⟨nofun, nofun⟩

/-- Steps behind a step are followed by what can follow a step. -/
theorem Strides.below_tokens (more : Strides) (h : Below 7 rest) :
    Below 8 (more.tokens ++ rest) := by
  cases more with
  | nil => exact h.mono (by decide)
  | cons lead s more =>
    cases lead with
    | slash => exact below_cons.mpr fun k hk => by cases hk; decide
    | doubleSlash => exact below_cons.mpr fun k hk => by cases hk; decide

theorem below_closeBracket (n : Nat) (ts : List Token) : Below n (.closeBracket :: ts) :=
  below_cons.mpr nofun

theorem below_closeParen (n : Nat) (ts : List Token) : Below n (.closeParen :: ts) :=
  below_cons.mpr nofun

theorem MoreArguments.below_tokens (more : MoreArguments) (n : Nat) (rest : List Token) :
    Below n (more.tokens ++ rest) := by
  cases more with
  | nil => exact below_closeParen n rest
  | cons e more => exact below_cons.mpr nofun

/-! ## What comes first -/

theorem Stride.head (s : Stride) : ∃ t ts, s.tokens = t :: ts ∧ startsStep t := by
  cases s with
  | self => exact ⟨.dot, [], rfl, rfl⟩
  | parent => exact ⟨.dotDot, [], rfl, rfl⟩
  | along way test ps =>
    cases way with
    | attributes => exact ⟨.at, _, rfl, rfl⟩
    | named a => exact ⟨.name (axisName a), _, rfl, rfl⟩
    | children => cases test <;> exact ⟨_, _, rfl, rfl⟩

/-- Can an expression start with the token? -/
def opens : Token → Bool
  | .minus | .slash | .doubleSlash | .openParen | .literal _ | .number _ => true
  | t => startsStep t

theorem opens_of_startsStep (h : startsStep t) : opens t ∧ t ≠ .minus := by
  cases t <;> simp_all [startsStep, opens]

theorem Primary.head (p : Primary) : ∃ t ts, p.tokens = t :: ts ∧ opens t ∧ t ≠ .minus ∧
    t ≠ .slash ∧ t ≠ .doubleSlash := by
  cases p with
  | literal s => exact ⟨_, _, rfl, rfl, nofun, nofun, nofun⟩
  | number x => exact ⟨_, _, rfl, rfl, nofun, nofun, nofun⟩
  | group e => exact ⟨_, _, rfl, rfl, nofun, nofun, nofun⟩
  | call name args => exact ⟨_, _, rfl, rfl, nofun, nofun, nofun⟩

/-- A phrase starts with a token that can start an expression, and with a sign only if it is not
one that binds tighter than signs. -/
theorem Phrase.head : ∀ {l : Level} (p : Phrase l),
    ∃ t ts, p.tokens = t :: ts ∧ opens t ∧ (5 < l.rank → t ≠ .minus)
  | _, .operands (b := b) first more => by
    obtain ⟨t, ts, htokens, ht, hminus⟩ := first.head
    refine ⟨t, ts ++ more.tokens, by rw [tokens, htokens]; rfl, ht, fun h => hminus ?_⟩
    rw [b.rank_operand]
    exact Nat.lt_succ_of_lt h
  | _, .unsigned p => by
    obtain ⟨t, ts, htokens, ht, -⟩ := p.head
    exact ⟨t, ts, by rw [tokens, htokens], ht, fun h => absurd h (by decide)⟩
  | _, .negated p => ⟨.minus, p.tokens, rfl, rfl, fun h => absurd h (by decide)⟩
  | _, .root => ⟨.slash, [], rfl, rfl, nofun⟩
  | _, .absolute lead first more => by
    cases lead with
    | slash => exact ⟨.slash, _, rfl, rfl, nofun⟩
    | doubleSlash => exact ⟨.doubleSlash, _, rfl, rfl, nofun⟩
  | _, .relative first more => by
    obtain ⟨t, ts, htokens, ht⟩ := first.head
    obtain ⟨hopens, hminus⟩ := opens_of_startsStep ht
    exact ⟨t, ts ++ more.tokens, by rw [tokens, htokens]; rfl, hopens, fun _ => hminus⟩
  | _, .primary p ps more => by
    obtain ⟨t, ts, htokens, hopens, hminus, -⟩ := p.head
    exact ⟨t, ts ++ (ps.tokens ++ more.tokens), by rw [tokens, htokens]; rfl, hopens,
      fun _ => hminus⟩

/-- A step is no primary. -/
theorem Stride.primary?_eq_none (s : Stride) (h : Below 8 rest) :
    primary? expr (s.tokens ++ rest) = none := by
  cases s with
  | self => rfl
  | parent => rfl
  | along way test ps =>
    cases way with
    | attributes => rfl
    | named a => rfl
    | children =>
      cases test with
      | any => rfl
      | text => rfl
      | comment => rfl
      | node => rfl
      | name s =>
        have hends := ps.ends h
        show primary? expr (.name s :: (ps.tokens ++ rest)) = none
        cases hnext : ps.tokens ++ rest with
        | nil => rfl
        | cons t ts =>
          rw [hnext] at hends
          have ht := (hends t rfl).1
          cases t with
          | openParen => exact absurd rfl ht
          | _ => rfl

/-! ## Steps -/

theorem ofName?_axisName (a : Axis) : Axis.ofName? (axisName a) = some a := by
  cases a <;> rfl

theorem nodeTest_tokens (test : NodeTest) (h : Ends rest) :
    nodeTest (testTokens test ++ rest) = .ok (test, rest) := by
  cases test with
  | any => rfl
  | text => rfl
  | comment => rfl
  | node => rfl
  | name s =>
    cases rest with
    | nil => rfl
    | cons t ts =>
      have ht := (h t rfl).1
      cases t with
      | openParen => exact absurd rfl ht
      | _ => rfl

theorem axis_tokens (way : Way) (test : NodeTest) (h : Ends rest) :
    axis (way.tokens ++ (testTokens test ++ rest)) = .ok (way.axis, testTokens test ++ rest) := by
  cases way with
  | attributes => rfl
  | named a =>
    show axis (.name (axisName a) :: .doubleColon :: (testTokens test ++ rest)) = _
    rw [axis, ofName?_axisName]
    rfl
  | children =>
    cases test with
    | any => rfl
    | text => rfl
    | comment => rfl
    | node => rfl
    | name s =>
      cases rest with
      | nil => rfl
      | cons t ts =>
        have ht := (h t rfl).2
        cases t with
        | doubleColon => exact absurd rfl ht
        | _ => rfl

/-- A step that is neither of the two short ones. -/
theorem step_tokens {way : Way} {test : NodeTest} (ts : List Token) :
    step expr (way.tokens ++ (testTokens test ++ ts)) = (do
      let (a, ts) ← axis (way.tokens ++ (testTokens test ++ ts))
      let (test, ts) ← nodeTest ts
      let (ps, ts) ← predicates expr ts
      return (.along a test ps, ts)) := by
  cases way with
  | attributes => rfl
  | named a => rfl
  | children => cases test <;> rfl

theorem skip_self (t : Token) (ts : List Token) : skip t (t :: ts) = .ok ts := by
  rw [skip, if_pos rfl]

/-! ## Ends of loops -/

theorem chainFrom_end {b : Binary} {operand : Parser Expr} (left : Expr) (h : Below b.rank rest)
    (hcount : 0 < count) : chainFrom b.op? operand count left rest = .ok (left, rest) := by
  obtain ⟨k, rfl⟩ := Nat.exists_eq_add_one_of_ne_zero (Nat.ne_of_gt hcount)
  cases rest with
  | nil => rfl
  | cons t ts => rw [chainFrom, h.op?_eq_none]

/-- Steps end where no lead follows. -/
theorem stepsFrom_end (h : ∀ (lead : Lead) us, rest ≠ lead.token :: us) (hcount : 0 < count) :
    stepsFrom expr count rest = .ok ([], rest) := by
  obtain ⟨k, rfl⟩ := Nat.exists_eq_add_one_of_ne_zero (Nat.ne_of_gt hcount)
  cases rest with
  | nil => rfl
  | cons t ts =>
    cases t with
    | slash => exact absurd rfl (h .slash ts)
    | doubleSlash => exact absurd rfl (h .doubleSlash ts)
    | _ => rfl

/-- Behind a lead there is a step, with what the lead stands for in front of it. -/
theorem stepsFrom_lead (lead : Lead) :
    stepsFrom expr (count + 1) (lead.token :: ts) = (do
      let (s, ts) ← step expr ts
      let (ss, ts) ← stepsFrom expr count ts
      return (lead.steps ++ s :: ss, ts)) := by
  cases lead <;> rfl

theorem predicatesFrom_end (h : ∀ us, rest ≠ .openBracket :: us) (hcount : 0 < count) :
    predicatesFrom expr count rest = .ok ([], rest) := by
  obtain ⟨k, rfl⟩ := Nat.exists_eq_add_one_of_ne_zero (Nat.ne_of_gt hcount)
  cases rest with
  | nil => rfl
  | cons t ts =>
    cases t with
    | openBracket => exact absurd rfl (h ts)
    | _ => rfl

theorem signed_of_ne {operand : Parser Expr} (h : t ≠ .minus) :
    signed operand (t :: ts) = operand (t :: ts) := by
  cases t with
  | minus => exact absurd rfl h
  | _ => rfl

theorem args_of_opens (h : opens t) : args expr (t :: ts) =
    argsFrom expr ((t :: ts).length + 1) (t :: ts) := by
  cases t with
  | closeParen => cases h
  | _ => rfl

/-- A path that does not start with a slash is a primary with what is behind it, or steps. -/
theorem pathOf_eq (hslash : t ≠ .slash) (hdouble : t ≠ .doubleSlash) :
    pathOf expr (t :: ts) =
      match primary? expr (t :: ts) with
      | some r => do
        let (e, ts) ← r
        filterRest expr e ts
      | none => do
        let (ss, ts) ← steps expr (t :: ts)
        return (.path false ss, ts) := by
  cases t with
  | slash => exact absurd rfl hslash
  | doubleSlash => exact absurd rfl hdouble
  | _ => rfl

/-! ## Derivations -/

/-- Steps behind a lead are steps. -/
theorem steps_of_step {s : Step} {ss : List Step} {ts' : List Token}
    (hs : step expr ts = .ok (s, ts'))
    (hss : stepsFrom expr (ts'.length + 1) ts' = .ok (ss, rest)) :
    steps expr ts = .ok (s :: ss, rest) := by
  rw [steps]
  rw [hs, ok_bind]
  dsimp only
  rw [hss]
  rfl

theorem filtered_lead (e : Expr) (ps : List Expr) (lead : Lead) (s : Step) (ss : List Step) :
    filtered e ps (lead.steps ++ s :: ss) = .filter e ps (lead.steps ++ s :: ss) := by
  cases lead <;> simp [filtered, Lead.steps]

/-- Nothing stands behind the predicates of a primary. -/
theorem filterRest_end {e : Expr} {ps : List Expr}
    (h : ∀ (lead : Lead) us, rest ≠ lead.token :: us)
    (hps : predicates expr ts = .ok (ps, rest)) :
    filterRest expr e ts = .ok (filtered e ps [], rest) := by
  have hfiltered : (if ps.isEmpty then e else .filter e ps []) = filtered e ps [] := by
    simp [filtered]
  rw [filterRest]
  rw [hps, ok_bind, ← hfiltered]
  cases rest with
  | nil => rfl
  | cons t ts =>
    cases t with
    | slash => exact absurd rfl (h .slash ts)
    | doubleSlash => exact absurd rfl (h .doubleSlash ts)
    | _ => rfl

/-- A lead stands behind the predicates of a primary, and steps behind the lead. -/
theorem filterRest_lead {e : Expr} {ps : List Expr} {lead : Lead} {ts' : List Token}
    (hps : predicates expr ts = .ok (ps, lead.token :: ts')) :
    filterRest expr e ts = (do
      let (ss, ts) ← steps expr ts'
      return (.filter e ps (lead.steps ++ ss), ts)) := by
  rw [filterRest]
  rw [hps, ok_bind]
  cases lead <;> rfl

mutual

theorem Phrase.reads : ∀ {l : Level} (p : Phrase l) {n : Nat} {rest : List Token},
    p.tokens.length < n → p.Settled rest → Below l.rank rest →
    l.parser (path n) (p.tokens ++ rest) = .ok (p.value, rest)
  | _, .operands (b := b) first more, n, rest, hn, hsettled, hrest => by
    rw [Phrase.tokens, List.length_append] at hn
    have hfirst := first.reads (n := n) (by omega) hsettled.1 (more.below_tokens hrest)
    have hmore := more.reads (n := n) first.value (by omega) (Nat.lt_succ_self _) hsettled.2 hrest
    rw [Level.parser_binary, Phrase.tokens, List.append_assoc, chain]
    rw [hfirst, ok_bind]
    exact hmore
  | _, .unsigned p, n, rest, hn, hsettled, hrest => by
    have hp := p.reads (n := n) hn hsettled (hrest.mono (by decide))
    obtain ⟨t, ts, htokens, -, hminus⟩ := p.head
    rw [Level.parser_sign, Phrase.tokens]
    rw [htokens, List.cons_append] at hp ⊢
    rw [signed_of_ne (hminus (by decide))]
    exact hp
  | _, .negated p, n, rest, hn, hsettled, hrest => by
    rw [Phrase.tokens, List.length_cons] at hn
    have hp := p.reads (n := n) (by omega) hsettled hrest
    rw [Level.parser_sign] at hp ⊢
    rw [Phrase.tokens, List.cons_append, signed, hp]
    rfl
  | _, .root, 0, rest, hn, _, _ => absurd hn (Nat.not_lt_zero _)
  | _, .root, m + 1, rest, _, hsettled, _ => by
    show pathOf (expression (path m)) (.slash :: rest) = _
    rw [pathOf, hsettled]
    rfl
  | _, .absolute lead first more, 0, rest, hn, _, _ => absurd hn (Nat.not_lt_zero _)
  | _, .absolute lead first more, m + 1, rest, hn, hsettled, hrest => by
    rw [Phrase.tokens, List.length_cons, List.length_append] at hn
    have hfirst := first.reads (m := m) (by omega) hsettled.1 (more.below_tokens hrest)
    have hmore := more.reads (m := m) (by omega) (Nat.lt_succ_self _) hsettled.2 hrest
    have hsteps := steps_of_step hfirst hmore
    show pathOf (expression (path m)) _ = _
    rw [Phrase.tokens, List.cons_append, List.append_assoc]
    cases lead with
    | slash =>
      obtain ⟨t, ts, htokens, ht⟩ := first.head
      have hstarts : ((first.tokens ++ (more.tokens ++ rest)).take 1).any startsStep := by
        rw [htokens]
        simpa using ht
      rw [Lead.token, pathOf, if_pos hstarts, hsteps]
      rfl
    | doubleSlash =>
      rw [Lead.token, pathOf, hsteps]
      rfl
  | _, .relative first more, 0, rest, hn, _, _ => absurd hn (Nat.not_lt_zero _)
  | _, .relative first more, m + 1, rest, hn, hsettled, hrest => by
    rw [Phrase.tokens, List.length_append] at hn
    have hfirst := first.reads (m := m) (by omega) hsettled.1 (more.below_tokens hrest)
    have hmore := more.reads (m := m) (by omega) (Nat.lt_succ_self _) hsettled.2 hrest
    have hsteps := steps_of_step hfirst hmore
    have hprimary : primary? (expression (path m)) _ = none :=
      first.primary?_eq_none (more.below_tokens hrest)
    show pathOf (expression (path m)) _ = _
    rw [Phrase.tokens, List.append_assoc]
    obtain ⟨t, ts, htokens, ht⟩ := first.head
    rw [htokens, List.cons_append] at hprimary hsteps ⊢
    rw [pathOf_eq (by rintro rfl; cases ht) (by rintro rfl; cases ht), hprimary, hsteps]
    rfl
  | _, .primary p ps more, 0, rest, hn, _, _ => absurd hn (Nat.not_lt_zero _)
  | _, .primary p ps more, m + 1, rest, hn, hsettled, hrest => by
    rw [Phrase.tokens, List.length_append, List.length_append] at hn
    have hp :
        primary? (expression (path m)) (p.tokens ++ (ps.tokens ++ (more.tokens ++ rest))) = _ :=
      p.reads (by omega) hsettled.1
    have hps := ps.reads (m := m) (by omega) (Nat.lt_succ_self _) hsettled.2.1
      (more.below_tokens hrest)
    obtain ⟨t, ts, htokens, -, -, hslash, hdouble⟩ := p.head
    show pathOf (expression (path m)) _ = _
    rw [Phrase.tokens, List.append_assoc, List.append_assoc]
    rw [htokens, List.cons_append] at hp ⊢
    rw [pathOf_eq hslash hdouble, hp]
    show filterRest _ _ _ = _
    cases more with
    | nil => exact filterRest_end hrest.ne_lead hps
    | cons lead s more =>
      rw [Strides.tokens, List.length_cons, List.length_append] at hn
      have hs := s.reads (m := m) (by omega) hsettled.2.2.1 (more.below_tokens hrest)
      have hmore := more.reads (m := m) (by omega) (Nat.lt_succ_self _) hsettled.2.2.2 hrest
      rw [Strides.cons_tokens_append] at hps ⊢
      rw [filterRest_lead hps, steps_of_step hs hmore, Phrase.value, Strides.values, filtered_lead]
      rfl

theorem Operands.reads : ∀ {b : Binary} (more : Operands b) {n count : Nat} {rest : List Token}
    (left : Expr), more.tokens.length < n → (more.tokens ++ rest).length < count →
    more.Settled rest → Below b.rank rest →
    chainFrom b.op? (b.operand.parser (path n)) count left (more.tokens ++ rest) =
      .ok (more.behind left, rest)
  | _, .nil, n, count, rest, left, _, hcount, _, hrest =>
    chainFrom_end left hrest (Nat.zero_lt_of_lt hcount)
  | b, .cons o operand more, n, 0, rest, left, _, hcount, _, _ => absurd hcount (Nat.not_lt_zero _)
  | b, .cons o operand more, n, count + 1, rest, left, hn, hcount, hsettled, hrest => by
    rw [Operands.tokens, List.length_cons, List.length_append] at hn
    rw [Operands.cons_tokens_append, List.length_cons, List.length_append] at hcount
    have hoperand := operand.reads (n := n) (by omega) hsettled.1 (more.below_tokens hrest)
    have hmore : chainFrom b.op? (b.operand.parser (path n)) count (o.combine left operand.value)
        (more.tokens ++ rest) = _ := more.reads _ (by omega) (by omega) hsettled.2 hrest
    have hop : b.op? o.1 = some o.combine := (Option.some_get o.2).symm
    rw [Operands.cons_tokens_append, chainFrom, hop]
    dsimp only
    rw [hoperand, ok_bind]
    exact hmore

theorem Stride.reads : ∀ (s : Stride) {m : Nat} {rest : List Token}, s.tokens.length ≤ m →
    s.Settled rest → Below 8 rest →
    step (expression (path m)) (s.tokens ++ rest) = .ok (s.value, rest)
  | .self, _, _, _, _, _ => rfl
  | .parent, _, _, _, _, _ => rfl
  | .along way test ps, m, rest, hm, hsettled, hrest => by
    rw [Stride.tokens, List.length_append, List.length_append] at hm
    have hps := ps.reads (m := m) (by omega) (Nat.lt_succ_self _) hsettled hrest
    have hends := ps.ends hrest
    rw [Stride.tokens, List.append_assoc, List.append_assoc, step_tokens,
      axis_tokens way test hends, ok_bind]
    dsimp only
    rw [nodeTest_tokens test hends, ok_bind]
    dsimp only
    rw [predicates, hps]
    rfl

theorem Strides.reads : ∀ (more : Strides) {m count : Nat} {rest : List Token},
    more.tokens.length ≤ m → (more.tokens ++ rest).length < count → more.Settled rest →
    Below 7 rest →
    stepsFrom (expression (path m)) count (more.tokens ++ rest) = .ok (more.values, rest)
  | .nil, _, count, rest, _, hcount, _, hrest =>
    stepsFrom_end hrest.ne_lead (Nat.zero_lt_of_lt hcount)
  | .cons lead s more, m, 0, rest, _, hcount, _, _ => absurd hcount (Nat.not_lt_zero _)
  | .cons lead s more, m, count + 1, rest, hm, hcount, hsettled, hrest => by
    rw [Strides.tokens, List.length_cons, List.length_append] at hm
    rw [Strides.cons_tokens_append, List.length_cons, List.length_append] at hcount
    have hs := s.reads (m := m) (by omega) hsettled.1 (more.below_tokens hrest)
    have hmore : stepsFrom (expression (path m)) count (more.tokens ++ rest) = _ :=
      more.reads (by omega) (by omega) hsettled.2 hrest
    rw [Strides.cons_tokens_append, stepsFrom_lead, hs, ok_bind]
    dsimp only
    rw [hmore]
    rfl

theorem Predicates.reads : ∀ (ps : Predicates) {m count : Nat} {rest : List Token},
    ps.tokens.length ≤ m → (ps.tokens ++ rest).length < count → ps.Settled rest → Below 8 rest →
    predicatesFrom (expression (path m)) count (ps.tokens ++ rest) = .ok (ps.values, rest)
  | .nil, _, count, rest, _, hcount, _, hrest =>
    predicatesFrom_end hrest.ne_openBracket (Nat.zero_lt_of_lt hcount)
  | .cons e more, m, 0, rest, _, hcount, _, _ => absurd hcount (Nat.not_lt_zero _)
  | .cons e more, m, count + 1, rest, hm, hcount, hsettled, hrest => by
    rw [Predicates.tokens, List.length_cons, List.length_append, List.length_cons] at hm
    rw [Predicates.cons_tokens_append, List.length_cons, List.length_append,
      List.length_cons] at hcount
    have he : expression (path m) (e.tokens ++ .closeBracket :: (more.tokens ++ rest)) = _ :=
      e.reads (n := m) (by omega) hsettled.1 (below_closeBracket _ _)
    have hmore : predicatesFrom (expression (path m)) count (more.tokens ++ rest) = _ :=
      more.reads (by omega) (by omega) hsettled.2 hrest
    rw [Predicates.cons_tokens_append, predicatesFrom, he, ok_bind]
    dsimp only
    rw [skip_self, ok_bind, hmore]
    rfl

theorem Primary.reads : ∀ (p : Primary) {m : Nat} {rest : List Token}, p.tokens.length ≤ m →
    p.Settled rest →
    primary? (expression (path m)) (p.tokens ++ rest) = some (.ok (p.value, rest))
  | .literal s, _, _, _, _ => rfl
  | .number x, _, _, _, _ => rfl
  | .group e, m, rest, hm, hsettled => by
    rw [Primary.tokens, List.length_cons, List.length_append, List.length_singleton] at hm
    have he : expression (path m) (e.tokens ++ .closeParen :: rest) = _ :=
      e.reads (n := m) (by omega) hsettled (below_closeParen _ _)
    rw [Primary.tokens, List.cons_append, List.append_assoc, List.singleton_append, primary?, he,
      ok_bind]
    dsimp only
    rw [skip_self, ok_bind]
    rfl
  | .call name as, m, rest, hm, hsettled => by
    rw [Primary.tokens, List.length_cons, List.length_cons] at hm
    have hargs : args (expression (path m)) (as.tokens ++ rest) = _ :=
      as.reads (by omega) hsettled
    rw [Primary.tokens, List.cons_append, List.cons_append, primary?, name.2, hargs, ok_bind]
    rfl

theorem Arguments.reads : ∀ (as : Arguments) {m : Nat} {rest : List Token},
    as.tokens.length < m → as.Settled rest →
    args (expression (path m)) (as.tokens ++ rest) = .ok (as.values, rest)
  | .empty, _, _, _, _ => rfl
  | .listed first more, m, rest, hm, hsettled => by
    rw [Arguments.tokens, List.length_append] at hm
    have hfirst : expression (path m) (first.tokens ++ (more.tokens ++ rest)) = _ :=
      first.reads (n := m) (by omega) hsettled.1 (more.below_tokens _ rest)
    have hcount : (more.tokens ++ rest).length <
        (first.tokens ++ (more.tokens ++ rest)).length + 1 :=
      Nat.lt_succ_of_le (List.sublist_append_right first.tokens _).length_le
    have hmore := more.reads (m := m) hfirst (by omega) hcount hsettled.2
    obtain ⟨t, ts, htokens, hopens, -⟩ := first.head
    rw [Arguments.tokens, List.append_assoc]
    rw [htokens, List.cons_append] at hmore ⊢
    rw [args_of_opens hopens]
    exact hmore

theorem MoreArguments.reads : ∀ (more : MoreArguments) {m count : Nat} {e : Expr}
    {ts rest : List Token}, expression (path m) ts = .ok (e, more.tokens ++ rest) →
    more.tokens.length < m → (more.tokens ++ rest).length < count → more.Settled rest →
    argsFrom (expression (path m)) count ts = .ok (e :: more.values, rest)
  | .nil, m, 0, _, _, _, _, _, hcount, _ => absurd hcount (Nat.not_lt_zero _)
  | .nil, m, count + 1, e, ts, rest, he, _, _, _ => by
    rw [argsFrom, he, ok_bind]
    rfl
  | .cons e' more, m, 0, _, _, _, _, _, hcount, _ => absurd hcount (Nat.not_lt_zero _)
  | .cons e' more, m, count + 1, e, ts, rest, he, hm, hcount, hsettled => by
    rw [MoreArguments.tokens, List.length_cons, List.length_append] at hm
    rw [MoreArguments.cons_tokens_append, List.length_cons, List.length_append] at hcount
    have he' : expression (path m) (e'.tokens ++ (more.tokens ++ rest)) = _ :=
      e'.reads (n := m) (by omega) hsettled.1 (more.below_tokens _ rest)
    have hmore : argsFrom (expression (path m)) count _ = _ :=
      more.reads he' (by omega) (by omega) hsettled.2
    rw [argsFrom, he, ok_bind, MoreArguments.cons_tokens_append]
    dsimp only
    rw [skip_self, ok_bind, hmore]
    rfl

end

end PatchScript.XPath.Grammar
