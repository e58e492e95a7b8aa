import PatchScript.Proofs.XPath.Completeness

/-!
# What is read has a derivation

Whatever the parser reads, the tokens that it has taken are those of a derivation that stands for
the expression, and the derivation is settled in front of the tokens that are left.
-/

namespace PatchScript.XPath.Grammar

variable {m n count : Nat} {t : Token} {ts rest : List Token} {expr operand : Parser Expr}
  {b : Binary}

/-- A parser whose results are those of settled phrases of a level. -/
def Sound (l : Level) (p : Parser Expr) : Prop :=
  ∀ ts e rest, p ts = .ok (e, rest) →
    ∃ x : Phrase l, ts = x.tokens ++ rest ∧ x.value = e ∧ x.Settled rest

theorem skip_eq_ok (h : skip t ts = .ok rest) : ts = t :: rest := by
  cases ts with
  | nil => cases h
  | cons t' ts =>
    rw [skip] at h
    split at h
    · rename_i heq
      cases h
      rw [heq]
    · cases h

/-! ## Operators -/

theorem chainFrom_eq_ok (hoperand : Sound b.operand operand) : ∀ {count : Nat} {left e : Expr}
    {ts rest : List Token}, chainFrom b.op? operand count left ts = .ok (e, rest) →
    ∃ more : Operands b, ts = more.tokens ++ rest ∧ more.behind left = e ∧ more.Settled rest
  | 0, _, _, _, _, h => nomatch h
  | count + 1, left, e, [], rest, h => by
    cases h
    exact ⟨.nil, rfl, rfl, trivial⟩
  | count + 1, left, e, t :: ts, rest, h => by
    rw [chainFrom] at h
    cases hop : b.op? t with
    | none =>
      rw [hop] at h
      cases h
      exact ⟨.nil, rfl, rfl, trivial⟩
    | some combine =>
      rw [hop] at h
      obtain ⟨⟨right, ts'⟩, hright, hmore⟩ := bind_eq_ok h
      obtain ⟨x, rfl, rfl, hx⟩ := hoperand _ _ _ hright
      obtain ⟨more, rfl, rfl, hsettled⟩ := chainFrom_eq_ok hoperand hmore
      let o : Operator b := ⟨t, by rw [hop]; rfl⟩
      have hcombine : o.combine = combine := Option.get_of_eq_some o.2 hop
      refine ⟨.cons o x more, ?_, ?_, hx, hsettled⟩
      · rw [Operands.tokens, List.cons_append, List.append_assoc]
      · rw [Operands.behind, hcombine]

theorem chain_sound (hoperand : Sound b.operand operand) :
    Sound (.binary b) (chain b.op? operand) := by
  intro ts e rest h
  rw [chain] at h
  obtain ⟨⟨left, ts'⟩, hleft, hmore⟩ := bind_eq_ok h
  obtain ⟨x, rfl, rfl, hx⟩ := hoperand _ _ _ hleft
  obtain ⟨more, rfl, rfl, hsettled⟩ := chainFrom_eq_ok hoperand hmore
  exact ⟨.operands x more, by rw [Phrase.tokens, List.append_assoc], rfl, hx, hsettled⟩

theorem signed_eq_ok (hoperand : Sound (.binary .union) operand) : ∀ {ts : List Token} {e : Expr}
    {rest : List Token}, signed operand ts = .ok (e, rest) →
    ∃ x : Phrase .sign, ts = x.tokens ++ rest ∧ x.value = e ∧ x.Settled rest
  | [], e, rest, h => by
    obtain ⟨x, htokens, hvalue, hx⟩ := hoperand _ _ _ h
    exact ⟨.unsigned x, htokens, hvalue, hx⟩
  | t :: ts, e, rest, h => by
    by_cases ht : t = .minus
    · subst ht
      rw [signed] at h
      obtain ⟨⟨e', ts'⟩, he, hr⟩ := bind_eq_ok h
      cases hr
      obtain ⟨x, rfl, rfl, hx⟩ := signed_eq_ok hoperand he
      exact ⟨.negated x, rfl, rfl, hx⟩
    · rw [signed_of_ne ht] at h
      obtain ⟨x, htokens, hvalue, hx⟩ := hoperand _ _ _ h
      exact ⟨.unsigned x, htokens, hvalue, hx⟩

theorem expression_sound {path : Parser Expr} (hpath : Sound .path path) :
    Sound (.binary .or) (expression path) := by
  have hunion : Sound (.binary .union) (chain unionOp path) := chain_sound hpath
  have hsign : Sound .sign (signed (chain unionOp path)) := fun _ _ _ => signed_eq_ok hunion
  have hsum : Sound (.binary .sum) (chain sumOp _) := chain_sound hsign
  have horder : Sound (.binary .order) (chain orderOp _) := chain_sound hsum
  have hequality : Sound (.binary .equality) (chain equalityOp _) := chain_sound horder
  have hand : Sound (.binary .and) (chain andOp _) := chain_sound hequality
  exact chain_sound hand

/-! ## Steps -/

variable (hexpr : Sound (.binary .or) expr)

include hexpr in
theorem predicatesFrom_eq_ok : ∀ {count : Nat} {ts : List Token} {es : List Expr}
    {rest : List Token}, predicatesFrom expr count ts = .ok (es, rest) →
    ∃ ps : Predicates, ts = ps.tokens ++ rest ∧ ps.values = es ∧ ps.Settled rest
  | 0, _, _, _, h => nomatch h
  | count + 1, ts, es, rest, h => by
    by_cases hopen : ∃ us, ts = .openBracket :: us
    · obtain ⟨us, rfl⟩ := hopen
      rw [predicatesFrom] at h
      obtain ⟨⟨e, ts₁⟩, he, h⟩ := bind_eq_ok h
      obtain ⟨ts₂, hclose, h⟩ := bind_eq_ok h
      obtain ⟨⟨es', ts₃⟩, hes, h⟩ := bind_eq_ok h
      cases h
      obtain ⟨x, rfl, rfl, hx⟩ := hexpr _ _ _ he
      obtain rfl := skip_eq_ok hclose
      obtain ⟨ps, rfl, rfl, hps⟩ := predicatesFrom_eq_ok hes
      exact ⟨.cons x ps, (Predicates.cons_tokens_append ..).symm, rfl, hx, hps⟩
    · rw [predicatesFrom_end (not_exists.mp hopen) (Nat.succ_pos count)] at h
      cases h
      exact ⟨.nil, rfl, rfl, trivial⟩

omit hexpr in
theorem nodeTest_eq_ok {test : NodeTest} (h : nodeTest ts = .ok (test, rest)) :
    ts = testTokens test ++ rest := by
  unfold nodeTest at h
  split at h
  · cases h
    rfl
  · split at h
    · rename_i s ts _ test' heq
      obtain ⟨ts', hclose, hr⟩ := bind_eq_ok h
      cases hr
      obtain rfl := skip_eq_ok hclose
      split at heq
      · cases heq
        subst s
        rfl
      · split at heq
        · cases heq
          subst s
          rfl
        · split at heq
          · cases heq
            subst s
            rfl
          · cases heq
    · cases h
  · cases h
    rfl
  · cases h

omit hexpr in
theorem eq_axisName {s : String} {a : Axis} (h : Axis.ofName? s = some a) : s = axisName a := by
  unfold Axis.ofName? at h
  repeat' split at h
  all_goals first | cases h; assumption | cases h

omit hexpr in
theorem axis_eq_ok {a : Axis} (h : axis ts = .ok (a, rest)) :
    ∃ way : Way, ts = way.tokens ++ rest ∧ way.axis = a := by
  unfold axis at h
  split at h
  · cases h
    exact ⟨.attributes, rfl, rfl⟩
  · split at h
    · rename_i s ts a' hname
      cases h
      obtain rfl := eq_axisName hname
      exact ⟨.named _, rfl, rfl⟩
    · cases h
  · cases h
    exact ⟨.children, rfl, rfl⟩

include hexpr

theorem step_eq_ok {s : Step} (h : step expr ts = .ok (s, rest)) :
    ∃ x : Stride, ts = x.tokens ++ rest ∧ x.value = s ∧ x.Settled rest := by
  unfold step at h
  split at h
  · cases h
    exact ⟨.self, rfl, rfl, trivial⟩
  · cases h
    exact ⟨.parent, rfl, rfl, trivial⟩
  · obtain ⟨⟨a, ts₁⟩, ha, h⟩ := bind_eq_ok h
    obtain ⟨⟨test, ts₂⟩, htest, h⟩ := bind_eq_ok h
    obtain ⟨⟨es, ts₃⟩, hes, h⟩ := bind_eq_ok h
    cases h
    obtain ⟨way, rfl, rfl⟩ := axis_eq_ok ha
    obtain rfl := nodeTest_eq_ok htest
    obtain ⟨ps, rfl, rfl, hps⟩ := predicatesFrom_eq_ok hexpr hes
    exact ⟨.along way test ps, by simp [Stride.tokens], rfl, hps⟩

theorem stepsFrom_eq_ok : ∀ {count : Nat} {ts : List Token} {ss : List Step} {rest : List Token},
    stepsFrom expr count ts = .ok (ss, rest) →
    ∃ more : Strides, ts = more.tokens ++ rest ∧ more.values = ss ∧ more.Settled rest
  | 0, _, _, _, h => nomatch h
  | count + 1, ts, ss, rest, h => by
    by_cases hlead : ∃ (lead : Lead) (us : List Token), ts = lead.token :: us
    · obtain ⟨lead, us, rfl⟩ := hlead
      rw [stepsFrom_lead] at h
      obtain ⟨⟨s, ts₁⟩, hs, h⟩ := bind_eq_ok h
      obtain ⟨⟨ss', ts₂⟩, hss, h⟩ := bind_eq_ok h
      cases h
      obtain ⟨x, rfl, rfl, hx⟩ := step_eq_ok hexpr hs
      obtain ⟨more, rfl, rfl, hmore⟩ := stepsFrom_eq_ok hss
      exact ⟨.cons lead x more, (Strides.cons_tokens_append ..).symm, rfl, hx, hmore⟩
    · have hend : ∀ (lead : Lead) us, ts ≠ lead.token :: us := fun lead us h => hlead ⟨lead, us, h⟩
      rw [stepsFrom_end hend (Nat.succ_pos count)] at h
      cases h
      exact ⟨.nil, rfl, rfl, trivial⟩

theorem steps_eq_ok {ss : List Step} (h : steps expr ts = .ok (ss, rest)) :
    ∃ (first : Stride) (more : Strides), ts = first.tokens ++ (more.tokens ++ rest) ∧
      first.value :: more.values = ss ∧ first.Settled (more.tokens ++ rest) ∧
      more.Settled rest := by
  rw [steps] at h
  obtain ⟨⟨s, ts₁⟩, hs, h⟩ := bind_eq_ok h
  obtain ⟨⟨ss', ts₂⟩, hss, h⟩ := bind_eq_ok h
  cases h
  obtain ⟨x, rfl, rfl, hx⟩ := step_eq_ok hexpr hs
  obtain ⟨more, rfl, rfl, hmore⟩ := stepsFrom_eq_ok hexpr hss
  exact ⟨x, more, rfl, rfl, hx, hmore⟩

/-! ## Paths -/

theorem argsFrom_eq_ok : ∀ {count : Nat} {ts : List Token} {es : List Expr} {rest : List Token},
    argsFrom expr count ts = .ok (es, rest) →
    ∃ (first : Whole) (more : MoreArguments), ts = first.tokens ++ (more.tokens ++ rest) ∧
      first.value :: more.values = es ∧ first.Settled (more.tokens ++ rest) ∧ more.Settled rest
  | 0, _, _, _, h => nomatch h
  | count + 1, ts, es, rest, h => by
    rw [argsFrom] at h
    obtain ⟨⟨e, ts₁⟩, he, h⟩ := bind_eq_ok h
    obtain ⟨x, rfl, rfl, hx⟩ := hexpr _ _ _ he
    dsimp only at h
    split at h
    · cases h
      exact ⟨x, .nil, rfl, rfl, hx, trivial⟩
    · obtain ⟨ts₂, hcomma, h⟩ := bind_eq_ok h
      obtain ⟨⟨es', ts₃⟩, hes, h⟩ := bind_eq_ok h
      cases h
      obtain rfl := skip_eq_ok hcomma
      obtain ⟨first, more, rfl, rfl, hfirst, hmore⟩ := argsFrom_eq_ok hes
      refine ⟨x, .cons first more, ?_, rfl, ?_, hfirst, hmore⟩
      · rw [MoreArguments.cons_tokens_append]
      · rw [MoreArguments.cons_tokens_append]
        exact hx

theorem args_eq_ok {es : List Expr} (h : args expr ts = .ok (es, rest)) :
    ∃ as : Arguments, ts = as.tokens ++ rest ∧ as.values = es ∧ as.Settled rest := by
  unfold args at h
  split at h
  · cases h
    exact ⟨.empty, rfl, rfl, trivial⟩
  · obtain ⟨first, more, rfl, rfl, hfirst, hmore⟩ := argsFrom_eq_ok hexpr h
    exact ⟨.listed first more, by simp [Arguments.tokens], rfl, hfirst, hmore⟩

theorem primary?_eq_ok {e : Expr} (h : primary? expr ts = some (.ok (e, rest))) :
    ∃ p : Primary, ts = p.tokens ++ rest ∧ p.value = e ∧ p.Settled rest := by
  unfold primary? at h
  split at h
  · cases h
    exact ⟨.literal _, rfl, rfl, trivial⟩
  · cases h
    exact ⟨.number _, rfl, rfl, trivial⟩
  · obtain ⟨⟨e', ts₁⟩, he, h⟩ := bind_eq_ok (Option.some.inj h)
    obtain ⟨ts₂, hclose, h⟩ := bind_eq_ok h
    cases h
    obtain ⟨x, rfl, rfl, hx⟩ := hexpr _ _ _ he
    obtain rfl := skip_eq_ok hclose
    exact ⟨.group x, by simp [Primary.tokens], rfl, hx⟩
  · split at h
    · cases h
    · rename_i s ts hname
      obtain ⟨⟨es, ts₁⟩, hes, h⟩ := bind_eq_ok (Option.some.inj h)
      cases h
      obtain ⟨as, rfl, rfl, has⟩ := args_eq_ok hexpr hes
      exact ⟨.call ⟨s, by simpa using hname⟩ as, by simp [Primary.tokens], rfl, has⟩
  · cases h

theorem filterRest_eq_ok {p : Expr} {e : Expr} (h : filterRest expr p ts = .ok (e, rest)) :
    ∃ (ps : Predicates) (more : Strides), ts = ps.tokens ++ (more.tokens ++ rest) ∧
      filtered p ps.values more.values = e ∧ ps.Settled (more.tokens ++ rest) ∧
      more.Settled rest := by
  have hread := h
  rw [filterRest] at hread
  obtain ⟨⟨es, ts₁⟩, hes, -⟩ := bind_eq_ok hread
  obtain ⟨ps, rfl, rfl, hps⟩ := predicatesFrom_eq_ok hexpr hes
  by_cases hlead : ∃ (lead : Lead) (us : List Token), ts₁ = lead.token :: us
  · obtain ⟨lead, us, rfl⟩ := hlead
    rw [filterRest_lead hes] at h
    obtain ⟨⟨ss, ts₂⟩, hss, h⟩ := bind_eq_ok h
    cases h
    obtain ⟨first, more, rfl, rfl, hfirst, hmore⟩ := steps_eq_ok hexpr hss
    refine ⟨ps, .cons lead first more, ?_, filtered_lead _ _ lead _ _, ?_, hfirst, hmore⟩
    · rw [Strides.cons_tokens_append]
    · rw [Strides.cons_tokens_append]
      exact hps
  · have hend : ∀ (lead : Lead) us, ts₁ ≠ lead.token :: us := fun lead us h => hlead ⟨lead, us, h⟩
    rw [filterRest_end hend hes] at h
    cases h
    exact ⟨ps, .nil, rfl, rfl, hps, trivial⟩

theorem pathOf_sound : Sound .path (pathOf expr) := by
  intro ts e rest h
  unfold pathOf at h
  split at h
  · split at h
    · obtain ⟨⟨ss, ts₁⟩, hss, h⟩ := bind_eq_ok h
      cases h
      obtain ⟨first, more, rfl, rfl, hfirst, hmore⟩ := steps_eq_ok hexpr hss
      exact ⟨.absolute .slash first more, by simp [Phrase.tokens, Lead.token], rfl, hfirst, hmore⟩
    · rename_i hstarts
      cases h
      exact ⟨.root, rfl, rfl, Bool.eq_false_iff.mpr hstarts⟩
  · obtain ⟨⟨ss, ts₁⟩, hss, h⟩ := bind_eq_ok h
    cases h
    obtain ⟨first, more, rfl, rfl, hfirst, hmore⟩ := steps_eq_ok hexpr hss
    exact ⟨.absolute .doubleSlash first more, by simp [Phrase.tokens, Lead.token], rfl, hfirst,
      hmore⟩
  · split at h
    · rename_i r hprimary
      obtain ⟨⟨p, ts₁⟩, hp, h⟩ := bind_eq_ok h
      rw [hp] at hprimary
      obtain ⟨x, rfl, rfl, hx⟩ := primary?_eq_ok hexpr hprimary
      obtain ⟨ps, more, rfl, rfl, hps, hmore⟩ := filterRest_eq_ok hexpr h
      exact ⟨.primary x ps more, by simp [Phrase.tokens], rfl, hx, hps, hmore⟩
    · obtain ⟨⟨ss, ts₁⟩, hss, h⟩ := bind_eq_ok h
      cases h
      obtain ⟨first, more, rfl, rfl, hfirst, hmore⟩ := steps_eq_ok hexpr hss
      exact ⟨.relative first more, by simp [Phrase.tokens], rfl, hfirst, hmore⟩

omit hexpr

/-! ## Expressions -/

theorem path_sound : ∀ n : Nat, Sound .path (path n)
  | 0 => fun _ _ _ h => nomatch h
  | n + 1 => pathOf_sound (expression_sound (path_sound n))

/-- The tokens of an expression that is parsed have a settled derivation. -/
theorem parse_eq_ok {e : Expr} (h : parse ts = .ok e) :
    ∃ x : Whole, x.tokens = ts ∧ x.value = e ∧ x.Settled [] := by
  rw [parse] at h
  obtain ⟨⟨e', rest⟩, he, h⟩ := bind_eq_ok h
  obtain ⟨x, rfl, rfl, hx⟩ := expression_sound (path_sound _) _ _ _ he
  cases rest with
  | nil =>
    cases h
    exact ⟨x, (List.append_nil _).symm, rfl, hx⟩
  | cons t ts => cases h

end PatchScript.XPath.Grammar
