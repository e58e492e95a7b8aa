import PatchScript.Proofs.XPath.Reading
import PatchScript.Proofs.XPath.Soundness

/-!
# Derivations are told by their tokens

No two settled derivations spell the same tokens, even if they are only the front of a list that
both are followed by: they end at the same place, as soon as what follows goes on with a looser
phrase.  Where a rule offers alternatives, the first tokens tell which one it is.

With soundness and completeness, the parser decides the grammar.
-/

namespace PatchScript.XPath.Grammar

variable {t : Token} {ts ts' r r' : List Token} {b : Binary}

/-! ## First tokens -/

theorem Lead.token_injective : Function.Injective Lead.token := by
  intro l l' h
  cases l <;> cases l' <;> first | rfl | cases h

theorem lead_ne_stride (lead : Lead) (s : Stride) : lead.token :: ts ≠ s.tokens ++ ts' := by
  obtain ⟨t, us, htokens, ht⟩ := s.head
  rw [htokens]
  intro h
  obtain ⟨rfl, -⟩ := List.cons.inj h
  cases lead <;> cases ht

theorem lead_ne_primary (lead : Lead) (p : Primary) : lead.token :: ts ≠ p.tokens ++ ts' := by
  obtain ⟨t, us, htokens, -, -, hslash, hdouble⟩ := p.head
  rw [htokens]
  intro h
  obtain ⟨rfl, -⟩ := List.cons.inj h
  cases lead with
  | slash => exact hslash rfl
  | doubleSlash => exact hdouble rfl

/-- A slash alone is no lead. -/
theorem root_ne_absolute (hr : (r.take 1).any startsStep = false) (lead : Lead) (s : Stride) :
    .slash :: r ≠ lead.token :: (s.tokens ++ ts) := by
  intro h
  obtain ⟨-, rfl⟩ := List.cons.inj h
  obtain ⟨t, us, htokens, ht⟩ := s.head
  simp [htokens, ht] at hr

/-- In front of what can follow a step, a primary is told from a step by one or two tokens. -/
theorem stride_ne_primary (s : Stride) (p : Primary) (h : Below 8 r) :
    s.tokens ++ r ≠ p.tokens ++ r' := by
  intro heq
  have hnone : primary? (fun _ => .error .levels) (s.tokens ++ r) = none := s.primary?_eq_none h
  rw [heq] at hnone
  cases p with
  | call name args =>
    rw [Primary.tokens, List.cons_append, List.cons_append, primary?, name.2] at hnone
    cases hnone
  | _ => cases hnone

theorem arguments_ne_empty (e : Whole) : .closeParen :: ts ≠ e.tokens ++ ts' := by
  obtain ⟨t, us, htokens, ht, -⟩ := e.head
  rw [htokens]
  intro h
  obtain ⟨rfl, -⟩ := List.cons.inj h
  cases ht

/-- A phrase that binds tighter than signs has none. -/
theorem minus_ne_tokens (p : Phrase (.binary .union)) : .minus :: ts ≠ p.tokens ++ ts' := by
  obtain ⟨t, us, htokens, -, hminus⟩ := p.head
  rw [htokens]
  intro h
  obtain ⟨rfl, -⟩ := List.cons.inj h
  exact hminus (by decide) rfl

/-! ## Steps -/

theorem axisName_injective : Function.Injective axisName := by
  intro a a' h
  have ha := ofName?_axisName a
  rw [h, ofName?_axisName] at ha
  exact (Option.some.inj ha).symm

theorem Way.tokens_injective : Function.Injective Way.tokens := by
  intro w w' h
  cases w with
  | children => cases w' <;> first | rfl | cases h
  | attributes => cases w' <;> first | rfl | cases h
  | named a =>
    cases w' with
    | children => cases h
    | attributes => cases h
    | named a' => rw [axisName_injective (Token.name.inj (List.cons.inj h).1)]

/-- A way and a node test are told by their tokens. -/
theorem Way.unique {way way' : Way} {test test' : NodeTest} (hr : Ends r) (hr' : Ends r')
    (h : way.tokens ++ (testTokens test ++ r) = way'.tokens ++ (testTokens test' ++ r')) :
    way = way' ∧ test = test' ∧ r = r' := by
  have haxis := axis_tokens way test hr
  rw [h, axis_tokens way' test' hr'] at haxis
  obtain ⟨-, htests⟩ := Prod.mk.inj (Except.ok.inj haxis)
  have htest := nodeTest_tokens test hr
  rw [← htests, nodeTest_tokens test' hr'] at htest
  obtain ⟨rfl, rfl⟩ := Prod.mk.inj (Except.ok.inj htest)
  exact ⟨Way.tokens_injective (List.append_cancel_right h), rfl, rfl⟩

/-- A step along an axis is none of the short ones. -/
theorem along_head (way : Way) (test : NodeTest) (ts : List Token) :
    ∃ t us, way.tokens ++ (testTokens test ++ ts) = t :: us ∧ t ≠ .dot ∧ t ≠ .dotDot := by
  cases way with
  | attributes => exact ⟨_, _, rfl, nofun, nofun⟩
  | named a => exact ⟨_, _, rfl, nofun, nofun⟩
  | children => cases test <;> exact ⟨_, _, rfl, nofun, nofun⟩

theorem self_ne_along (way : Way) (test : NodeTest) :
    .dot :: ts ≠ way.tokens ++ (testTokens test ++ ts') := by
  obtain ⟨t, us, htokens, hdot, -⟩ := along_head way test ts'
  rw [htokens]
  exact fun h => hdot (List.cons.inj h).1.symm

theorem parent_ne_along (way : Way) (test : NodeTest) :
    .dotDot :: ts ≠ way.tokens ++ (testTokens test ++ ts') := by
  obtain ⟨t, us, htokens, -, hdots⟩ := along_head way test ts'
  rw [htokens]
  exact fun h => hdots (List.cons.inj h).1.symm

/-! ## Derivations -/

mutual

theorem Phrase.unique : ∀ {l : Level} (p p' : Phrase l) {r r' : List Token}, p.Settled r →
    p'.Settled r' → Below l.rank r → Below l.rank r' → p.tokens ++ r = p'.tokens ++ r' →
    p = p' ∧ r = r'
  | _, .operands first more, .operands first' more', r, r', hp, hp', hr, hr', h => by
    rw [Phrase.tokens, Phrase.tokens, List.append_assoc, List.append_assoc] at h
    obtain ⟨rfl, htail⟩ := first.unique first' hp.1 hp'.1 (more.below_tokens hr)
      (more'.below_tokens hr') h
    obtain ⟨rfl, rfl⟩ := more.unique more' hp.2 hp'.2 hr hr' htail
    exact ⟨rfl, rfl⟩
  | _, .unsigned p, .unsigned p', r, r', hp, hp', hr, hr', h => by
    obtain ⟨rfl, rfl⟩ := p.unique p' hp hp' (hr.mono (by decide)) (hr'.mono (by decide)) h
    exact ⟨rfl, rfl⟩
  | _, .unsigned p, .negated p', r, r', _, _, _, _, h => absurd h.symm (minus_ne_tokens p)
  | _, .negated p, .unsigned p', r, r', _, _, _, _, h => absurd h (minus_ne_tokens p')
  | _, .negated p, .negated p', r, r', hp, hp', hr, hr', h => by
    obtain ⟨rfl, rfl⟩ := p.unique p' hp hp' hr hr' (List.cons.inj h).2
    exact ⟨rfl, rfl⟩
  | _, .root, .root, r, r', _, _, _, _, h => ⟨rfl, (List.cons.inj h).2⟩
  | _, .root, .absolute lead first more, r, r', hp, _, _, _, h => by
    simp only [Phrase.tokens, List.cons_append, List.append_assoc, List.nil_append] at h
    exact absurd h (root_ne_absolute hp lead first)
  | _, .root, .relative first more, r, r', _, _, _, _, h => by
    rw [Phrase.tokens, Phrase.tokens, List.append_assoc] at h
    exact absurd h (lead_ne_stride .slash first)
  | _, .root, .primary p ps more, r, r', _, _, _, _, h => by
    rw [Phrase.tokens, Phrase.tokens, List.append_assoc] at h
    exact absurd h (lead_ne_primary .slash p)
  | _, .absolute lead first more, .root, r, r', _, hp', _, _, h => by
    rw [Phrase.tokens, Phrase.tokens, List.cons_append, List.append_assoc] at h
    exact absurd h.symm (root_ne_absolute hp' lead first)
  | _, .absolute lead first more, .absolute lead' first' more', r, r', hp, hp', hr, hr', h => by
    rw [Phrase.tokens, Phrase.tokens, List.cons_append, List.cons_append, List.append_assoc,
      List.append_assoc] at h
    obtain ⟨hlead, htail⟩ := List.cons.inj h
    obtain ⟨rfl, hrest⟩ := first.unique first' hp.1 hp'.1 (more.below_tokens hr)
      (more'.below_tokens hr') htail
    obtain ⟨rfl, rfl⟩ := more.unique more' hp.2 hp'.2 hr hr' hrest
    rw [Lead.token_injective hlead]
    exact ⟨rfl, rfl⟩
  | _, .absolute lead first more, .relative first' more', r, r', _, _, _, _, h => by
    rw [Phrase.tokens, Phrase.tokens, List.cons_append, List.append_assoc _ _ r'] at h
    exact absurd h (lead_ne_stride lead first')
  | _, .absolute lead first more, .primary p' ps' more', r, r', _, _, _, _, h => by
    rw [Phrase.tokens, Phrase.tokens, List.cons_append, List.append_assoc _ _ r'] at h
    exact absurd h (lead_ne_primary lead p')
  | _, .relative first more, .root, r, r', _, _, _, _, h => by
    rw [Phrase.tokens, Phrase.tokens, List.append_assoc] at h
    exact absurd h.symm (lead_ne_stride .slash first)
  | _, .relative first more, .absolute lead' first' more', r, r', _, _, _, _, h => by
    rw [Phrase.tokens, Phrase.tokens, List.cons_append, List.append_assoc _ _ r] at h
    exact absurd h.symm (lead_ne_stride lead' first)
  | _, .relative first more, .relative first' more', r, r', hp, hp', hr, hr', h => by
    rw [Phrase.tokens, Phrase.tokens, List.append_assoc, List.append_assoc] at h
    obtain ⟨rfl, htail⟩ := first.unique first' hp.1 hp'.1 (more.below_tokens hr)
      (more'.below_tokens hr') h
    obtain ⟨rfl, rfl⟩ := more.unique more' hp.2 hp'.2 hr hr' htail
    exact ⟨rfl, rfl⟩
  | _, .relative first more, .primary p' ps' more', r, r', _, _, hr, _, h => by
    simp only [Phrase.tokens, List.append_assoc] at h
    exact absurd h (stride_ne_primary first p' (more.below_tokens hr))
  | _, .primary p ps more, .root, r, r', _, _, _, _, h => by
    rw [Phrase.tokens, Phrase.tokens, List.append_assoc] at h
    exact absurd h.symm (lead_ne_primary .slash p)
  | _, .primary p ps more, .absolute lead' first' more', r, r', _, _, _, _, h => by
    rw [Phrase.tokens, Phrase.tokens, List.cons_append, List.append_assoc _ _ r] at h
    exact absurd h.symm (lead_ne_primary lead' p)
  | _, .primary p ps more, .relative first' more', r, r', _, _, _, hr', h => by
    simp only [Phrase.tokens, List.append_assoc] at h
    exact absurd h.symm (stride_ne_primary first' p (more'.below_tokens hr'))
  | _, .primary p ps more, .primary p' ps' more', r, r', hp, hp', hr, hr', h => by
    simp only [Phrase.tokens, List.append_assoc] at h
    obtain ⟨rfl, htail⟩ := p.unique p' hp.1 hp'.1 h
    obtain ⟨rfl, hrest⟩ := ps.unique ps' hp.2.1 hp'.2.1 (more.below_tokens hr)
      (more'.below_tokens hr') htail
    obtain ⟨rfl, rfl⟩ := more.unique more' hp.2.2 hp'.2.2 hr hr' hrest
    exact ⟨rfl, rfl⟩
termination_by structural _ p => p

theorem Operands.unique : ∀ {b : Binary} (os os' : Operands b) {r r' : List Token}, os.Settled r →
    os'.Settled r' → Below b.rank r → Below b.rank r' → os.tokens ++ r = os'.tokens ++ r' →
    os = os' ∧ r = r'
  | _, .nil, .nil, _, _, _, _, _, _, h => ⟨rfl, h⟩
  | _, .nil, .cons o operand more, _, _, _, _, hr, _, h => absurd h (hr.ne_operator o)
  | _, .cons o operand more, .nil, _, _, _, _, _, hr', h => absurd h.symm (hr'.ne_operator o)
  | _, .cons o operand more, .cons o' operand' more', r, r', hos, hos', hr, hr', h => by
    rw [Operands.cons_tokens_append, Operands.cons_tokens_append] at h
    obtain ⟨ho, htail⟩ := List.cons.inj h
    obtain ⟨rfl, hrest⟩ := operand.unique operand' hos.1 hos'.1 (more.below_tokens hr)
      (more'.below_tokens hr') htail
    obtain ⟨rfl, rfl⟩ := more.unique more' hos.2 hos'.2 hr hr' hrest
    rw [Subtype.ext ho]
    exact ⟨rfl, rfl⟩
termination_by structural _ os => os

theorem Stride.unique : ∀ (s s' : Stride) {r r' : List Token}, s.Settled r → s'.Settled r' →
    Below 8 r → Below 8 r' → s.tokens ++ r = s'.tokens ++ r' → s = s' ∧ r = r'
  | .self, .self, _, _, _, _, _, _, h => ⟨rfl, (List.cons.inj h).2⟩
  | .self, .parent, _, _, _, _, _, _, h => nomatch h
  | .self, .along way test ps, _, _, _, _, _, _, h => by
    simp only [Stride.tokens, List.append_assoc] at h
    exact absurd h (self_ne_along way test)
  | .parent, .self, _, _, _, _, _, _, h => nomatch h
  | .parent, .parent, _, _, _, _, _, _, h => ⟨rfl, (List.cons.inj h).2⟩
  | .parent, .along way test ps, _, _, _, _, _, _, h => by
    simp only [Stride.tokens, List.append_assoc] at h
    exact absurd h (parent_ne_along way test)
  | .along way test ps, .self, _, _, _, _, _, _, h => by
    simp only [Stride.tokens, List.append_assoc] at h
    exact absurd h.symm (self_ne_along way test)
  | .along way test ps, .parent, _, _, _, _, _, _, h => by
    simp only [Stride.tokens, List.append_assoc] at h
    exact absurd h.symm (parent_ne_along way test)
  | .along way test ps, .along way' test' ps', r, r', hs, hs', hr, hr', h => by
    simp only [Stride.tokens, List.append_assoc] at h
    obtain ⟨rfl, rfl, htail⟩ := Way.unique (ps.ends hr) (ps'.ends hr') h
    obtain ⟨rfl, rfl⟩ := ps.unique ps' hs hs' hr hr' htail
    exact ⟨rfl, rfl⟩
termination_by structural s => s

theorem Strides.unique : ∀ (ss ss' : Strides) {r r' : List Token}, ss.Settled r → ss'.Settled r' →
    Below 7 r → Below 7 r' → ss.tokens ++ r = ss'.tokens ++ r' → ss = ss' ∧ r = r'
  | .nil, .nil, _, _, _, _, _, _, h => ⟨rfl, h⟩
  | .nil, .cons lead s more, _, _, _, _, hr, _, h => absurd h (hr.ne_lead lead _)
  | .cons lead s more, .nil, _, _, _, _, _, hr', h => absurd h.symm (hr'.ne_lead lead _)
  | .cons lead s more, .cons lead' s' more', r, r', hss, hss', hr, hr', h => by
    rw [Strides.cons_tokens_append, Strides.cons_tokens_append] at h
    obtain ⟨hlead, htail⟩ := List.cons.inj h
    obtain ⟨rfl, hrest⟩ := s.unique s' hss.1 hss'.1 (more.below_tokens hr)
      (more'.below_tokens hr') htail
    obtain ⟨rfl, rfl⟩ := more.unique more' hss.2 hss'.2 hr hr' hrest
    rw [Lead.token_injective hlead]
    exact ⟨rfl, rfl⟩
termination_by structural ss => ss

theorem Predicates.unique : ∀ (ps ps' : Predicates) {r r' : List Token}, ps.Settled r →
    ps'.Settled r' → Below 8 r → Below 8 r' → ps.tokens ++ r = ps'.tokens ++ r' →
    ps = ps' ∧ r = r'
  | .nil, .nil, _, _, _, _, _, _, h => ⟨rfl, h⟩
  | .nil, .cons e more, _, _, _, _, hr, _, h => absurd h (hr.ne_openBracket _)
  | .cons e more, .nil, _, _, _, _, _, hr', h => absurd h.symm (hr'.ne_openBracket _)
  | .cons e more, .cons e' more', r, r', hps, hps', hr, hr', h => by
    rw [Predicates.cons_tokens_append, Predicates.cons_tokens_append] at h
    obtain ⟨rfl, htail⟩ := e.unique e' hps.1 hps'.1 (below_closeBracket _ _)
      (below_closeBracket _ _) (List.cons.inj h).2
    obtain ⟨rfl, rfl⟩ := more.unique more' hps.2 hps'.2 hr hr' (List.cons.inj htail).2
    exact ⟨rfl, rfl⟩
termination_by structural ps => ps

theorem Primary.unique : ∀ (p p' : Primary) {r r' : List Token}, p.Settled r → p'.Settled r' →
    p.tokens ++ r = p'.tokens ++ r' → p = p' ∧ r = r'
  | .literal s, .literal s', _, _, _, _, h => by
    obtain ⟨hs, rfl⟩ := List.cons.inj h
    exact ⟨congrArg Primary.literal (Token.literal.inj hs), rfl⟩
  | .number x, .number x', _, _, _, _, h => by
    obtain ⟨hx, rfl⟩ := List.cons.inj h
    exact ⟨congrArg Primary.number (Token.number.inj hx), rfl⟩
  | .group e, .group e', r, r', hp, hp', h => by
    simp only [Primary.tokens, List.cons_append, List.append_assoc, List.nil_append] at h
    obtain ⟨rfl, htail⟩ := e.unique e' hp hp' (below_closeParen _ _) (below_closeParen _ _)
      (List.cons.inj h).2
    exact ⟨rfl, (List.cons.inj htail).2⟩
  | .call name as, .call name' as', r, r', hp, hp', h => by
    obtain ⟨hname, htail⟩ := List.cons.inj h
    obtain ⟨rfl, rfl⟩ := as.unique as' hp hp' (List.cons.inj htail).2
    rw [Subtype.ext (Token.name.inj hname)]
    exact ⟨rfl, rfl⟩
  | .literal _, .number _, _, _, _, _, h | .literal _, .group _, _, _, _, _, h
  | .literal _, .call _ _, _, _, _, _, h | .number _, .literal _, _, _, _, _, h
  | .number _, .group _, _, _, _, _, h | .number _, .call _ _, _, _, _, _, h
  | .group _, .literal _, _, _, _, _, h | .group _, .number _, _, _, _, _, h
  | .group _, .call _ _, _, _, _, _, h | .call _ _, .literal _, _, _, _, _, h
  | .call _ _, .number _, _, _, _, _, h | .call _ _, .group _, _, _, _, _, h => nomatch h
termination_by structural p => p

theorem Arguments.unique : ∀ (as as' : Arguments) {r r' : List Token}, as.Settled r →
    as'.Settled r' → as.tokens ++ r = as'.tokens ++ r' → as = as' ∧ r = r'
  | .empty, .empty, _, _, _, _, h => ⟨rfl, (List.cons.inj h).2⟩
  | .empty, .listed first more, _, _, _, _, h => by
    rw [Arguments.tokens, Arguments.tokens, List.append_assoc first.tokens] at h
    exact absurd h (arguments_ne_empty first)
  | .listed first more, .empty, _, _, _, _, h => by
    rw [Arguments.tokens, Arguments.tokens, List.append_assoc first.tokens] at h
    exact absurd h.symm (arguments_ne_empty first)
  | .listed first more, .listed first' more', r, r', has, has', h => by
    rw [Arguments.tokens, Arguments.tokens, List.append_assoc, List.append_assoc] at h
    obtain ⟨rfl, htail⟩ := first.unique first' has.1 has'.1 (more.below_tokens _ _)
      (more'.below_tokens _ _) h
    obtain ⟨rfl, rfl⟩ := more.unique more' has.2 has'.2 htail
    exact ⟨rfl, rfl⟩
termination_by structural as => as

theorem MoreArguments.unique : ∀ (as as' : MoreArguments) {r r' : List Token}, as.Settled r →
    as'.Settled r' → as.tokens ++ r = as'.tokens ++ r' → as = as' ∧ r = r'
  | .nil, .nil, _, _, _, _, h => ⟨rfl, (List.cons.inj h).2⟩
  | .nil, .cons e more, _, _, _, _, h => nomatch h
  | .cons e more, .nil, _, _, _, _, h => nomatch h
  | .cons e more, .cons e' more', r, r', has, has', h => by
    rw [MoreArguments.cons_tokens_append, MoreArguments.cons_tokens_append] at h
    obtain ⟨rfl, htail⟩ := e.unique e' has.1 has'.1 (more.below_tokens _ _) (more'.below_tokens _ _)
      (List.cons.inj h).2
    obtain ⟨rfl, rfl⟩ := more.unique more' has.2 has'.2 htail
    exact ⟨rfl, rfl⟩
termination_by structural as => as

end

/-! ## The parser decides the grammar -/

/-- The settled derivations of a list of tokens. -/
def Derivation (ts : List Token) := {x : Whole // x.tokens = ts ∧ x.Settled []}

instance : Subsingleton (Derivation ts) where
  allEq := by
    rintro ⟨x, hx, hsettled⟩ ⟨y, rfl, hsettled'⟩
    have h : x.tokens ++ [] = y.tokens ++ [] := by rw [hx]
    obtain ⟨rfl, -⟩ := x.unique y hsettled hsettled' below_nil below_nil h
    rfl

theorem Derivation.parse (x : Derivation ts) : parse ts = .ok x.1.value := by
  obtain ⟨x, rfl, hsettled⟩ := x
  have hread : expression (path (x.tokens.length + 1)) (x.tokens ++ []) = .ok (x.value, []) :=
    x.reads (Nat.lt_succ_self _) hsettled below_nil
  rw [List.append_nil] at hread
  rw [XPath.parse, hread]
  rfl

/-- The parser decides the grammar: it comes to an end, it gives an expression if and only if the
tokens have a derivation that stands for it, and they have no second one. -/
theorem parse_decides (ts : List Token) :
    parse ts ≠ .error .levels ∧
    (∀ e, parse ts = .ok e ↔ ∃ x : Derivation ts, x.1.value = e) ∧
    Subsingleton (Derivation ts) := by
  refine ⟨parse_ne_levels ts, fun e => ⟨fun h => ?_, ?_⟩, inferInstance⟩
  · obtain ⟨x, htokens, hvalue, hsettled⟩ := parse_eq_ok h
    exact ⟨⟨x, htokens, hsettled⟩, hvalue⟩
  · rintro ⟨x, rfl⟩
    exact x.parse

end PatchScript.XPath.Grammar
