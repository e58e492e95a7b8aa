import PatchScript.Proofs.XPath.Enclosing

/-!
# Literals of expressions

A literal ends at the quote that it starts with, and only the characters between the quotes tell
what it is.  So a text that is an expression falls into literals and stretches without quotes, and
each stretch is read by itself (`tokensFrom_eq_ok_iff`).  A character that no token starts with or
goes on with can stand in the literals only.  If all of them are taken out of the text, the tokens
are the same but for the literals (`tokens_without`).

Neither the grammar nor the expression of a derivation looks at the text of a literal, so the
literals of an expression can be changed (`parse_mapLiterals`).
-/

namespace PatchScript.XPath

open Xml (Document NodeId)

variable {c d q : Char} {as cs rest text : List Char} {t : Token} {ts done : List Token}
  {s : String} {width skip : Nat} {f : String → String}

/-! ## Stretches without quotes -/

/-- The character is a quote. -/
def IsQuote (c : Char) : Prop := c = '\'' ∨ c = '"'

instance : DecidablePred IsQuote := fun _ => inferInstanceAs (Decidable (_ ∨ _))

theorem IsQuote.stops (hq : IsQuote q) : Stops q := by
  rcases hq with rfl | rfl <;> constructor <;> decide

theorem isBlank_quote (hq : IsQuote q) : Text.isBlank q = false := by
  rcases hq with rfl | rfl <;> decide

/-- A stretch without quotes is read by itself. -/
theorem tokensFrom_stops (has : ∀ c ∈ as, ¬IsQuote c) (hd : Stops d) (hskip : skip ≤ as.length)
    (done : List Token) (rest : List Char) :
    tokensFrom skip done (as ++ d :: rest) =
      tokensFrom skip done as >>= fun ts => tokensFrom 0 ts.reverse (d :: rest) := by
  fun_induction tokensFrom skip done as with
  | case1 skip done =>
    obtain rfl := Nat.le_zero.mp hskip
    show _ = tokensFrom 0 done.reverse.reverse (d :: rest)
    rw [List.reverse_reverse]
    rfl
  | case2 skip done c as ih =>
    exact ih (List.forall_mem_cons.mp has).2 (Nat.le_of_succ_le_succ hskip)
  | case3 done c as hblank ih =>
    rw [List.cons_append, tokensFrom, if_pos hblank]
    exact ih (List.forall_mem_cons.mp has).2 (Nat.zero_le _)
  | case4 done c as hblank t width hfront ih =>
    obtain ⟨hc, has⟩ := List.forall_mem_cons.mp has
    rw [List.cons_append, tokensFrom, if_neg hblank, front_stops hc hd, hfront]
    exact ih has (Nat.sub_le_of_le_add (width_le hfront))
  | case5 done c as hblank fault hfront =>
    obtain ⟨hc, -⟩ := List.forall_mem_cons.mp has
    rw [List.cons_append, tokensFrom, if_neg hblank, front_stops hc hd, hfront]
    rfl

/-! ## Texts between quotes -/

/-- The token as it is if the text of a literal is changed. -/
def Token.mapLiteral (f : String → String) : Token → Token
  | .literal s => .literal (f s)
  | t => t

theorem front_literal (hq : IsQuote q) (htext : q ∉ text) (rest : List Char) :
    front q (text ++ q :: rest) = .ok (.literal (String.ofList text), text.length + 2) := by
  have htake : (text ++ q :: rest).takeWhile (· != q) = text := by
    rw [takeWhile_append_cons (p := (· != q)) (bne_self_eq_false q), List.takeWhile_eq_self_iff]
    exact fun c hc => bne_iff_ne.mpr fun h => htext (h ▸ hc)
  have hends : text.length < (text ++ q :: rest).length := by
    rw [List.length_append]
    exact Nat.lt_add_of_pos_right (Nat.succ_pos _)
  rw [front_quote hq, htake, if_pos hends]

theorem tokensFrom_literal (hq : IsQuote q) (htext : q ∉ text) (done : List Token)
    (rest : List Char) :
    tokensFrom 0 done (q :: (text ++ q :: rest)) =
      tokensFrom 0 (.literal (String.ofList text) :: done) rest := by
  have hskip := tokensFrom_append (.literal (String.ofList text) :: done) (text ++ [q]) rest
  rw [List.append_assoc, List.length_append] at hskip
  rw [tokensFrom, isBlank_quote hq, front_literal hq htext]
  exact hskip

/-- A literal that is read has a second quote. -/
theorem mem_of_front_quote (hq : IsQuote q) (h : front q cs = .ok (t, width)) : q ∈ cs := by
  by_contra hmem
  have htake : cs.takeWhile (· != q) = cs :=
    List.takeWhile_eq_self_iff.mpr fun c hc => bne_iff_ne.mpr fun h => hmem (h ▸ hc)
  rw [front_quote hq, htake, if_neg (Nat.lt_irrefl _)] at h
  cases h

/-! ## Texts as stretches and literals -/

/-- A text falls into literals and stretches without quotes, which have the tokens together. -/
inductive Falls : List Char → List Token → Prop where
  | stretch {as : List Char} {ts : List Token} : (∀ c ∈ as, ¬IsQuote c) →
      tokensFrom 0 [] as = .ok ts → Falls as ts
  | literal {as text rest : List Char} {q : Char} {ts more : List Token} :
      (∀ c ∈ as, ¬IsQuote c) → tokensFrom 0 [] as = .ok ts → IsQuote q → q ∉ text →
      Falls rest more →
      Falls (as ++ q :: (text ++ q :: rest)) (ts ++ .literal (String.ofList text) :: more)

theorem Falls.tokensFrom_eq (h : Falls cs ts) : tokensFrom 0 [] cs = .ok ts := by
  induction h with
  | stretch _ h => exact h
  | literal has hts hq htext _ ih =>
    rw [tokensFrom_stops has hq.stops (Nat.zero_le _), hts]
    show tokensFrom 0 (List.reverse _) _ = _
    rw [tokensFrom_literal hq htext, tokensFrom_done, ih]
    simp [Except.map]

theorem falls_of_tokensFrom (cs : List Char) : ∀ {ts : List Token},
    tokensFrom 0 [] cs = .ok ts → Falls cs ts := by
  induction hn : cs.length using Nat.strongRecOn generalizing cs with
  | ind n ih =>
    intro ts h
    cases hfind : cs.find? (decide <| IsQuote ·) with
    | none => exact .stretch (by simpa using hfind) h
    | some q =>
      obtain ⟨hq, as, behind, rfl, has⟩ := List.find?_eq_some_iff_append.mp hfind
      replace hq : IsQuote q := of_decide_eq_true hq
      replace has : ∀ c ∈ as, ¬IsQuote c := by simpa using has
      rw [tokensFrom_stops has hq.stops (Nat.zero_le _)] at h
      obtain ⟨first, hfirst, h⟩ := bind_eq_ok h
      have hclosed : q ∈ behind := by
        rw [tokensFrom, isBlank_quote hq] at h
        split at h
        · contradiction
        · split at h
          · exact mem_of_front_quote hq ‹_›
          · cases h
      obtain ⟨text, rest, rfl, htext⟩ := List.eq_append_cons_of_mem hclosed
      rw [tokensFrom_literal hq htext, tokensFrom_done] at h
      cases hrest : tokensFrom 0 [] rest with
      | error fault =>
        rw [hrest] at h
        cases h
      | ok more =>
        rw [hrest] at h
        have hmore := ih rest.length (by simp [← hn]; omega) rest rfl hrest
        have hts : ts = first ++ .literal (String.ofList text) :: more := by
          have := Except.ok.inj h
          simpa using this.symm
        rw [hts]
        exact .literal has hfirst hq htext hmore

/-- A text is read if and only if it falls into literals and stretches that are read. -/
theorem tokensFrom_eq_ok_iff : tokensFrom 0 [] cs = .ok ts ↔ Falls cs ts :=
  ⟨falls_of_tokensFrom cs, Falls.tokensFrom_eq⟩

/-! ## Texts without a character -/

/-- No token starts with the character or goes on with it, unless it is a literal. -/
structure Foreign (d : Char) : Prop extends Stops d where
  blank : Text.isBlank d = false
  sign : d ∉ signs

/-- A text without a character. -/
def without (d : Char) (s : String) : String := String.ofList (s.toList.filter (· != d))

theorem without_eq_self (h : d ∉ s.toList) : without d s = s := by
  have hall : s.toList.filter (· != d) = s.toList :=
    List.filter_eq_self.mpr fun c hc => bne_iff_ne.mpr fun hcd => h (hcd ▸ hc)
  rw [without, hall, String.ofList_toList]

theorem Foreign.not_isQuote (hd : Foreign d) : ¬IsQuote d := by
  rintro (rfl | rfl) <;> exact hd.sign (by decide)

theorem Foreign.front_eq (hd : Foreign d) (cs : List Char) :
    front d cs = .error (.unexpectedChar d) := by
  rw [front_of_not_mem_signs hd.sign, if_neg (by simp [hd.numberPart]),
    if_neg (by simp [hd.nameStart])]

/-- A stretch that is read has no such character. -/
theorem Foreign.notMem (hd : Foreign d) (has : ∀ c ∈ as, ¬IsQuote c)
    (h : tokensFrom 0 [] as = .ok ts) : d ∉ as := by
  intro hmem
  obtain ⟨before, behind, rfl, -⟩ := List.eq_append_cons_of_mem hmem
  have hbefore : ∀ c ∈ before, ¬IsQuote c := fun c hc => has c (List.mem_append_left _ hc)
  rw [tokensFrom_stops hbefore hd.toStops (Nat.zero_le _)] at h
  obtain ⟨first, -, h⟩ := bind_eq_ok h
  rw [tokensFrom, hd.blank, hd.front_eq] at h
  cases h

/-- Only quotes make literals. -/
theorem mapLiteral_of_front (hc : ¬IsQuote c) (h : front c cs = .ok (t, width)) :
    t.mapLiteral f = t := by
  revert h
  have hquote : ¬(c = '\'' ∨ c = '"') := hc
  fun_cases front c cs <;> intro h
  all_goals first | contradiction | cases h | (split at h <;> cases h)
  all_goals rfl

/-- There are no literals in a stretch. -/
theorem map_mapLiteral_of_stretch (has : ∀ c ∈ as, ¬IsQuote c)
    (h : tokensFrom skip done as = .ok ts) (hdone : done.map (Token.mapLiteral f) = done) :
    ts.map (Token.mapLiteral f) = ts := by
  fun_induction tokensFrom skip done as with
  | case1 skip done =>
    cases h
    rw [List.map_reverse, hdone]
  | case2 skip done c as ih => exact ih (List.forall_mem_cons.mp has).2 h hdone
  | case3 done c as _ ih => exact ih (List.forall_mem_cons.mp has).2 h hdone
  | case4 done c as _ t width hfront ih =>
    obtain ⟨hc, has⟩ := List.forall_mem_cons.mp has
    exact ih has h (by rw [List.map_cons, mapLiteral_of_front hc hfront, hdone])
  | case5 => cases h

theorem Falls.without (hd : Foreign d) (h : Falls cs ts) :
    Falls (cs.filter (· != d)) (ts.map (Token.mapLiteral (without d))) := by
  have stretch {as : List Char} {ts : List Token} (has : ∀ c ∈ as, ¬IsQuote c)
      (hts : tokensFrom 0 [] as = .ok ts) :
      as.filter (· != d) = as ∧ ts.map (Token.mapLiteral (XPath.without d)) = ts :=
    ⟨List.filter_eq_self.mpr fun c hc => bne_iff_ne.mpr fun hcd => hd.notMem has hts (hcd ▸ hc),
      map_mapLiteral_of_stretch has hts rfl⟩
  induction h with
  | stretch has hts =>
    obtain ⟨hsame, hsame'⟩ := stretch has hts
    rw [hsame, hsame']
    exact .stretch has hts
  | @literal as text rest q ts more has hts hq htext _ ih =>
    obtain ⟨hsame, hsame'⟩ := stretch has hts
    have hquote (cs : List Char) : (q :: cs).filter (· != d) = q :: cs.filter (· != d) :=
      List.filter_cons_of_pos (bne_iff_ne.mpr fun h => hd.not_isQuote (h ▸ hq))
    have hliteral : (Token.literal (String.ofList text)).mapLiteral (XPath.without d) =
        .literal (String.ofList (text.filter (· != d))) := by
      rw [Token.mapLiteral, XPath.without, String.toList_ofList]
    rw [List.filter_append, hsame, hquote, List.filter_append, hquote, List.map_append, hsame',
      List.map_cons, hliteral]
    exact .literal has hts hq (fun h => htext (List.mem_filter.mp h).1) ih

/-- Without the character, a text has the same tokens but for the literals, which are without it
as well. -/
theorem tokens_without (hd : Foreign d) (h : tokens s = .ok ts) :
    tokens (without d s) = .ok (ts.map (Token.mapLiteral (without d))) := by
  rw [tokens, without, String.toList_ofList]
  exact ((falls_of_tokensFrom _ h).without hd).tokensFrom_eq

/-! ## Expressions with other literals -/

mutual

/-- The expression with the texts of its literals changed. -/
def Expr.mapLiterals (f : String → String) : Expr → Expr
  | .or l r => .or (l.mapLiterals f) (r.mapLiterals f)
  | .and l r => .and (l.mapLiterals f) (r.mapLiterals f)
  | .compare op l r => .compare op (l.mapLiterals f) (r.mapLiterals f)
  | .add l r => .add (l.mapLiterals f) (r.mapLiterals f)
  | .subtract l r => .subtract (l.mapLiterals f) (r.mapLiterals f)
  | .negate e => .negate (e.mapLiterals f)
  | .union l r => .union (l.mapLiterals f) (r.mapLiterals f)
  | .path absolute steps => .path absolute (mapLiteralsOfSteps f steps)
  | .filter e predicates steps =>
    .filter (e.mapLiterals f) (mapLiteralsOfAll f predicates) (mapLiteralsOfSteps f steps)
  | .literal s => .literal (f s)
  | .number x => .number x
  | .call function args => .call function (mapLiteralsOfAll f args)

/-- The step with the texts of the literals in its predicates changed. -/
def Step.mapLiterals (f : String → String) : Step → Step
  | .along axis test predicates => .along axis test (mapLiteralsOfAll f predicates)

@[inherit_doc Expr.mapLiterals]
def mapLiteralsOfAll (f : String → String) : List Expr → List Expr
  | [] => []
  | e :: es => e.mapLiterals f :: mapLiteralsOfAll f es

@[inherit_doc Step.mapLiterals]
def mapLiteralsOfSteps (f : String → String) : List Step → List Step
  | [] => []
  | s :: ss => s.mapLiterals f :: mapLiteralsOfSteps f ss

end

theorem mapLiteralsOfAll_eq_map (f : String → String) (es : List Expr) :
    mapLiteralsOfAll f es = es.map (Expr.mapLiterals f) := by
  induction es with
  | nil => rfl
  | cons e es ih => rw [mapLiteralsOfAll, ih, List.map_cons]

theorem mapLiteralsOfSteps_eq_map (f : String → String) (ss : List Step) :
    mapLiteralsOfSteps f ss = ss.map (Step.mapLiterals f) := by
  induction ss with
  | nil => rfl
  | cons s ss ih => rw [mapLiteralsOfSteps, ih, List.map_cons]

namespace Grammar

/-! ## Derivations with other literals -/

mutual

/-- The phrase with the texts of its literals changed. -/
def Phrase.mapLiterals (f : String → String) : {l : Level} → Phrase l → Phrase l
  | _, .operands first more => .operands (first.mapLiterals f) (more.mapLiterals f)
  | _, .unsigned p => .unsigned (p.mapLiterals f)
  | _, .negated p => .negated (p.mapLiterals f)
  | _, .root => .root
  | _, .absolute lead first more => .absolute lead (first.mapLiterals f) (more.mapLiterals f)
  | _, .relative first more => .relative (first.mapLiterals f) (more.mapLiterals f)
  | _, .primary p ps more =>
    .primary (p.mapLiterals f) (ps.mapLiterals f) (more.mapLiterals f)

@[inherit_doc Phrase.mapLiterals]
def Operands.mapLiterals (f : String → String) : {b : Binary} → Operands b → Operands b
  | _, .nil => .nil
  | _, .cons o operand more => .cons o (operand.mapLiterals f) (more.mapLiterals f)

@[inherit_doc Phrase.mapLiterals]
def Stride.mapLiterals (f : String → String) : Stride → Stride
  | .self => .self
  | .parent => .parent
  | .along way test ps => .along way test (ps.mapLiterals f)

@[inherit_doc Phrase.mapLiterals]
def Strides.mapLiterals (f : String → String) : Strides → Strides
  | .nil => .nil
  | .cons lead s more => .cons lead (s.mapLiterals f) (more.mapLiterals f)

@[inherit_doc Phrase.mapLiterals]
def Predicates.mapLiterals (f : String → String) : Predicates → Predicates
  | .nil => .nil
  | .cons e more => .cons (e.mapLiterals f) (more.mapLiterals f)

@[inherit_doc Phrase.mapLiterals]
def Primary.mapLiterals (f : String → String) : Primary → Primary
  | .literal s => .literal (f s)
  | .number x => .number x
  | .group e => .group (e.mapLiterals f)
  | .call name args => .call name (args.mapLiterals f)

@[inherit_doc Phrase.mapLiterals]
def Arguments.mapLiterals (f : String → String) : Arguments → Arguments
  | .empty => .empty
  | .listed first more => .listed (first.mapLiterals f) (more.mapLiterals f)

@[inherit_doc Phrase.mapLiterals]
def MoreArguments.mapLiterals (f : String → String) : MoreArguments → MoreArguments
  | .nil => .nil
  | .cons e more => .cons (e.mapLiterals f) (more.mapLiterals f)

end

variable {b : Binary}

@[simp] theorem Operator.mapLiteral (o : Operator b) : o.1.mapLiteral f = o.1 := by
  obtain ⟨t, ht⟩ := o
  cases t with
  | literal s => cases b <;> cases ht
  | _ => rfl

@[simp] theorem Lead.mapLiteral_token (lead : Lead) : lead.token.mapLiteral f = lead.token := by
  cases lead <;> rfl

@[simp] theorem Way.map_tokens (way : Way) : way.tokens.map (Token.mapLiteral f) = way.tokens := by
  cases way <;> rfl

@[simp] theorem map_testTokens (test : NodeTest) :
    (testTokens test).map (Token.mapLiteral f) = testTokens test := by
  cases test <;> rfl

mutual

/-- The tokens are the same but for the literals. -/
theorem Phrase.tokens_mapLiterals : ∀ {l : Level} (p : Phrase l),
    (p.mapLiterals f).tokens = p.tokens.map (Token.mapLiteral f)
  | _, .operands first more => by
    simp [Phrase.mapLiterals, Phrase.tokens, first.tokens_mapLiterals, more.tokens_mapLiterals]
  | _, .unsigned p => p.tokens_mapLiterals
  | _, .negated p => by
    simp [Phrase.mapLiterals, Phrase.tokens, p.tokens_mapLiterals, Token.mapLiteral]
  | _, .root => rfl
  | _, .absolute lead first more => by
    simp [Phrase.mapLiterals, Phrase.tokens, first.tokens_mapLiterals, more.tokens_mapLiterals]
  | _, .relative first more => by
    simp [Phrase.mapLiterals, Phrase.tokens, first.tokens_mapLiterals, more.tokens_mapLiterals]
  | _, .primary p ps more => by
    simp [Phrase.mapLiterals, Phrase.tokens, p.tokens_mapLiterals, ps.tokens_mapLiterals,
      more.tokens_mapLiterals]
termination_by structural _ p => p

theorem Operands.tokens_mapLiterals : ∀ {b : Binary} (os : Operands b),
    (os.mapLiterals f).tokens = os.tokens.map (Token.mapLiteral f)
  | _, .nil => rfl
  | _, .cons o operand more => by
    simp [Operands.mapLiterals, Operands.tokens, operand.tokens_mapLiterals,
      more.tokens_mapLiterals]
termination_by structural _ os => os

theorem Stride.tokens_mapLiterals : ∀ s : Stride,
    (s.mapLiterals f).tokens = s.tokens.map (Token.mapLiteral f)
  | .self => rfl
  | .parent => rfl
  | .along way test ps => by simp [Stride.mapLiterals, Stride.tokens, ps.tokens_mapLiterals]
termination_by structural s => s

theorem Strides.tokens_mapLiterals : ∀ ss : Strides,
    (ss.mapLiterals f).tokens = ss.tokens.map (Token.mapLiteral f)
  | .nil => rfl
  | .cons lead s more => by
    simp [Strides.mapLiterals, Strides.tokens, s.tokens_mapLiterals, more.tokens_mapLiterals]
termination_by structural ss => ss

theorem Predicates.tokens_mapLiterals : ∀ ps : Predicates,
    (ps.mapLiterals f).tokens = ps.tokens.map (Token.mapLiteral f)
  | .nil => rfl
  | .cons e more => by
    simp [Predicates.mapLiterals, Predicates.tokens, e.tokens_mapLiterals,
      more.tokens_mapLiterals, Token.mapLiteral]
termination_by structural ps => ps

theorem Primary.tokens_mapLiterals : ∀ p : Primary,
    (p.mapLiterals f).tokens = p.tokens.map (Token.mapLiteral f)
  | .literal s => rfl
  | .number x => rfl
  | .group e => by
    simp [Primary.mapLiterals, Primary.tokens, e.tokens_mapLiterals, Token.mapLiteral]
  | .call name args => by
    simp [Primary.mapLiterals, Primary.tokens, args.tokens_mapLiterals, Token.mapLiteral]
termination_by structural p => p

theorem Arguments.tokens_mapLiterals : ∀ as : Arguments,
    (as.mapLiterals f).tokens = as.tokens.map (Token.mapLiteral f)
  | .empty => rfl
  | .listed first more => by
    simp [Arguments.mapLiterals, Arguments.tokens, first.tokens_mapLiterals,
      more.tokens_mapLiterals]
termination_by structural as => as

theorem MoreArguments.tokens_mapLiterals : ∀ as : MoreArguments,
    (as.mapLiterals f).tokens = as.tokens.map (Token.mapLiteral f)
  | .nil => rfl
  | .cons e more => by
    simp [MoreArguments.mapLiterals, MoreArguments.tokens, e.tokens_mapLiterals,
      more.tokens_mapLiterals, Token.mapLiteral]
termination_by structural as => as

end

/-- Operators do not look at their operands. -/
theorem mapLiterals_of_op? {t : Token} {combine : Expr → Expr → Expr}
    (h : b.op? t = some combine) (l r : Expr) :
    (combine l r).mapLiterals f = combine (l.mapLiterals f) (r.mapLiterals f) := by
  cases b <;> cases t <;> simp only [Binary.op?, orOp, andOp, equalityOp, orderOp, sumOp, unionOp,
    Option.ite_none_right_eq_some, Option.some.injEq, reduceCtorEq] at h
  all_goals first | (subst h; rfl) | (obtain ⟨-, rfl⟩ := h; rfl)

theorem Operator.mapLiterals_combine (o : Operator b) (l r : Expr) :
    (o.combine l r).mapLiterals f = o.combine (l.mapLiterals f) (r.mapLiterals f) :=
  mapLiterals_of_op? (Option.some_get o.2).symm l r

theorem mapLiterals_filtered (e : Expr) (ps : List Expr) (ss : List Step) :
    (filtered e ps ss).mapLiterals f =
      filtered (e.mapLiterals f) (ps.map (Expr.mapLiterals f)) (ss.map (Step.mapLiterals f)) := by
  rw [filtered, filtered, List.isEmpty_map, List.isEmpty_map]
  split
  · rfl
  · rw [Expr.mapLiterals, mapLiteralsOfAll_eq_map, mapLiteralsOfSteps_eq_map]

@[simp] theorem Lead.map_steps (lead : Lead) :
    lead.steps.map (Step.mapLiterals f) = lead.steps := by
  cases lead <;> rfl

mutual

/-- The value is the same but for the literals. -/
theorem Phrase.value_mapLiterals : ∀ {l : Level} (p : Phrase l),
    (p.mapLiterals f).value = p.value.mapLiterals f
  | _, .operands first more => by
    simp [Phrase.mapLiterals, Phrase.value, first.value_mapLiterals, more.behind_mapLiterals]
  | _, .unsigned p => p.value_mapLiterals
  | _, .negated p => by
    simp [Phrase.mapLiterals, Phrase.value, p.value_mapLiterals, Expr.mapLiterals]
  | _, .root => rfl
  | _, .absolute lead first more => by
    simp [Phrase.mapLiterals, Phrase.value, first.value_mapLiterals, more.values_mapLiterals,
      Expr.mapLiterals, mapLiteralsOfSteps_eq_map]
  | _, .relative first more => by
    simp [Phrase.mapLiterals, Phrase.value, first.value_mapLiterals, more.values_mapLiterals,
      Expr.mapLiterals, mapLiteralsOfSteps_eq_map]
  | _, .primary p ps more => by
    simp [Phrase.mapLiterals, Phrase.value, p.value_mapLiterals, ps.values_mapLiterals,
      more.values_mapLiterals, mapLiterals_filtered]
termination_by structural _ p => p

theorem Operands.behind_mapLiterals : ∀ {b : Binary} (os : Operands b) (left : Expr),
    (os.mapLiterals f).behind (left.mapLiterals f) = (os.behind left).mapLiterals f
  | _, .nil, _ => rfl
  | _, .cons o operand more, left => by
    rw [Operands.mapLiterals, Operands.behind, operand.value_mapLiterals,
      ← o.mapLiterals_combine, more.behind_mapLiterals, Operands.behind]
termination_by structural _ os => os

theorem Stride.value_mapLiterals : ∀ s : Stride,
    (s.mapLiterals f).value = s.value.mapLiterals f
  | .self => rfl
  | .parent => rfl
  | .along way test ps => by
    simp [Stride.mapLiterals, Stride.value, ps.values_mapLiterals, Step.mapLiterals,
      mapLiteralsOfAll_eq_map]
termination_by structural s => s

theorem Strides.values_mapLiterals : ∀ ss : Strides,
    (ss.mapLiterals f).values = ss.values.map (Step.mapLiterals f)
  | .nil => rfl
  | .cons lead s more => by
    simp [Strides.mapLiterals, Strides.values, s.value_mapLiterals, more.values_mapLiterals]
termination_by structural ss => ss

theorem Predicates.values_mapLiterals : ∀ ps : Predicates,
    (ps.mapLiterals f).values = ps.values.map (Expr.mapLiterals f)
  | .nil => rfl
  | .cons e more => by
    simp [Predicates.mapLiterals, Predicates.values, e.value_mapLiterals, more.values_mapLiterals]
termination_by structural ps => ps

theorem Primary.value_mapLiterals : ∀ p : Primary,
    (p.mapLiterals f).value = p.value.mapLiterals f
  | .literal s => rfl
  | .number x => rfl
  | .group e => e.value_mapLiterals
  | .call name args => by
    simp [Primary.mapLiterals, Primary.value, args.values_mapLiterals, Expr.mapLiterals,
      mapLiteralsOfAll_eq_map]
termination_by structural p => p

theorem Arguments.values_mapLiterals : ∀ as : Arguments,
    (as.mapLiterals f).values = as.values.map (Expr.mapLiterals f)
  | .empty => rfl
  | .listed first more => by
    simp [Arguments.mapLiterals, Arguments.values, first.value_mapLiterals,
      more.values_mapLiterals]
termination_by structural as => as

theorem MoreArguments.values_mapLiterals : ∀ as : MoreArguments,
    (as.mapLiterals f).values = as.values.map (Expr.mapLiterals f)
  | .nil => rfl
  | .cons e more => by
    simp [MoreArguments.mapLiterals, MoreArguments.values, e.value_mapLiterals,
      more.values_mapLiterals]
termination_by structural as => as

end

/-- No step starts with a literal. -/
theorem startsStep_mapLiterals (ts : List Token) :
    ((ts.map (Token.mapLiteral f)).take 1).any startsStep = (ts.take 1).any startsStep := by
  cases ts with
  | nil => rfl
  | cons t ts => cases t <;> rfl

mutual

/-- A phrase is as settled as it is with other literals. -/
theorem Phrase.settled_mapLiterals : ∀ {l : Level} (p : Phrase l) {rest : List Token},
    p.Settled rest → (p.mapLiterals f).Settled (rest.map (Token.mapLiteral f))
  | _, .operands first more, _, hp => by
    refine ⟨?_, more.settled_mapLiterals hp.2⟩
    simpa [more.tokens_mapLiterals] using first.settled_mapLiterals hp.1
  | _, .unsigned p, _, hp => p.settled_mapLiterals hp
  | _, .negated p, _, hp => p.settled_mapLiterals hp
  | _, .root, rest, hp => (startsStep_mapLiterals rest).trans hp
  | _, .absolute lead first more, _, hp => by
    refine ⟨?_, more.settled_mapLiterals hp.2⟩
    simpa [more.tokens_mapLiterals] using first.settled_mapLiterals hp.1
  | _, .relative first more, _, hp => by
    refine ⟨?_, more.settled_mapLiterals hp.2⟩
    simpa [more.tokens_mapLiterals] using first.settled_mapLiterals hp.1
  | _, .primary p ps more, _, hp => by
    refine ⟨?_, ?_, more.settled_mapLiterals hp.2.2⟩
    · simpa [ps.tokens_mapLiterals, more.tokens_mapLiterals] using
        p.settled_mapLiterals hp.1
    · simpa [more.tokens_mapLiterals] using ps.settled_mapLiterals hp.2.1
termination_by structural _ p => p

theorem Operands.settled_mapLiterals : ∀ {b : Binary} (os : Operands b) {rest : List Token},
    os.Settled rest → (os.mapLiterals f).Settled (rest.map (Token.mapLiteral f))
  | _, .nil, _, _ => trivial
  | _, .cons o operand more, _, hos => by
    refine ⟨?_, more.settled_mapLiterals hos.2⟩
    simpa [more.tokens_mapLiterals] using operand.settled_mapLiterals hos.1
termination_by structural _ os => os

theorem Stride.settled_mapLiterals : ∀ (s : Stride) {rest : List Token},
    s.Settled rest → (s.mapLiterals f).Settled (rest.map (Token.mapLiteral f))
  | .self, _, _ => trivial
  | .parent, _, _ => trivial
  | .along _ _ ps, _, hs => ps.settled_mapLiterals hs
termination_by structural s => s

theorem Strides.settled_mapLiterals : ∀ (ss : Strides) {rest : List Token},
    ss.Settled rest → (ss.mapLiterals f).Settled (rest.map (Token.mapLiteral f))
  | .nil, _, _ => trivial
  | .cons lead s more, _, hss => by
    refine ⟨?_, more.settled_mapLiterals hss.2⟩
    simpa [more.tokens_mapLiterals] using s.settled_mapLiterals hss.1
termination_by structural ss => ss

theorem Predicates.settled_mapLiterals : ∀ (ps : Predicates) {rest : List Token},
    ps.Settled rest → (ps.mapLiterals f).Settled (rest.map (Token.mapLiteral f))
  | .nil, _, _ => trivial
  | .cons e more, _, hps => by
    refine ⟨?_, more.settled_mapLiterals hps.2⟩
    simpa [more.tokens_mapLiterals, Token.mapLiteral] using e.settled_mapLiterals hps.1
termination_by structural ps => ps

theorem Primary.settled_mapLiterals : ∀ (p : Primary) {rest : List Token},
    p.Settled rest → (p.mapLiterals f).Settled (rest.map (Token.mapLiteral f))
  | .literal _, _, _ => trivial
  | .number _, _, _ => trivial
  | .group e, _, hp => e.settled_mapLiterals hp
  | .call _ args, _, hp => args.settled_mapLiterals hp
termination_by structural p => p

theorem Arguments.settled_mapLiterals : ∀ (as : Arguments) {rest : List Token},
    as.Settled rest → (as.mapLiterals f).Settled (rest.map (Token.mapLiteral f))
  | .empty, _, _ => trivial
  | .listed first more, _, has => by
    refine ⟨?_, more.settled_mapLiterals has.2⟩
    simpa [more.tokens_mapLiterals] using first.settled_mapLiterals has.1
termination_by structural as => as

theorem MoreArguments.settled_mapLiterals : ∀ (as : MoreArguments) {rest : List Token},
    as.Settled rest → (as.mapLiterals f).Settled (rest.map (Token.mapLiteral f))
  | .nil, _, _ => trivial
  | .cons e more, _, has => by
    refine ⟨?_, more.settled_mapLiterals has.2⟩
    simpa [more.tokens_mapLiterals] using e.settled_mapLiterals has.1
termination_by structural as => as

end

/-- With other literals, tokens are parsed as the same expression with these literals. -/
theorem parse_mapLiterals {e : Expr} (h : parse ts = .ok e) :
    parse (ts.map (Token.mapLiteral f)) = .ok (e.mapLiterals f) := by
  obtain ⟨x, rfl, rfl, hsettled⟩ := parse_eq_ok h
  have hparse := Derivation.parse
    ⟨x.mapLiterals f, x.tokens_mapLiterals, x.settled_mapLiterals hsettled⟩
  rwa [x.value_mapLiterals] at hparse

end Grammar

/-- Without a character that is in no token but literals, a text is read as the same expression
with the literals without it. -/
theorem read_without (hd : Foreign d) {e : Expr} (h : read s = .ok e) :
    read (without d s) = .ok (e.mapLiterals (without d)) := by
  rw [read] at h ⊢
  obtain ⟨ts, hts, h⟩ := bind_eq_ok h
  rw [tokens_without hd hts]
  exact Grammar.parse_mapLiterals h

end PatchScript.XPath
