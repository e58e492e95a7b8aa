import PatchScript.Proofs.XPath.Positions
import PatchScript.Proofs.XPath.Unambiguity

/-!
# Expressions as arguments

The text of an expression can be put between the parentheses of a function.  The tokenizer
looks one character ahead, but the closing parenthesis makes no difference to it that the
end of the text would not make (`front_stops`), so the tokens of the expression stay the same
(`tokens_enclosed`).  The parser looks at what stands behind an expression in one place
only, behind a slash that is a path by itself, and no step starts with a parenthesis
either.  So a derivation of the expression becomes a part of one of the call
(`Derivation.enclosed`).

A text is asked for as `string(...)` asks for it, which makes the function superfluous
around a whole expression.
-/

namespace PatchScript.XPath

open Xml (Document NodeId)

variable {c d : Char} {cs rest : List Char} {t : Token} {ts done : List Token} {s : String}
  {width skip : Nat}

/-! ## Characters behind a text -/

theorem takeWhile_append_cons {α : Type} {p : α → Bool} {a : α} (ha : p a = false)
    (as bs : List α) : (as ++ a :: bs).takeWhile p = as.takeWhile p := by
  induction as with
  | nil => exact List.takeWhile_cons_of_neg (by rw [ha]; exact Bool.false_ne_true)
  | cons b as ih =>
    rw [List.cons_append, List.takeWhile_cons, List.takeWhile_cons, ih]

theorem head?_append_cons_eq_some {α : Type} {a b : α} (hab : a ≠ b) (as bs : List α) :
    (as ++ a :: bs).head? = some b ↔ as.head? = some b := by
  cases as with
  | nil => simp [hab]
  | cons _ _ => rfl

/-! ## Tokens -/

/-- A text between quotes that ends does not depend on what is behind its end. -/
theorem front_quote (hc : c = '\'' ∨ c = '"') (cs : List Char) :
    front c cs =
      if (cs.takeWhile (· != c)).length < cs.length then
        .ok (.literal (String.ofList (cs.takeWhile (· != c))),
          (cs.takeWhile (· != c)).length + 2)
      else .error .openLiteral := by
  rcases hc with rfl | rfl <;> rfl

/-- No token that starts in front of the character goes on with it, unless it is a text between
quotes. -/
structure Stops (d : Char) : Prop where
  slash : d ≠ '/'
  equal : d ≠ '='
  colon : d ≠ ':'
  namePart : isNamePart d = false
  nameStart : isNameStart d = false
  numberPart : isNumberPart d = false

theorem Stops.dot (hd : Stops d) : d ≠ '.' := by
  rintro rfl
  exact absurd hd.numberPart (by decide)

theorem Stops.digit (hd : Stops d) : Text.isDigit d = false :=
  (Bool.or_eq_false_iff.mp hd.numberPart).1

theorem stops_closeParen : Stops ')' := by
  constructor <;> decide

/-- Which token is at the front is told without the text behind a character that ends it. -/
theorem front_stops (hc : ¬(c = '\'' ∨ c = '"')) (hd : Stops d) (cs rest : List Char) :
    front c (cs ++ d :: rest) = front c cs := by
  have hhead (a : Char) (ha : d ≠ a) : (cs ++ d :: rest).head? = some a ↔ cs.head? = some a :=
    head?_append_cons_eq_some ha cs rest
  have hdigit : (cs ++ d :: rest).head?.any Text.isDigit = cs.head?.any Text.isDigit := by
    cases cs with
    | nil => exact hd.digit
    | cons _ _ => rfl
  have hword : (c :: (cs ++ d :: rest)).takeWhile isNumberPart =
      (c :: cs).takeWhile isNumberPart := takeWhile_append_cons hd.numberPart (c :: cs) rest
  have hname : nameRest (cs ++ d :: rest) = nameRest cs :=
    nameRest_append hd.namePart hd.colon hd.nameStart cs rest
  simp only [front, hhead '/' hd.slash, hhead '=' hd.equal, hhead ':' hd.colon, hhead '.' hd.dot,
    hdigit, if_neg hc, hword, hname]

/-- A token at the front of a text stays there if a parenthesis is put behind the text. -/
theorem front_append (h : front c cs = .ok (t, width)) (rest : List Char) :
    front c (cs ++ ')' :: rest) = .ok (t, width) := by
  by_cases hc : c = '\'' ∨ c = '"'
  · rw [front_quote hc] at h ⊢
    split at h
    · rename_i hends
      have htext : (cs ++ ')' :: rest).takeWhile (· != c) = cs.takeWhile (· != c) := by
        rw [List.takeWhile_append, if_neg (Nat.ne_of_lt hends)]
      rw [htext, List.length_append, if_pos (Nat.lt_add_right _ hends), h]
    · cases h
  · rw [front_stops hc stops_closeParen, h]

/-- A token is not longer than the text that it is at the front of. -/
theorem width_le (h : front c cs = .ok (t, width)) : width ≤ cs.length + 1 := by
  have two {d : Char} (hd : cs.head? = some d) : 2 ≤ cs.length + 1 := by
    cases cs with
    | nil => cases hd
    | cons c' cs => exact Nat.succ_le_succ (Nat.succ_pos _)
  revert h
  fun_cases front c cs <;> intro h
  all_goals first | cases h | (split at h <;> cases h)
  -- One character, or two of which the second is there; a text, a number, or a name.
  all_goals first
    | exact Nat.succ_pos _
    | exact two ‹_›
    | exact two (And.right ‹_›)
    | exact Nat.succ_lt_succ ‹_›
    | exact (List.takeWhile_sublist _).length_le
    | exact Nat.succ_le_succ (length_nameRest_le cs)

/-- Where tokens are read from does not matter to the tokens. -/
theorem tokensFrom_done (skip : Nat) (done : List Token) (cs : List Char) :
    tokensFrom skip done cs = (tokensFrom skip [] cs).map (done.reverse ++ ·) := by
  induction cs generalizing skip done with
  | nil => cases skip <;> simp [tokensFrom, Except.map]
  | cons c cs ih =>
    cases skip with
    | succ skip => exact ih skip done
    | zero =>
      rw [tokensFrom, tokensFrom]
      split
      · exact ih 0 done
      · split
        · rename_i t width _
          rw [ih _ (t :: done), ih _ [t]]
          cases tokensFrom (width - 1) [] cs <;> simp [Except.map]
        · rfl

/-- A parenthesis behind a text is a token of its own. -/
theorem tokensFrom_closeParen (h : tokensFrom skip done cs = .ok ts) (hskip : skip ≤ cs.length) :
    tokensFrom skip done (cs ++ [')']) = .ok (ts ++ [.closeParen]) := by
  fun_induction tokensFrom skip done cs with
  | case1 skip done =>
    cases h
    obtain rfl := Nat.le_zero.mp hskip
    rw [← List.reverse_cons]
    rfl
  | case2 skip done c cs ih => exact ih h (Nat.le_of_succ_le_succ hskip)
  | case3 done c cs hblank ih =>
    rw [List.cons_append, tokensFrom, if_pos hblank]
    exact ih h (Nat.zero_le _)
  | case4 done c cs hblank t width hfront ih =>
    rw [List.cons_append, tokensFrom, if_neg hblank, front_append hfront]
    exact ih h (Nat.sub_le_of_le_add (width_le hfront))
  | case5 => cases h

/-- The text with the name of the function and parentheses around it. -/
def enclosed (s : String) : String := "string(" ++ s ++ ")"

/-- Between the parentheses a text has the tokens that it has alone. -/
theorem tokens_enclosed (h : tokens s = .ok ts) :
    tokens (enclosed s) = .ok (.name "string" :: .openParen :: (ts ++ [.closeParen])) := by
  have htext : (enclosed s).toList =
      's' :: ("tring".toList ++ '(' :: ([] ++ (s.toList ++ [')']))) := by
    simp [enclosed]
  have hname : front 's' ("tring".toList ++ '(' :: ([] ++ (s.toList ++ [')']))) =
      .ok (.name "string", ('s' :: "tring".toList).length) := by
    rw [front_of_isNameStart (by decide), nameRest_append (by decide) (by decide) (by decide)]
    rfl
  rw [tokens, htext, tokensFrom_cons (by decide) hname, tokensFrom_cons (by decide) rfl,
    tokensFrom_done, tokensFrom_closeParen h (Nat.zero_le _)]
  rfl

/-! ## Derivations -/

namespace Grammar

/-- A step could start with the next token of both lists, or of neither. -/
def GoAlike (r r' : List Token) : Prop := (r.take 1).any startsStep = (r'.take 1).any startsStep

theorem GoAlike.append {r r' : List Token} (h : GoAlike r r') (ts : List Token) :
    GoAlike (ts ++ r) (ts ++ r') := by
  cases ts with
  | nil => exact h
  | cons t ts => rfl

theorem goAlike_cons (t : Token) (r r' : List Token) : GoAlike (t :: r) (t :: r') := rfl

/-- A closing parenthesis is like the end. -/
theorem goAlike_closeParen (r : List Token) : GoAlike [] (.closeParen :: r) := rfl

mutual

/-- Whether a phrase is settled depends on what follows only in this. -/
theorem Phrase.settled_of_alike : ∀ {l : Level} (p : Phrase l) {r r' : List Token}, GoAlike r r' →
    p.Settled r → p.Settled r'
  | _, .operands first more, _, _, h, hp =>
    ⟨first.settled_of_alike (h.append _) hp.1, more.settled_of_alike h hp.2⟩
  | _, .unsigned p, _, _, h, hp => Phrase.settled_of_alike p h hp
  | _, .negated p, _, _, h, hp => Phrase.settled_of_alike p h hp
  | _, .root, _, _, h, hp => h.symm.trans hp
  | _, .absolute _ first more, _, _, h, hp =>
    ⟨first.settled_of_alike (h.append _) hp.1, more.settled_of_alike h hp.2⟩
  | _, .relative first more, _, _, h, hp =>
    ⟨first.settled_of_alike (h.append _) hp.1, more.settled_of_alike h hp.2⟩
  | _, .primary p ps more, _, _, h, hp =>
    ⟨p.settled_of_alike ((h.append _).append _) hp.1, ps.settled_of_alike (h.append _) hp.2.1,
      more.settled_of_alike h hp.2.2⟩
termination_by structural _ p => p

theorem Operands.settled_of_alike : ∀ {b : Binary} (os : Operands b) {r r' : List Token},
    GoAlike r r' → os.Settled r → os.Settled r'
  | _, .nil, _, _, _, _ => trivial
  | _, .cons _ operand more, _, _, h, hos =>
    ⟨operand.settled_of_alike (h.append _) hos.1, more.settled_of_alike h hos.2⟩
termination_by structural _ os => os

theorem Stride.settled_of_alike : ∀ (s : Stride) {r r' : List Token}, GoAlike r r' →
    s.Settled r → s.Settled r'
  | .self, _, _, _, _ => trivial
  | .parent, _, _, _, _ => trivial
  | .along _ _ ps, _, _, h, hs => Predicates.settled_of_alike ps h hs
termination_by structural s => s

theorem Strides.settled_of_alike : ∀ (ss : Strides) {r r' : List Token}, GoAlike r r' →
    ss.Settled r → ss.Settled r'
  | .nil, _, _, _, _ => trivial
  | .cons _ s more, _, _, h, hss =>
    ⟨s.settled_of_alike (h.append _) hss.1, more.settled_of_alike h hss.2⟩
termination_by structural ss => ss

theorem Predicates.settled_of_alike : ∀ (ps : Predicates) {r r' : List Token}, GoAlike r r' →
    ps.Settled r → ps.Settled r'
  | .nil, _, _, _, _ => trivial
  | .cons e more, _, _, h, hps =>
    ⟨e.settled_of_alike (goAlike_cons ..) hps.1, more.settled_of_alike h hps.2⟩
termination_by structural ps => ps

theorem Primary.settled_of_alike : ∀ (p : Primary) {r r' : List Token}, GoAlike r r' →
    p.Settled r → p.Settled r'
  | .literal _, _, _, _, _ => trivial
  | .number _, _, _, _, _ => trivial
  | .group e, _, _, _, hp => Phrase.settled_of_alike e (goAlike_cons ..) hp
  | .call _ as, _, _, h, hp => Arguments.settled_of_alike as h hp
termination_by structural p => p

theorem Arguments.settled_of_alike : ∀ (as : Arguments) {r r' : List Token}, GoAlike r r' →
    as.Settled r → as.Settled r'
  | .empty, _, _, _, _ => trivial
  | .listed first more, _, _, h, has =>
    ⟨first.settled_of_alike (h.append _) has.1, more.settled_of_alike h has.2⟩
termination_by structural as => as

theorem MoreArguments.settled_of_alike : ∀ (as : MoreArguments) {r r' : List Token},
    GoAlike r r' → as.Settled r → as.Settled r'
  | .nil, _, _, _, _ => trivial
  | .cons e more, _, _, h, has =>
    ⟨e.settled_of_alike (h.append _) has.1, more.settled_of_alike h has.2⟩
termination_by structural as => as

end

/-- A call of the function with an expression for its only argument. -/
def Whole.call (x : Whole) : Whole :=
  .ofPath (.primary (.call ⟨"string", rfl⟩ (.listed x .nil)) .nil .nil)

theorem Whole.call_tokens (x : Whole) :
    x.call.tokens = .name "string" :: .openParen :: (x.tokens ++ [.closeParen]) := by
  simp [Whole.call, Whole.ofPath, Phrase.tokens, Operands.tokens, Primary.tokens,
    Arguments.tokens, MoreArguments.tokens, Predicates.tokens, Strides.tokens]

theorem Whole.call_settled {x : Whole} (hx : x.Settled []) : x.call.Settled [] :=
  have hargument := x.settled_of_alike (goAlike_closeParen []) hx
  ⟨⟨⟨⟨⟨⟨⟨⟨hargument, trivial⟩, trivial, trivial⟩, trivial⟩, trivial⟩, trivial⟩, trivial⟩,
    trivial⟩, trivial⟩

/-- The tokens of an expression in parentheses behind the name are read as a call with this
expression. -/
theorem parse_enclosed {e : Expr} (h : parse ts = .ok e) :
    parse (.name "string" :: .openParen :: (ts ++ [.closeParen])) = .ok (.call "string" [e]) := by
  obtain ⟨x, rfl, rfl, hsettled⟩ := parse_eq_ok h
  exact Derivation.parse ⟨x.call, x.call_tokens, x.call_settled hsettled⟩

end Grammar

theorem read_enclosed {e : Expr} (h : read s = .ok e) :
    read (enclosed s) = .ok (.call "string" [e]) := by
  rw [read] at h ⊢
  obtain ⟨ts, hts, h⟩ := bind_eq_ok h
  rw [tokens_enclosed hts]
  exact Grammar.parse_enclosed h

/-! ## Results -/

/-- The function makes of a value the text that is asked for anyway. -/
theorem eval_call_string (v : View) (e : Expr) (f : Focus) :
    (Expr.call "string" [e]).eval v f = (e.eval v f).map fun value => .string (value.toText v) := by
  rw [Expr.eval, evalArgs]
  cases e.eval v f <;> rfl

/-- A text that is an expression denotes the same, or fails for the same reason, as it does
between the parentheses of `string(...)`. -/
theorem string_call_is_superfluous (h : ∃ e, read s = .ok e) (d : Document) (context : NodeId) :
    evaluateString d context ("string(" ++ s ++ ")") = evaluateString d context s := by
  obtain ⟨e, he⟩ := h
  show evaluateString d context (enclosed s) = _
  rw [evaluateString, evaluate, read_enclosed he, evaluateString, evaluate, he]
  show ((Expr.call "string" [e]).eval _ _ >>= _) = (e.eval _ _ >>= _)
  rw [eval_call_string]
  cases e.eval (View.of d context) ⟨.node context, 1, 1⟩ <;> rfl

/-- A text that ends with a slash, behind which the parser looks for a step. -/
theorem string_call_is_superfluous_behind_slash :
    (∃ e, read "a | /" = .ok e) ∧
      evaluateString (Document.empty.push 0 (.text "x")) 0 ("string(" ++ "a | /" ++ ")") =
        .ok "x" := by
  have hread : ∃ e, read "a | /" = .ok e := ⟨_, rfl⟩
  refine ⟨hread, (string_call_is_superfluous hread _ 0).trans ?_⟩
  decide +kernel

end PatchScript.XPath
