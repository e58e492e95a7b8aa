import PatchScript.Proofs.Script.Tracing

/-!
# Failures blame the first impossible token

Where the parser fails, it has read tokens that some script begins with.  Either they are
all there are, and more have to follow, or the failure names the next token, and no
script begins with the tokens up to and including this one.

Each function of the parser is traced against the derivations that it reads, in the order
in which they call each other.
-/

namespace PatchScript.Script.Grammar

variable {α : Type} {t : Token} {ts rest : List Token} {L : List Token → Prop}

/-! ## Values -/

/-- Values and the parenthesis that closes them. -/
def Closed (ts : List Token) : Prop :=
  ∃ (values : Values) (c : Sign .closeParen), ts = values.tokens ++ [c.1]

section

variable {a : List Token → Reading (List (Term Unit) × List Token)}
  {as : Nat → List Token → Reading (List (Term Unit) × List Token)}

/-- A name with arguments, behind the name. -/
theorem traced_reference (ha : ∀ ts, Traced Closed as ts (a ts)) (name : String)
    (negative : Bool) (ts : List Token) :
    Traced (Spelt Arguments.tokens)
      (fun n ts => reference (as n) name negative ts) ts (reference a name negative ts) := by
  unfold reference
  refine .optional (fun o rest => ?_) ?_
  · refine .optional' (fun c rest' => ?_) ?_
    · exact .pure ⟨.empty o c, rfl⟩ _
    · refine (ha rest).bind ?_ ?_
      · rintro u ⟨values, c, rfl⟩
        exact .of_mem ⟨.listed o values c, rfl⟩
      · rintro u vs rest' ⟨values, c, rfl⟩
        exact .pure ⟨.listed o values c, by simp [Arguments.tokens]⟩ _
  · exact .pure ⟨.absent, rfl⟩ _

/-- What a value is behind its minus sign, if it has one. -/
def unsigned (a : List Token → Reading (List (Term Unit) × List Token)) (negative : Bool)
    (ts : List Token) : Reading (Term Unit × List Token) := do
  let (t, ts) ← expect isValueToken .value ts
  valueOf a negative t ts

theorem value_succ (n : Nat) (ts : List Token) : value (n + 1) ts =
    match minus ts with | (negative, ts) => unsigned (args n) negative ts := rfl

theorem traced_unsigned (ha : ∀ ts, Traced Closed as ts (a ts)) (m : Minus) (negative : Bool)
    (ts : List Token) :
    Traced (fun v => ∃ x : Value, x.tokens = m.tokens ++ v)
      (fun n => unsigned (as n) negative) ts (unsigned a negative ts) := by
  have hbegins : Begins (fun v => ∃ x : Value, x.tokens = m.tokens ++ v) [] := by
    exact ⟨_, .reference m default .absent, rfl⟩
  refine .expect hbegins fun t rest ht => ?_
  dsimp only
  rw [valueOf]
  split
  · rename_i hkind
    refine .cons ((traced_reference ha t.text negative rest).mono ?_) fun n ts r hr => ?_
    · rintro u ⟨args, rfl⟩
      exact ⟨.reference m ⟨t, hkind⟩ args, rfl⟩
    · rwa [expect_cons _ ht, ok_bind, valueOf, hkind] at hr
  · rename_i hkind
    refine .numeral hbegins hkind (fun n => ⟨.scalar m (.number n), rfl⟩) fun n ts => ?_
    rw [expect_cons _ ht, ok_bind, valueOf, hkind]
    rfl
  · rename_i hkind
    refine .cons (.pure ⟨.scalar m (.boolean ⟨t, hkind⟩), rfl⟩ _) fun n ts r hr => ?_
    rwa [expect_cons _ ht, ok_bind, valueOf, hkind] at hr
  · rename_i hidentifier hnumber hboolean
    have hkind : t.kind = .string := by
      simp only [isValueToken, Bool.or_eq_true, decide_eq_true_eq] at ht
      rcases ht with ((h | h) | h) | h
      · exact absurd h hnumber
      · exact h
      · exact absurd h hboolean
      · exact absurd h hidentifier
    refine .cons (.pure ⟨.scalar m (.string ⟨t, hkind⟩), rfl⟩ _) fun n ts r hr => ?_
    rwa [expect_cons _ ht, ok_bind, valueOf, hkind] at hr

end

mutual

theorem traced_value : ∀ (n : Nat) (ts : List Token),
    Traced (Spelt Value.tokens) value ts (value n ts)
  | 0, _ => .levels
  | n + 1, ts => by
    refine .succ ?_ fun _ => rfl
    simp only [value_succ]
    exact .signed (f := unsigned (args n)) (g := fun n => unsigned (args n))
      fun m negative rest => traced_unsigned (traced_args n) m negative rest

theorem traced_args : ∀ (n : Nat) (ts : List Token), Traced Closed args ts (args n ts)
  | 0, _ => .levels
  | n + 1, ts => by
    refine .succ ?_ fun _ => rfl
    simp only [args]
    refine (traced_value n ts).bind ?_ ?_
    · rintro u ⟨v, rfl⟩
      exact ⟨_, .one v, (default : Sign .closeParen), rfl⟩
    rintro u x rest ⟨v, rfl⟩
    dsimp only
    refine .optional' (fun c rest' => ?_) ?_
    · exact .pure ⟨.one v, c, rfl⟩ _
    · have hbegins : Begins (fun w => Closed (v.tokens ++ w)) [] :=
        ⟨_, .cons v default default, default, by simp [Values.tokens]; rfl⟩
      refine .skip hbegins fun comma rest' => ?_
      have hclosed (values : Values) (c : Sign .closeParen) :
          Closed (v.tokens ++ comma.1 :: (values.tokens ++ [c.1])) :=
        ⟨.cons v comma values, c, by simp [Values.tokens]⟩
      refine (traced_args n rest').bind ?_ ?_
      · rintro u ⟨values, c, rfl⟩
        exact .of_mem (hclosed values c)
      · rintro u xs rest'' ⟨values, c, rfl⟩
        refine .pure ?_ (x :: xs)
        rw [List.append_nil]
        exact hclosed values c

end

/-- The same with the levels that a list of tokens itself has. -/
theorem Traced.at_levels {p : Nat → List Token → Reading (α × List Token)}
    {q : List Token → Reading (α × List Token)} (h : ∀ n ts, Traced L p ts (p n ts))
    (hq : ∀ ts, q ts = p (levelsFor ts) ts) (ts : List Token) :
    Traced L (fun _ => q) ts (q ts) := by
  rw [hq]
  refine (h _ ts).of_head fun _ ts' r _ hr => ⟨levelsFor ts', ?_⟩
  rwa [hq] at hr

theorem traced_arguments (ts : List Token) :
    Traced Closed (fun _ => arguments) ts (arguments ts) :=
  .at_levels traced_args (fun _ => rfl) ts

theorem traced_readValue (ts : List Token) :
    Traced (Spelt Value.tokens) (fun _ => readValue) ts (readValue ts) :=
  .at_levels traced_value (fun _ => rfl) ts

/-! ## Selectors, positions and parameters -/

theorem traced_selector (ts : List Token) :
    Traced (Spelt Selector.tokens) (fun _ => selector) ts (selector ts) := by
  refine .expect ⟨_, default, rfl⟩ fun t rest ht => ?_
  dsimp only
  split
  · rename_i hkind
    refine .cons ((traced_reference traced_arguments t.text false rest).mono ?_) fun n ts r hr => ?_
    · rintro u ⟨args, rfl⟩
      exact ⟨.reference ⟨t, hkind⟩ args, rfl⟩
    · rwa [expect_cons _ ht, ok_bind, if_pos hkind] at hr
  · rename_i hkind
    have hstring : t.kind = .string := by simpa [hkind] using ht
    refine .cons (.pure ⟨.string ⟨t, hstring⟩, rfl⟩ _) fun n ts r hr => ?_
    rwa [expect_cons _ ht, ok_bind, if_neg hkind] at hr

/-- What a position is behind its minus sign, if it has one. -/
def place (negative : Bool) (ts : List Token) : Reading (Option (Term Unit) × List Token) := do
  let (t, ts) ← expect (fun t => t.kind = .number || t.kind = .identifier) .position ts
  if t.kind = .identifier then
    let (p, ts) ← reference arguments t.text negative ts
    return (some p, ts)
  else
    let n := (← numberOf t).toInteger
    return (some (.literal (.integer (if negative then negateInteger n else n))), ts)

theorem position?_at (at' : Reserved .at) (ts : List Token) : position? (at'.1 :: ts) =
    match minus ts with | (negative, ts) => place negative ts := by
  rw [position?, if_pos at'.2]
  rfl

theorem traced_place (at' : Reserved .at) (m : Minus) (negative : Bool) (ts : List Token) :
    Traced (fun v => ∃ p : Position, p.tokens = at'.1 :: (m.tokens ++ v))
      (fun _ => place negative) ts (place negative ts) := by
  have hbegins : Begins (fun v => ∃ p : Position, p.tokens = at'.1 :: (m.tokens ++ v)) [] :=
    ⟨_, .reference at' m default .absent, rfl⟩
  refine .expect hbegins fun t rest ht => ?_
  dsimp only
  by_cases hkind : t.kind = .identifier
  · rw [if_pos hkind]
    refine .cons (p := fun _ ts => do
      let (p, ts) ← reference arguments t.text negative ts
      return (some p, ts)) ?_ fun n ts r hr => ?_
    · refine (traced_reference traced_arguments t.text negative rest).bind ?_ ?_
      · rintro u ⟨args, rfl⟩
        exact .of_mem ⟨.reference at' m ⟨t, hkind⟩ args, rfl⟩
      · rintro u p rest' ⟨args, rfl⟩
        exact .pure ⟨.reference at' m ⟨t, hkind⟩ args, by rw [List.append_nil]; rfl⟩ (some p)
    · rwa [expect_cons _ ht, ok_bind, if_pos hkind] at hr
  · rw [if_neg hkind]
    have hnumber : t.kind = .number := by simpa [hkind] using ht
    refine .numeral hbegins hnumber (fun n => ⟨.number at' m n, rfl⟩) fun n ts => ?_
    rw [expect_cons _ ht, ok_bind, if_neg hkind]
    rfl

theorem traced_position? (ts : List Token) :
    Traced (Spelt Position.tokens) (fun _ => position?) ts (position? ts) := by
  cases ts with
  | nil =>
    refine .of_head (.pure ⟨.absent, rfl⟩ none) fun n ts' r hhead hr => ⟨n, ?_⟩
    rwa [List.head?_eq_none_iff.mp hhead] at hr ⊢
  | cons t ts =>
    cases ht : t.isKeyword .at with
    | true =>
      refine .cons (p := fun _ ts => match minus ts with | (negative, ts) => place negative ts) ?_
        fun n ts r hr => ?_
      · rw [position?_at ⟨t, ht⟩]
        exact .signed fun m negative rest => traced_place ⟨t, ht⟩ m negative rest
      · rwa [position?_at ⟨t, ht⟩] at hr
    | false =>
      have habsent (ts : List Token) : position? (t :: ts) = .ok (none, t :: ts) := by
        simp [position?, ht]
      rw [habsent]
      refine .of_head (.pure ⟨.absent, rfl⟩ none) fun n ts' r hhead hr => ⟨n, ?_⟩
      obtain ⟨ts', rfl⟩ := List.head?_eq_some_iff.mp hhead
      rwa [habsent] at hr

theorem traced_paramsFrom : ∀ (n : Nat) (ts : List Token),
    Traced (fun u => ∃ (names : Words) (c : Sign .closeParen), u = names.tokens ++ [c.1])
      paramsFrom ts (paramsFrom n ts)
  | 0, _ => .levels
  | n + 1, ts => by
    refine .succ ?_ fun _ => rfl
    simp only [paramsFrom]
    refine .word ⟨_, .one default, default, rfl⟩ fun name rest => ?_
    dsimp only
    refine .optional' (fun c rest' => ?_) ?_
    · exact .pure ⟨.one name, c, rfl⟩ _
    · refine .skip ⟨_, .cons name default (.one default), default, rfl⟩ fun comma rest' => ?_
      refine (traced_paramsFrom n rest').bind ?_ ?_
      · rintro u ⟨names, c, rfl⟩
        exact .of_mem ⟨.cons name comma names, c, rfl⟩
      · rintro u ps rest'' ⟨names, c, rfl⟩
        exact .pure ⟨.cons name comma names, c, by simp [Words.tokens]⟩ (name.1.text :: ps)

theorem traced_params (preset : String) (ts : List Token) :
    Traced (Spelt Params.tokens) (fun _ => params preset) ts
      (params preset ts) := by
  unfold params
  refine .optional (fun o rest => ?_) ?_
  · refine .optional' (fun c rest' => ?_) ?_
    · exact .pure ⟨.empty o c, rfl⟩ _
    · have h := Traced.at_levels traced_paramsFrom (fun _ => rfl) rest
      refine h.mono ?_
      rintro u ⟨names, c, rfl⟩
      exact ⟨.listed o names c, rfl⟩
  · have hbegins : Begins (Spelt Params.tokens) [] :=
      ⟨_, .empty default default, rfl⟩
    cases ts with
    | nil => exact .ended rfl hbegins
    | cons t ts => exact .refuse rfl hbegins nofun

/-! ## Directives -/

/-- A selector that ends a directive. -/
theorem traced_then_selector {f : Term Unit → Term Unit} (hL : ∀ s : Selector, L s.tokens)
    (ts : List Token) :
    Traced L (fun _ ts => selector ts >>= fun (s, ts) => .ok (f s, ts)) ts
      (selector ts >>= fun (s, ts) => .ok (f s, ts)) := by
  refine (traced_selector ts).bind ?_ ?_
  · rintro u ⟨s, rfl⟩
    exact .of_mem (hL s)
  · rintro u s rest ⟨s', rfl⟩
    exact .pure (by rw [List.append_nil]; exact hL s') _

/-- What is removed, behind the keyword that says so. -/
def removal (ts : List Token) : Reading (Term Unit × List Token) :=
  match ts with
  | all' :: rest =>
    if all'.isKeyword .all then selector rest >>= fun (s, ts) => .ok (.removeAll s, ts)
    else selector ts >>= fun (s, ts) => .ok (.removeAttribute s, ts)
  | [] => selector ts >>= fun (s, ts) => .ok (.removeAttribute s, ts)

theorem traced_removal (hremove : ∀ s : Selector, L s.tokens)
    (hremoveAll : ∀ (all' : Reserved .all) (s : Selector), L (all'.1 :: s.tokens))
    (ts : List Token) : Traced L (fun _ => removal) ts (removal ts) := by
  have hattribute := traced_then_selector (f := .removeAttribute) hremove ts
  cases ts with
  | nil =>
    refine .of_head hattribute fun n ts' r hhead hr => ⟨n, ?_⟩
    rwa [List.head?_eq_none_iff.mp hhead] at hr ⊢
  | cons t rest =>
    cases hall : t.isKeyword .all with
    | true =>
      rw [removal, if_pos hall]
      refine .cons (traced_then_selector (f := .removeAll) (hremoveAll ⟨t, hall⟩) rest)
        fun n ts r hr => ?_
      rwa [removal, if_pos hall] at hr
    | false =>
      have hother (ts : List Token) : removal (t :: ts) =
          selector (t :: ts) >>= fun (s, ts) => .ok (.removeAttribute s, ts) := by
        simp [removal, hall]
      rw [hother]
      refine .of_head hattribute fun n ts' r hhead hr => ⟨n, ?_⟩
      obtain ⟨ts', rfl⟩ := List.head?_eq_some_iff.mp hhead
      rwa [hother] at hr

/-- The value that something is given. -/
theorem traced_equals {f : Term Unit → Term Unit}
    (hL : ∀ (eq : Sign .equals) (v : Value), L (eq.1 :: v.tokens)) (ts : List Token) :
    Traced L
      (fun _ ts => skipOperator .equals ts >>= fun ts =>
        readValue ts >>= fun (v, ts) => .ok (f v, ts)) ts
      (skipOperator .equals ts >>= fun ts => readValue ts >>= fun (v, ts) => .ok (f v, ts)) := by
  refine .skip ⟨_, hL default default⟩ fun eq rest => ?_
  refine (traced_readValue rest).bind ?_ ?_
  · rintro u ⟨v, rfl⟩
    exact .of_mem (hL eq v)
  · rintro u v rest' ⟨v', rfl⟩
    exact .pure (by rw [List.append_nil]; exact hL eq v') _

section

variable {body : List Token → Reading (List (Term Unit) × List Token)}
  {bodies : Nat → List Token → Reading (List (Term Unit) × List Token)}
  (hbody : ∀ ts, Traced (Spelt Directives.tokens) bodies ts (body ts))

include hbody

theorem traced_block
    (ts : List Token) :
    Traced (Spelt Block.tokens) (fun n => block (bodies n)) ts
      (block body ts) := by
  refine .skip ⟨_, default, rfl⟩ fun o rest => ?_
  refine (hbody rest).bind ?_ ?_
  · rintro u ⟨ds, rfl⟩
    exact ⟨_, .braces o ds default, rfl⟩
  rintro u ts rest' ⟨ds, rfl⟩
  dsimp only
  have hbegins : Begins (fun v => ∃ b : Block, b.tokens = o.1 :: (ds.tokens ++ v)) [] :=
    ⟨_, .braces o ds default, rfl⟩
  refine .skip hbegins fun c rest'' => ?_
  exact .pure ⟨.braces o ds c, rfl⟩ ts

/-- A block that ends a directive. -/
theorem traced_then_block
    {f : List (Term Unit) → Term Unit} (hL : ∀ b : Block, L b.tokens) (ts : List Token) :
    Traced L
      (fun n ts => block (bodies n) ts >>= fun (b, ts) => .ok (f b, ts)) ts
      (block body ts >>= fun (b, ts) => .ok (f b, ts)) := by
  refine (traced_block hbody ts).bind ?_ ?_
  · rintro u ⟨b, rfl⟩
    exact .of_mem (hL b)
  · rintro u b rest ⟨b, rfl⟩
    exact .pure (by rw [List.append_nil]; exact hL b) _

/-- A selector and a block behind it. -/
theorem traced_selector_block
    {f : Term Unit → List (Term Unit) → Term Unit}
    (hL : ∀ (s : Selector) (b : Block), L (s.tokens ++ b.tokens)) (ts : List Token) :
    Traced L
      (fun n ts => selector ts >>= fun (s, ts) =>
        block (bodies n) ts >>= fun (b, ts) => .ok (f s b, ts)) ts
      (selector ts >>= fun (s, ts) => block body ts >>= fun (b, ts) => .ok (f s b, ts)) := by
  refine (traced_selector ts).bind ?_ ?_
  · rintro u ⟨s, rfl⟩
    exact ⟨_, hL s default⟩
  · rintro u s rest ⟨s', rfl⟩
    exact traced_then_block hbody (hL s') rest

/-- A selector, a position if there is one, and a block behind them. -/
theorem traced_selector_position_block
    {f : Term Unit → Option (Term Unit) → List (Term Unit) → Term Unit}
    (hL : ∀ (s : Selector) (p : Position) (b : Block), L (s.tokens ++ (p.tokens ++ b.tokens)))
    (ts : List Token) :
    Traced L
      (fun n ts => selector ts >>= fun (s, ts) => position? ts >>= fun (p, ts) =>
        block (bodies n) ts >>= fun (b, ts) => .ok (f s p b, ts)) ts
      (selector ts >>= fun (s, ts) => position? ts >>= fun (p, ts) =>
        block body ts >>= fun (b, ts) => .ok (f s p b, ts)) := by
  refine (traced_selector ts).bind ?_ ?_
  · rintro u ⟨s, rfl⟩
    exact ⟨_, hL s .absent default⟩
  rintro u s rest ⟨s', rfl⟩
  refine (traced_position? rest).bind ?_ ?_
  · rintro u ⟨p, rfl⟩
    exact ⟨_, hL s' p default⟩
  · rintro u p rest' ⟨p', rfl⟩
    exact traced_then_block hbody (hL s' p') rest'

/-- A directive behind its keyword. -/
theorem traced_directiveOf
    {k : Keyword} (hkeyword : t.keyword? = some k) (hat : k ≠ .at) (ts : List Token) :
    Traced (fun u => ∃ d : Directive, d.tokens = t :: u) (fun n => directiveOf (bodies n) t) ts
      (directiveOf body t ts) := by
  have hk := isKeyword_of_keyword? hkeyword
  unfold directiveOf
  rw [hkeyword]
  cases k with
  | «include» =>
    refine .word ⟨_, .include ⟨t, hk⟩ default, rfl⟩ fun name rest => ?_
    exact .pure ⟨.include ⟨t, hk⟩ name, rfl⟩ _
  | file => exact traced_selector_block hbody (fun s b => ⟨.file ⟨t, hk⟩ s b, rfl⟩) ts
  | use =>
    refine .word ⟨_, .use ⟨t, hk⟩ default .absent, rfl⟩ fun name rest => ?_
    refine (traced_reference traced_arguments name.1.text false rest).bind ?_ ?_
    · rintro u ⟨args, rfl⟩
      exact .of_mem ⟨.use ⟨t, hk⟩ name args, rfl⟩
    · rintro u v rest' ⟨args, rfl⟩
      have hdirective : ∃ d : Directive, d.tokens = t :: name.1 :: (args.tokens ++ []) :=
        ⟨.use ⟨t, hk⟩ name args, by rw [List.append_nil]; rfl⟩
      cases v <;> exact .pure hdirective _
  | preset =>
    refine .word ⟨_, .preset ⟨t, hk⟩ default (.empty default default) default, rfl⟩
      fun name rest => ?_
    refine (traced_params name.1.text rest).bind ?_ ?_
    · rintro u ⟨ps, rfl⟩
      exact ⟨_, .preset ⟨t, hk⟩ name ps default, rfl⟩
    · rintro u names rest' ⟨ps, rfl⟩
      exact traced_then_block hbody (fun b => ⟨.preset ⟨t, hk⟩ name ps b, rfl⟩) rest'
  | set =>
    refine (traced_selector ts).bind ?_ ?_
    · rintro u ⟨s, rfl⟩
      exact ⟨_, .set ⟨t, hk⟩ s default default, rfl⟩
    · rintro u name rest ⟨s, rfl⟩
      exact traced_equals (fun eq v => ⟨.set ⟨t, hk⟩ s eq v, rfl⟩) rest
  | add =>
    exact traced_selector_position_block hbody
      (f := addTerm)
      (fun s p b => ⟨.add ⟨t, hk⟩ s p b, rfl⟩) ts
  | changeOrAdd =>
    exact traced_selector_position_block hbody
      (f := changeOrAddTerm)
      (fun s p b => ⟨.changeOrAdd ⟨t, hk⟩ s p b, rfl⟩) ts
  | all => exact traced_selector_block hbody (fun s b => ⟨.all ⟨t, hk⟩ s b, rfl⟩) ts
  | change => exact traced_selector_block hbody (fun s b => ⟨.change ⟨t, hk⟩ s b, rfl⟩) ts
  | remove =>
    have hremoval := traced_removal (L := fun u => ∃ d : Directive, d.tokens = t :: u)
      (fun s => ⟨.remove ⟨t, hk⟩ s, rfl⟩) (fun all' s => ⟨.removeAll ⟨t, hk⟩ all' s, rfl⟩) ts
    unfold removal at hremoval
    exact hremoval
  | const =>
    refine .word ⟨_, .const ⟨t, hk⟩ default default default, rfl⟩ fun name rest => ?_
    exact traced_equals (fun eq v => ⟨.const ⟨t, hk⟩ name eq v, rfl⟩) rest
  | «at» => exact absurd rfl hat

/-- A directive, its keyword included. -/
def directive (body : List Token → Reading (List (Term Unit) × List Token)) :
    List Token → Reading (Term Unit × List Token)
  | [] => .error .levels
  | t :: ts => directiveOf body t ts

theorem traced_directive
    (t : Token) (ts : List Token) :
    Traced (Spelt Directive.tokens) (fun n => directive (bodies n)) (t :: ts)
      (directive body (t :: ts)) := by
  have hnone (h : t.keyword? = none ∨ t.keyword? = some .at)
      (b : List Token → Reading (List (Term Unit) × List Token)) (ts : List Token) :
      directive b (t :: ts) = .error (.noDirective t) := by
    rw [directive]
    unfold directiveOf
    rcases h with h | h <;> rw [h]
  have hbegins : Begins (Spelt Directive.tokens) [] :=
    ⟨_, .remove default default, rfl⟩
  have hrefused (h : t.keyword? = none ∨ t.keyword? = some .at) :
      Traced (Spelt Directive.tokens) (fun n => directive (bodies n)) (t :: ts)
        (directive body (t :: ts)) := by
    rw [hnone h]
    refine .refuse rfl hbegins fun n ts r hr => ?_
    rw [hnone h] at hr
    cases hr
  cases hkeyword : t.keyword? with
  | none => exact hrefused (.inl hkeyword)
  | some k =>
    by_cases hat : k = .at
    · exact hrefused (.inr (hat ▸ hkeyword))
    · exact .cons (traced_directiveOf hbody hkeyword hat ts) fun n ts r hr => hr

end

theorem traced_directives : ∀ (n : Nat) (ts : List Token),
    Traced (Spelt Directives.tokens) directives ts (directives n ts)
  | 0, _ => .levels
  | n + 1, [] => by
    refine .of_head (.pure ⟨.nil, rfl⟩ []) fun n ts' r hhead hr => ⟨n, ?_⟩
    rw [List.head?_eq_none_iff.mp hhead] at hr ⊢
    cases n with
    | zero => cases hr
    | succ n => exact hr
  | n + 1, t :: ts => by
    cases hclose : t.isOperator .closeBrace with
    | true =>
      have hends (n : Nat) (ts : List Token) :
          directives (n + 1) (t :: ts) = .ok ([], t :: ts) := by
        rw [directives, if_pos hclose]
      rw [hends]
      refine .of_head (.pure ⟨.nil, rfl⟩ []) fun n ts' r hhead hr => ⟨n, ?_⟩
      obtain ⟨ts', rfl⟩ := List.head?_eq_some_iff.mp hhead
      cases n with
      | zero => cases hr
      | succ n => rwa [hends] at hr
    | false =>
      have hcons (n : Nat) (ts : List Token) : directives (n + 1) (t :: ts) =
          directive (directives n) (t :: ts) >>= fun (d, ts) =>
            directives n ts >>= fun (ds, ts) => .ok (d :: ds, ts) := by
        rw [directives, hclose]
        rfl
      have hfirst := traced_directive (traced_directives n) t ts
      have hboth : Traced (Spelt Directives.tokens)
          (fun n ts => directive (directives n) ts >>= fun (d, ts) =>
            directives n ts >>= fun (ds, ts) => .ok (d :: ds, ts)) (t :: ts)
          (directives (n + 1) (t :: ts)) := by
        rw [hcons]
        refine hfirst.bind ?_ ?_
        · rintro u ⟨d, rfl⟩
          exact .of_mem ⟨.cons d .nil, List.append_nil _⟩
        rintro u v rest ⟨d, rfl⟩
        refine (traced_directives n rest).bind ?_ ?_
        · rintro u ⟨ds, rfl⟩
          exact .of_mem ⟨.cons d ds, rfl⟩
        · rintro u vs rest' ⟨ds, rfl⟩
          exact .pure ⟨.cons d ds, by rw [List.append_nil]; rfl⟩ (v :: vs)
      refine hboth.of_head fun n ts' r hhead hr => ?_
      obtain ⟨ts', rfl⟩ := List.head?_eq_some_iff.mp hhead
      cases n with
      | zero => cases hr
      | succ n => exact ⟨n, by rwa [hcons] at hr⟩

/-! ## Scripts -/

/-- Some derivation of a script spells the tokens. -/
def Grammatical : List Token → Prop := Spelt Directives.tokens

/-- What the parser accepts is grammatical, and the other way round. -/
theorem exists_script_iff : (∃ body, script ts = .ok body) ↔ Grammatical ts := by
  have hparse (body : List (Term Unit)) : parse ts = .ok body ↔ script ts = .ok body := by
    rw [parse]
    cases script ts <;> simp [Except.mapError]
  simp only [← hparse, parse_eq_ok_iff]
  constructor
  · rintro ⟨body, ds, hds, -⟩
    exact ⟨ds, hds⟩
  · rintro ⟨ds, hds⟩
    exact ⟨ds.terms, ds, hds, rfl⟩

/-- Where no script is read, the tokens end too early or one of them is to blame. -/
theorem script_eq_error {f : ParseFault} (h : script ts = .error f) :
    f.token? = none ∧ Begins Grammatical ts ∨
    ∃ before t after, f.token? = some t ∧ ts = before ++ t :: after ∧
      Begins Grammatical before ∧ ¬ Begins Grammatical (before ++ [t]) := by
  have hspoilt {before : List Token} {t : Token}
      (hfails : ∀ after body, script (before ++ t :: after) ≠ .ok body) :
      ¬ Begins Grammatical (before ++ [t]) := by
    rintro ⟨after, hafter⟩
    obtain ⟨body, hbody⟩ := exists_script_iff.mpr hafter
    rw [List.append_assoc] at hbody
    exact hfails after body hbody
  have hread := traced_directives (levelsFor ts) ts
  have hne := script_ne_levels ts
  rw [script] at h hne
  generalize directives (levelsFor ts) ts = x at h hne hread
  cases hread with
  | levels => exact absurd rfl hne
  | @read u rest b spells split stays =>
    cases rest with
    | nil => cases h
    | cons t rest =>
      cases h
      refine .inr ⟨u, t, rest, rfl, split, .of_mem spells, hspoilt fun after body hbody => ?_⟩
      obtain ⟨r, hr, hbody⟩ := bind_eq_ok hbody
      rw [stays _ (t :: after) rfl r hr] at hbody
      cases hbody
  | ended ends begins =>
    cases h
    exact .inl ⟨ends, begins⟩
  | @stopped f t before after found split begins fails =>
    cases h
    refine .inr ⟨before, t, after, found, split, begins, hspoilt fun after' body hbody => ?_⟩
    obtain ⟨r, hr, -⟩ := bind_eq_ok hbody
    exact fails _ after' r hr

/-- Where the parser fails, the tokens end too early, at the end of the last one, and are the
beginning of something grammatical; or the failure is at the first token with which no
grammatical tokens begin. -/
theorem parse_fails_at_first_impossible_token {e : ParseError} (h : parse ts = .error e) :
    (∃ last, ts.getLast? = some last ∧ e.span = .point last.span.stop ∧
      ((∃ expected : Expected, e.report.code = "PARSE_UNEXPECTED_TOKEN" ∧
          e.report.message =
            "Unexpected end of input. Expected " ++ expected.text ++ ". Found None") ∨
        e.report.code = "PARSE_MISSING_PARAMS" ∧ e.fault.token? = none) ∧
      ∃ rest, rest ≠ [] ∧ Grammatical (ts ++ rest)) ∨
    ∃ (i : Nat) (hi : i < ts.length), e.span = ts[i].span ∧ e.fault.token? = some ts[i] ∧
      Begins Grammatical (ts.take i) ∧ ¬ Begins Grammatical (ts.take (i + 1)) := by
  obtain ⟨f, hf, rfl⟩ : ∃ f, script ts = .error f ∧
      e = ⟨f, (f.token?.map Token.span).getD (endSpan ts)⟩ := by
    rw [parse] at h
    cases hscript : script ts with
    | ok body =>
      rw [hscript] at h
      cases h
    | error f =>
      rw [hscript] at h
      cases h
      exact ⟨f, rfl, rfl⟩
  rcases script_eq_error hf with
    ⟨ends, rest, hrest⟩ | ⟨before, t, after, found, rfl, hbefore, hbehind⟩
  · have hrefused : ¬ Grammatical ts := by
      rw [← exists_script_iff, hf]
      rintro ⟨body, hbody⟩
      cases hbody
    obtain ⟨last, hlast⟩ : ∃ last, ts.getLast? = some last := by
      cases hts : ts.getLast? with
      | some last => exact ⟨last, rfl⟩
      | none =>
        rw [List.getLast?_eq_none_iff] at hts
        exact absurd ⟨.nil, hts.symm⟩ hrefused
    refine .inl ⟨last, hlast, by simp [ends, endSpan, hlast], ?_, rest, ?_, hrest⟩
    · cases f with
      | ended expected => exact .inl ⟨expected, rfl, rfl⟩
      | missingParams preset found => exact .inr ⟨rfl, ends⟩
      | levels => exact absurd hf (script_ne_levels ts)
      | _ => cases ends
    · rintro rfl
      rw [List.append_nil] at hrest
      exact hrefused hrest
  · have htake : (before ++ t :: after).take (before.length + 1) = before ++ [t] := by
      simp [List.take_append, List.take_of_length_le]
    refine .inr
      ⟨before.length, by simp, by simp [found], by simp [found], by simpa using hbefore, ?_⟩
    rwa [htake]

/-- A value that is missing at the end, and a sign in the place of an equals sign. -/
theorem parse_fails_at_first_impossible_token_of_set :
    let token (kind : TokenKind) (text : String) (line : Nat) : Token :=
      ⟨kind, text, ⟨⟨line, 1⟩, ⟨line, 2⟩⟩⟩
    let ts := [token .keyword "set" 1, token .string "a" 2, token .operator "=" 3]
    let us := [token .keyword "set" 1, token .string "a" 2, token .operator "-" 3]
    (parse ts = .error ⟨.ended .value, .point ⟨3, 2⟩⟩ ∧ ∃ rest, Grammatical (ts ++ rest)) ∧
    parse us = .error ⟨.mismatch (token .operator "-" 3) (.operator .equals), ⟨⟨3, 1⟩, ⟨3, 2⟩⟩⟩ ∧
      Begins Grammatical (us.take 2) ∧ ¬ Begins Grammatical us := by
  intro token ts us
  have hts : parse ts = .error ⟨.ended .value, .point ⟨3, 2⟩⟩ := by cbv
  have hus : parse us =
      .error ⟨.mismatch (token .operator "-" 3) (.operator .equals), ⟨⟨3, 1⟩, ⟨3, 2⟩⟩⟩ := by cbv
  refine ⟨⟨hts, ?_⟩, hus, ?_⟩
  · rcases parse_fails_at_first_impossible_token hts with
      ⟨_, _, _, _, rest, _, hrest⟩ | ⟨_, _, _, found, _⟩
    · exact ⟨rest, hrest⟩
    · cases found
  · rcases parse_fails_at_first_impossible_token hus with
      ⟨_, hlast, hspan, _⟩ | ⟨i, hi, hspan, _, hbegins⟩
    · cases hlast
      cases hspan
    · have hlast : i < 3 := hi
      obtain rfl | rfl | rfl : i = 0 ∨ i = 1 ∨ i = 2 := by omega
      · cases hspan
      · cases hspan
      · exact hbegins

end PatchScript.Script.Grammar
