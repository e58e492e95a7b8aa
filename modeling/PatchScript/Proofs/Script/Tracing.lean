import PatchScript.Proofs.Script.Parsing
import PatchScript.Proofs.Script.Reading

/-!
# Readings that can be traced

A reading is traced (`Traced`) against a language, the lists of tokens that derivations of
one kind spell.  If it succeeds, the tokens that it took are in the language.  If it fails,
the tokens in front of the failure begin some list of the language, and either there are
no more, or the failure names the next token and no tokens behind that one would help.

For this to carry from a part to the whole, what was read before a failure must be read in
the same way with other tokens behind.  So a reading that succeeds must not look further
than one token ahead, which is the third thing that is said of it.

The number of levels depends on the number of tokens, and here the tokens behind change.
So all numbers of levels are considered at once, and a parser is given as a sequence.
-/

namespace PatchScript.Script.Grammar

variable {α β : Type} {t : Token} {ts u rest : List Token} {L L' : List Token → Prop}

/-! ## Beginnings -/

/-- Something is spelt by the tokens. -/
abbrev Spelt {δ : Type} (tokens : δ → List Token) (ts : List Token) : Prop :=
  ∃ x, tokens x = ts

/-- Some list of the language begins with the tokens. -/
def Begins (L : List Token → Prop) (ts : List Token) : Prop := ∃ rest, L (ts ++ rest)

namespace Begins

theorem of_mem (h : L ts) : Begins L ts := ⟨[], by rwa [List.append_nil]⟩

/-- What begins lists of one language begins lists of another that continue them. -/
theorem of_continued (h : ∀ u, L u → Begins L' u) (hts : Begins L ts) : Begins L' ts := by
  obtain ⟨rest, hrest⟩ := hts
  obtain ⟨rest', hrest'⟩ := h _ hrest
  exact ⟨rest ++ rest', by rwa [← List.append_assoc]⟩

theorem append (h : Begins (fun v => L (u ++ v)) ts) : Begins L (u ++ ts) := by
  obtain ⟨rest, hrest⟩ := h
  exact ⟨rest, by rwa [List.append_assoc]⟩

end Begins

/-! ### Something that can follow -/

instance {op : Operator} : Inhabited (Sign op) :=
  ⟨⟨⟨.operator, String.ofList [op.char], default⟩, by simp [Token.isOperator, Token.isChar]⟩⟩

instance {k : Keyword} : Inhabited (Reserved k) :=
  ⟨⟨⟨.keyword, k.spelling, default⟩, by simp [Token.isKeyword]⟩⟩

instance {kind : TokenKind} : Inhabited (OfKind kind) := ⟨⟨⟨kind, "", default⟩, rfl⟩⟩

instance : Inhabited Value := ⟨.reference none default .absent⟩

instance : Inhabited Values := ⟨.one default⟩

instance : Inhabited Selector := ⟨.reference default .absent⟩

instance : Inhabited Block := ⟨.braces default .nil default⟩

/-! ## Readings that can be traced -/

/-- What the result of reading `ts` tells of a language.  The parser at `n` levels is
`p n`; the result is one of these. -/
inductive Traced (L : List Token → Prop) (p : Nat → List Token → Reading (α × List Token))
    (ts : List Token) : Reading (α × List Token) → Prop where
  /-- The levels are used up. -/
  | levels : Traced L p ts (.error .levels)
  /-- The first tokens are in the language, and are read like this in front of all
  tokens that begin in the same way. -/
  | read {u rest : List Token} {a : α} (spells : L u) (split : ts = u ++ rest)
    (stays : ∀ n rest', rest'.head? = rest.head? → ∀ r, p n (u ++ rest') = .ok r → r = (a, rest')) :
    Traced L p ts (.ok (a, rest))
  /-- The tokens end too early. -/
  | ended {f : ParseFault} (ends : f.token? = none) (begins : Begins L ts) :
    Traced L p ts (.error f)
  /-- A token is found that cannot follow the ones before it. -/
  | stopped {f : ParseFault} {t : Token} {before after : List Token} (found : f.token? = some t)
    (split : ts = before ++ t :: after) (begins : Begins L before)
    (fails : ∀ n after' r, p n (before ++ t :: after') ≠ .ok r) : Traced L p ts (.error f)

namespace Traced

variable {p p' : Nat → List Token → Reading (α × List Token)} {x : Reading (α × List Token)}

theorem pure (h : L []) (a : α) : Traced L (fun _ ts => .ok (a, ts)) ts (.ok (a, ts)) := by
  refine .read h rfl fun n rest' _ r hr => ?_
  cases hr
  rfl

/-- A failure at the first token. -/
theorem refuse {f : ParseFault} (found : f.token? = some t) (begins : Begins L [])
    (fails : ∀ n ts r, p n (t :: ts) ≠ .ok r) : Traced L p (t :: ts) (.error f) :=
  .stopped found (List.nil_append _).symm begins fails

/-- The parser may look at the first token to choose how to read on. -/
theorem of_head (h : Traced L p ts x)
    (hp : ∀ n ts' r, ts'.head? = ts.head? → p' n ts' = .ok r → ∃ n', p n' ts' = .ok r) :
    Traced L p' ts x := by
  cases h with
  | levels => exact .levels
  | read spells split stays =>
    refine .read spells split fun n rest' hhead r hr => ?_
    have hheads := hp n _ r (by rw [split, List.head?_append, List.head?_append, hhead]) hr
    obtain ⟨n', hr'⟩ := hheads
    exact stays n' rest' hhead r hr'
  | ended ends begins => exact .ended ends begins
  | stopped found split begins fails =>
    refine .stopped found split begins fun n after' r hr => ?_
    obtain ⟨n', hr'⟩ := hp n _ r (by simp [split, List.head?_append]) hr
    exact fails n' after' r hr'

/-- With no levels nothing is read, and otherwise there is one level less. -/
theorem succ (h : Traced L (fun n => p (n + 1)) ts x) (hzero : ∀ ts, p 0 ts = .error .levels) :
    Traced L p ts x := by
  refine of_head h fun n ts' r _ hr => ?_
  cases n with
  | zero =>
    rw [hzero] at hr
    cases hr
  | succ n => exact ⟨n, hr⟩

/-- A token that was read. -/
theorem cons (h : Traced (fun v => L (t :: v)) p ts x)
    (hp : ∀ n ts r, p' n (t :: ts) = .ok r → p n ts = .ok r) : Traced L p' (t :: ts) x := by
  cases h with
  | levels => exact .levels
  | read spells split stays =>
    refine .read spells (by rw [split, List.cons_append]) fun n rest' hhead r hr => ?_
    exact stays n rest' hhead r (hp n _ r hr)
  | ended ends begins => exact .ended ends begins
  | @stopped f u before after found split begins fails =>
    have hbegins : Begins L (t :: before) := begins
    refine .stopped found (by rw [split, List.cons_append]) hbegins fun n after' r hr => ?_
    exact fails n after' r (hp n _ r hr)

/-- The same tokens, as the beginning of something else. -/
theorem mono (h : Traced L p ts x) (hL : ∀ u, L u → L' u) : Traced L' p ts x := by
  have hbegins : ∀ u, L u → Begins L' u := fun u hu => .of_mem (hL u hu)
  cases h with
  | levels => exact .levels
  | read spells split stays => exact .read (hL _ spells) split stays
  | ended ends begins => exact .ended ends (begins.of_continued hbegins)
  | stopped found split begins fails =>
    exact .stopped found split (begins.of_continued hbegins) fails

/-- One thing behind another.  The first has to be one that something can follow. -/
theorem bind {f : α × List Token → Reading (β × List Token)}
    {g : Nat → α × List Token → Reading (β × List Token)} (h : Traced L p ts x)
    (hL : ∀ u, L u → Begins L' u)
    (hf : ∀ u a rest, L u →
      Traced (fun v => L' (u ++ v)) (fun n ts => g n (a, ts)) rest (f (a, rest))) :
    Traced L' (fun n ts => p n ts >>= g n) ts (x >>= f) := by
  cases h with
  | levels => exact .levels
  | @read u rest a spells split stays =>
    have hrest := hf u a rest spells
    rw [ok_bind]
    generalize f (a, rest) = y at hrest
    cases hrest with
    | levels => exact .levels
    | @read v rest₂ b spells₂ split₂ stays₂ =>
      refine .read spells₂ (by rw [split, split₂, List.append_assoc]) fun n rest' hhead r hr => ?_
      rw [List.append_assoc] at hr
      obtain ⟨r₁, hr₁, hr₂⟩ := bind_eq_ok hr
      have hfront : (v ++ rest').head? = rest.head? := by
        rw [split₂, List.head?_append, List.head?_append, hhead]
      have hr₁' := stays n (v ++ rest') hfront r₁ hr₁
      rw [hr₁'] at hr₂
      exact stays₂ n rest' hhead r hr₂
    | ended ends begins => exact .ended ends (split ▸ begins.append)
    | @stopped f t before after found split₂ begins fails =>
      refine .stopped found (by rw [split, split₂, List.append_assoc]) begins.append
        fun n after' r hr => ?_
      rw [List.append_assoc] at hr
      obtain ⟨r₁, hr₁, hr₂⟩ := bind_eq_ok hr
      have hr₁' := stays n (before ++ t :: after') (by simp [split₂, List.head?_append]) r₁ hr₁
      rw [hr₁'] at hr₂
      exact fails n after' r hr₂
  | ended ends begins => exact .ended ends (begins.of_continued hL)
  | stopped found split begins fails =>
    refine .stopped found split (begins.of_continued hL) fun n after' r hr => ?_
    obtain ⟨r₁, hr₁, -⟩ := bind_eq_ok hr
    exact fails n after' r₁ hr₁

end Traced

/-! ## Single tokens -/

namespace Traced

variable {accept : Token → Bool} {expected : Expected} {op : Operator}

/-- A token that has to pass a test, and what is read behind it. -/
theorem expect {f : Token × List Token → Reading (β × List Token)}
    {g : Nat → Token × List Token → Reading (β × List Token)} (hL : Begins L [])
    (hf : ∀ t rest, accept t →
      Traced L (fun n ts => Script.expect accept expected ts >>= g n) (t :: rest) (f (t, rest))) :
    Traced L (fun n ts => Script.expect accept expected ts >>= g n) ts
      (Script.expect accept expected ts >>= f) := by
  cases ts with
  | nil => exact .ended rfl hL
  | cons t rest =>
    cases ht : accept t with
    | true =>
      rw [expect_cons expected ht, ok_bind]
      exact hf t rest ht
    | false =>
      have hrefused (ts : List Token) :
          Script.expect accept expected (t :: ts) = .error (.mismatch t expected) := by
        simp [Script.expect, ht]
      rw [hrefused]
      refine .refuse rfl hL fun n ts r hr => ?_
      rw [hrefused] at hr
      cases hr

/-- An operator, and what is read behind it. -/
theorem skip {f : List Token → Reading (β × List Token)}
    {g : Nat → List Token → Reading (β × List Token)} (hL : Begins L [])
    (hf : ∀ (o : Sign op) rest, Traced (fun v => L (o.1 :: v)) g rest (f rest)) :
    Traced L (fun n ts => skipOperator op ts >>= g n) ts (skipOperator op ts >>= f) := by
  cases ts with
  | nil => exact .ended rfl hL
  | cons t rest =>
    cases ht : t.isOperator op with
    | true =>
      refine cons (p := g) ?_ fun n ts r hr => ?_
      · rw [skipOperator_sign ⟨t, ht⟩, ok_bind]
        exact hf ⟨t, ht⟩ rest
      · rwa [skipOperator_sign ⟨t, ht⟩, ok_bind] at hr
    | false =>
      have hrefused (ts : List Token) :
          skipOperator op (t :: ts) = .error (.mismatch t (.operator op)) := by
        simp [skipOperator, Script.expect, ht, Except.map]
      rw [hrefused]
      refine .refuse rfl hL fun n ts r hr => ?_
      rw [hrefused] at hr
      cases hr

/-- An operator if it stands first, and what is read behind it or without it. -/
theorem optional {f : List Token → Reading (β × List Token)} {x : Reading (β × List Token)}
    {g y : Nat → List Token → Reading (β × List Token)}
    (hsome : ∀ (o : Sign op) rest, Traced (fun v => L (o.1 :: v)) g rest (f rest))
    (hnone : Traced L y ts x) :
    Traced L (fun n ts => match operator? op ts with | none => y n ts | some ts => g n ts) ts
      (match operator? op ts with | none => x | some ts => f ts) := by
  cases ts with
  | nil =>
    refine of_head hnone fun n ts' r hhead hr => ⟨n, ?_⟩
    rwa [List.head?_eq_none_iff.mp hhead] at hr ⊢
  | cons t rest =>
    cases ht : t.isOperator op with
    | true =>
      refine cons (p := g) ?_ fun n ts r hr => ?_
      · rw [operator?_cons, if_pos ht]
        exact hsome ⟨t, ht⟩ rest
      · rwa [operator?_cons, if_pos ht] at hr
    | false =>
      have hother (ts : List Token) : operator? op (t :: ts) = none := by simp [ht]
      rw [hother]
      refine of_head hnone fun n ts' r hhead hr => ⟨n, ?_⟩
      obtain ⟨ts', rfl⟩ := List.head?_eq_some_iff.mp hhead
      rwa [hother] at hr

/-- The same choice, written the other way round. -/
theorem optional' {f : List Token → Reading (β × List Token)} {x : Reading (β × List Token)}
    {g y : Nat → List Token → Reading (β × List Token)}
    (hsome : ∀ (o : Sign op) rest, Traced (fun v => L (o.1 :: v)) g rest (f rest))
    (hnone : Traced L y ts x) :
    Traced L (fun n ts => match operator? op ts with | some ts => g n ts | none => y n ts) ts
      (match operator? op ts with | some ts => f ts | none => x) := by
  have h := optional hsome hnone
  have hx : (match operator? op ts with | none => x | some ts => f ts) =
      match operator? op ts with | some ts => f ts | none => x := by
    cases operator? op ts <;> rfl
  refine of_head (hx ▸ h) fun n ts' r _ hr => ⟨n, ?_⟩
  cases ho : operator? op ts' <;> rwa [ho] at hr

/-- An identifier, and what is read behind it. -/
theorem word {f : String × List Token → Reading (β × List Token)}
    {g : Nat → String × List Token → Reading (β × List Token)} (hL : Begins L [])
    (hf : ∀ (name : Word) rest, Traced (fun v => L (name.1 :: v))
      (fun n ts => g n (name.1.text, ts)) rest (f (name.1.text, rest))) :
    Traced L (fun n ts => identifier ts >>= g n) ts (identifier ts >>= f) := by
  cases ts with
  | nil => exact .ended rfl hL
  | cons t rest =>
    by_cases ht : t.kind = .identifier
    · refine cons (p := fun n ts => g n (t.text, ts)) ?_ fun n ts r hr => ?_
      · rw [identifier_word ⟨t, ht⟩, ok_bind]
        exact hf ⟨t, ht⟩ rest
      · rwa [identifier_word ⟨t, ht⟩, ok_bind] at hr
    · have hrefused (ts : List Token) :
          identifier (t :: ts) = .error (.mismatch t .identifier) := by
        simp [identifier, Script.expect, ht, Bind.bind, Except.bind]
      rw [hrefused]
      refine .refuse rfl hL fun n ts r hr => ?_
      rw [hrefused] at hr
      cases hr

/-- A minus sign or none, and what is read behind it. -/
theorem signed {f : Bool → List Token → Reading (β × List Token)}
    {g : Nat → Bool → List Token → Reading (β × List Token)}
    (hf : ∀ (m : Minus) negative rest,
      Traced (fun v => L (m.tokens ++ v)) (fun n ts => g n negative ts) rest (f negative rest)) :
    Traced L (fun n ts => match minus ts with | (negative, ts) => g n negative ts) ts
      (match minus ts with | (negative, ts) => f negative ts) := by
  cases ts with
  | nil =>
    refine of_head (hf none false []) fun n ts' r hhead hr => ⟨n, ?_⟩
    rwa [List.head?_eq_none_iff.mp hhead] at hr ⊢
  | cons t rest =>
    have hminus (ts : List Token) : minus (t :: ts) =
        if t.isOperator .minus then (true, ts) else (false, t :: ts) := by
      rw [minus, operator?_cons]
      split <;> simp_all
    cases ht : t.isOperator .minus with
    | true =>
      refine cons (p := fun n ts => g n true ts) ?_ fun n ts r hr => ?_
      · rw [hminus, if_pos ht]
        exact hf (some ⟨t, ht⟩) true rest
      · rwa [hminus, if_pos ht] at hr
    | false =>
      rw [hminus, ht]
      refine of_head (hf none false (t :: rest)) fun n ts' r hhead hr => ⟨n, ?_⟩
      obtain ⟨ts', rfl⟩ := List.head?_eq_some_iff.mp hhead
      rwa [hminus, ht] at hr

/-- A number token that was read, which denotes a number or is to blame itself. -/
theorem numeral {p : Nat → List Token → Reading (α × List Token)} {f : Binary64 → α}
    (hL : Begins L []) (hkind : t.kind = .number) (hf : ∀ n : Numeral, L [n.token])
    (hp : ∀ n ts, p n (t :: ts) = (numberOf t >>= fun x => .ok (f x, ts))) :
    Traced L p (t :: rest) (numberOf t >>= fun x => .ok (f x, rest)) := by
  cases hx : numberOf t with
  | error e =>
    have he : e.token? = some t := by
      rw [numberOf] at hx
      split at hx <;> cases hx
      rfl
    refine .refuse he hL fun n ts r hr => ?_
    rw [hp, hx] at hr
    cases hr
  | ok x =>
    obtain ⟨n, rfl, rfl⟩ := numberOf_eq_ok hkind hx
    refine .cons (.pure (hf n) (f n.value)) fun n ts r hr => ?_
    rwa [hp, hx] at hr

end Traced

end PatchScript.Script.Grammar
