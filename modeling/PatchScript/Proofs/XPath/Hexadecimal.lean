import PatchScript.Proofs.XPath.Completeness
import PatchScript.XPath.Eval

/-!
# Hexadecimal texts as expressions

A text of hexadecimal digits is cut into numbers and names, and none of the names is an operator.
So it is an expression only if it is a single token, and then it has a value in every document: a
number is its own value, and a name selects child elements.  All that can go wrong with such a
text is that it cannot be read (`evaluateString_hexadecimal`).
-/

namespace PatchScript.XPath

variable {c : Char} {cs : List Char} {t : Token} {ts : List Token} {s : String} {n : Nat}

/-! ## Digits -/

/-- The hexadecimal digits, in lower case. -/
def hexadecimal : List Char := "0123456789abcdef".toList

/-- A number, or a name of hexadecimal digits. -/
def Token.IsPlain : Token → Prop
  | .number _ => True
  | .name s => ∀ c ∈ s.toList, c ∈ hexadecimal
  | _ => False

/-- The characters that stand for a token or start one that is neither a number nor a name. -/
def signs : List Char := "/[](),@|*+-=!<>:.'\"".toList

theorem not_mem_signs {p : Char → Bool} (hp : (signs.all fun d => !p d) = true) (hc : p c) :
    c ∉ signs := by
  intro hd
  have hnot := List.all_eq_true.mp hp c hd
  rw [hc] at hnot
  cases hnot

/-- A character that is no sign starts a number or a name, if anything. -/
theorem front_of_not_mem_signs (hc : c ∉ signs) (cs : List Char) :
    front c cs =
      if isNumberPart c then
        let word := (c :: cs).takeWhile isNumberPart
        (Decimal.number? word).elim (.error (.invalidNumber (String.ofList word)))
          fun x => .ok (.number x, word.length)
      else if isNameStart c then
        .ok (.name (String.ofList (c :: nameRest cs)), (c :: nameRest cs).length)
      else .error (.unexpectedChar c) := by
  have hsign (d : Char) (hd : d ∈ signs := by decide) : c ≠ d := fun h => hc (h ▸ hd)
  simp only [front, hsign '/', hsign '[', hsign ']', hsign '(', hsign ')', hsign '@', hsign ',',
    hsign '|', hsign '*', hsign '+', hsign '-', hsign '=', hsign '!', hsign '<', hsign '>',
    hsign ':', hsign '.', hsign '\'', hsign '"', if_false, false_and, false_or]
  split
  · cases Decimal.number? ((c :: cs).takeWhile isNumberPart) <;> rfl
  · rfl

theorem mem_of_mem_nameRest {d : Char} (h : d ∈ nameRest cs) : d ∈ cs := by
  induction cs with
  | nil => exact h
  | cons c cs ih =>
    rw [nameRest] at h
    split at h
    · rcases List.mem_cons.mp h with rfl | h
      · exact List.mem_cons_self
      · exact List.mem_cons_of_mem _ (ih h)
    · cases h

theorem Token.IsPlain.of_front {width : Nat} (hc : c ∈ hexadecimal)
    (hcs : ∀ d ∈ cs, d ∈ hexadecimal) (h : front c cs = .ok (t, width)) : t.IsPlain := by
  have hsigns : c ∉ signs :=
    not_mem_signs (p := (· ∈ hexadecimal)) (by decide) (decide_eq_true hc)
  rw [front_of_not_mem_signs hsigns] at h
  split at h
  · dsimp only at h
    cases hx : Decimal.number? ((c :: cs).takeWhile isNumberPart) <;> rw [hx] at h <;> cases h
    exact trivial
  · split at h
    · cases h
      intro d hd
      rw [String.toList_ofList] at hd
      rcases List.mem_cons.mp hd with rfl | hd
      · exact hc
      · exact hcs d (mem_of_mem_nameRest hd)
    · cases h

theorem isPlain_of_mem_tokensFrom : ∀ {skip : Nat} {done : List Token} {cs : List Char},
    (∀ c ∈ cs, c ∈ hexadecimal) → (∀ t ∈ done, t.IsPlain) → tokensFrom skip done cs = .ok ts →
    ∀ t ∈ ts, t.IsPlain
  | skip, done, [], _, hdone, h, t, ht => by
    have hts : done.reverse = ts := by cases skip <;> exact Except.ok.inj h
    rw [← hts] at ht
    exact hdone t (List.mem_reverse.mp ht)
  | skip + 1, done, c :: cs, hcs, hdone, h, t, ht => by
    have hrest : tokensFrom skip done cs = .ok ts := h
    exact isPlain_of_mem_tokensFrom (fun d hd => hcs d (List.mem_cons_of_mem _ hd)) hdone hrest t ht
  | 0, done, c :: cs, hcs, hdone, h, t, ht => by
    have hc := hcs c List.mem_cons_self
    have hrest (d : Char) (hd : d ∈ cs) : d ∈ hexadecimal := hcs d (List.mem_cons_of_mem _ hd)
    rw [tokensFrom] at h
    split at h
    · exact isPlain_of_mem_tokensFrom hrest hdone h t ht
    · split at h
      · rename_i t' width hfront
        refine isPlain_of_mem_tokensFrom hrest (fun u hu => ?_) h t ht
        rcases List.mem_cons.mp hu with rfl | hu
        · exact .of_front hc hrest hfront
        · exact hdone u hu
      · cases h

theorem isPlain_of_mem_tokens (hs : ∀ c ∈ s.toList, c ∈ hexadecimal) (h : tokens s = .ok ts) :
    ∀ t ∈ ts, t.IsPlain :=
  isPlain_of_mem_tokensFrom hs (List.forall_mem_nil _) h

/-! ## Expressions -/

namespace Grammar

/-- An expression that is a path. -/
def Whole.ofPath (p : Phrase .path) : Whole :=
  .operands (.operands (.operands (.operands (.operands (.unsigned (.operands p .nil)) .nil) .nil)
    .nil) .nil) .nil

end Grammar

open Grammar

/-- A number, or the child elements of a name. -/
inductive Expr.IsPlain : Expr → Prop where
  | number (x : Binary64) : Expr.IsPlain (.number x)
  | children (s : String) : Expr.IsPlain (.path false [.along .child (.name s) []])

/-- A number or a name with nothing behind it that could go on with it is an expression. -/
theorem Token.IsPlain.expression (ht : t.IsPlain) (hrest : Below 0 ts) (hn : 1 < n) :
    ∃ e : Expr, e.IsPlain ∧ expression (path n) (t :: ts) = .ok (e, ts) := by
  cases t with
  | number x =>
    have hread := (Whole.ofPath (.primary (.number x) .nil .nil)).reads hn
      ⟨⟨⟨⟨⟨⟨⟨trivial, trivial, trivial⟩, trivial⟩, trivial⟩, trivial⟩, trivial⟩, trivial⟩, trivial⟩
      hrest
    exact ⟨_, .number x, hread⟩
  | name s =>
    have hread := (Whole.ofPath (.relative (.along .children (.name s) .nil) .nil)).reads hn
      ⟨⟨⟨⟨⟨⟨⟨trivial, trivial⟩, trivial⟩, trivial⟩, trivial⟩, trivial⟩, trivial⟩, trivial⟩ hrest
    exact ⟨_, .children s, hread⟩
  | _ => cases ht

theorem Token.IsPlain.below (ht : t.IsPlain) : Below 0 (t :: ts) := by
  refine below_cons.mpr fun k hk => ?_
  cases t with
  | name s =>
    have hor : s ≠ "or" := by
      rintro rfl
      exact absurd (ht 'o' (by decide)) (by decide)
    have hand : s ≠ "and" := by
      rintro rfl
      exact absurd (ht 'n' (by decide)) (by decide)
    rw [rank?, if_neg hor, if_neg hand] at hk
    cases hk
  | number x => cases hk
  | _ => cases ht

/-- Only a single token of these is an expression. -/
theorem Expr.IsPlain.of_parse {e : Expr} (hts : ∀ t ∈ ts, t.IsPlain) (h : parse ts = .ok e) :
    e.IsPlain := by
  cases ts with
  | nil => cases h
  | cons t ts =>
    have hrest : Below 0 ts := by
      cases ts with
      | nil => exact below_nil
      | cons t' ts => exact (hts t' (List.mem_cons_of_mem _ List.mem_cons_self)).below
    obtain ⟨e', he', hread⟩ := (hts t List.mem_cons_self).expression (n := ts.length + 2) hrest
      (by omega)
    rw [parse, List.length_cons, hread] at h
    cases ts with
    | nil =>
      cases h
      exact he'
    | cons t' ts => cases h

theorem Expr.IsPlain.eval {e : Expr} (he : e.IsPlain) (v : View) (f : Focus) :
    ∃ value, e.eval v f = .ok value := by
  cases he with
  | number x => exact ⟨_, rfl⟩
  | children s => exact ⟨_, rfl⟩

theorem Expr.IsPlain.of_read {e : Expr} (hs : ∀ c ∈ s.toList, c ∈ hexadecimal)
    (h : read s = .ok e) : e.IsPlain := by
  rw [read] at h
  cases hts : tokens s with
  | error fault =>
    rw [hts] at h
    cases h
  | ok ts =>
    rw [hts] at h
    exact .of_parse (isPlain_of_mem_tokens hs hts) h

/-- A hexadecimal text has a value in every document, unless it cannot be read. -/
theorem evaluateString_hexadecimal (hs : ∀ c ∈ s.toList, c ∈ hexadecimal) (d : Xml.Document)
    (id : Xml.NodeId) : (∃ text, evaluateString d id s = .ok text) ∨
      ∃ fault, evaluateString d id s = .error (.unreadable s fault) := by
  rw [evaluateString, evaluate]
  cases hread : read s with
  | error fault => exact .inr ⟨fault, rfl⟩
  | ok e =>
    obtain ⟨value, hvalue⟩ := (Expr.IsPlain.of_read hs hread).eval (View.of d id) ⟨.node id, 1, 1⟩
    refine .inl ⟨value.toText (View.of d id), ?_⟩
    show (e.eval (View.of d id) ⟨.node id, 1, 1⟩ >>= _) = _
    rw [hvalue]
    rfl

end PatchScript.XPath
