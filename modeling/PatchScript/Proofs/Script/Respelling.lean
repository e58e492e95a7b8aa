import PatchScript.Proofs.Number.RoundTrip
import PatchScript.Proofs.Script.Tiling

/-!
# Tokens that are written and read again

The text of a token spells the token, if a string is put between quotes.  So tokens can be written
one after the other, with trivia between them, and are read again with the kinds and the texts that
they had.  A number is written by its value, which is read back from what it is written as unless
it is infinite.
-/

namespace PatchScript.Script

/-! ## Writing -/

/-- What is written between two tokens: one piece of trivia or more. -/
structure Separator where
  /-- The first piece. -/
  first : Trivia
  /-- The other ones. -/
  rest : List Trivia

/-- The characters of it. -/
def Separator.chars (s : Separator) : List Char := (s.first :: s.rest).flatMap Trivia.chars

/-- A token as it is written: its text, between quotes if it is a string. -/
def Token.write (t : Token) : List Char :=
  if t.kind = .string then '\'' :: t.text.toList ++ ['\''] else t.text.toList

/-- The kind and the text of a token. -/
def Token.content (t : Token) : TokenKind × String := (t.kind, t.text)

/-- Tokens as they are written, with `between k` behind the `k`-th of them, unless it is the last
one. -/
def writeTokens (between : Nat → Separator) : (k : Nat) → List Token → List Char
  | _, [] => []
  | _, [t] => t.write
  | k, t :: ts => t.write ++ (between k).chars ++ writeTokens between (k + 1) ts

/-! ## What is written spells the token -/

/-- Another spelling of a token is what it is written as. -/
theorem Token.spelled_write {t : Token} {cs : List Char} (h : Spelled t.kind t.text cs)
    (hfinite : t.kind = .number → t.text ≠ "Infinity") : Spelled t.kind t.text t.write := by
  obtain ⟨kind, text, span⟩ := t
  dsimp only at h ⊢
  cases h with
  | @keyword k _ hall hk =>
    have hk := ofWord?_spelling k
    rw [← String.ofList_toList (s := k.spelling)] at hk
    exact .keyword (all_isWordPart_spelling k) hk
  | boolean htext => exact .boolean htext
  | @string body hquote =>
    rw [Token.write, if_pos rfl, String.toList_ofList]
    exact .string hquote
  | @number _ x hall hx =>
    have hunsigned := Decimal.unsigned_of_number?
      (fun c hc => isPlainDigit_of_isNumberPart (hall c hc)) hx
    cases hunsigned with
    | infinite => exact absurd rfl (hfinite rfl)
    | finite =>
      refine .number (fun c hc => ?_) (Decimal.number?_render_of_number? hx rfl)
      exact isNumberPart_of_isPlainDigit (Decimal.isPlainDigit_of_mem_render hc)
  | operator op =>
    rw [Token.write, if_neg nofun, String.toList_ofList]
    exact .operator op
  | identifier hall hnumber hk hb =>
    rw [Token.write, if_neg nofun, String.toList_ofList]
    exact .identifier hall hnumber hk hb

/-! ## Reading what is written -/

theorem Trivia.breaks (x : Trivia) (rest : List Char) : Breaks (x.chars ++ rest) := by
  intro b hb
  cases x with
  | blank c hc =>
    cases hb
    exact isBreak_of_isBlank hc
  | block =>
    cases hb
    exact isBreak_slash
  | line =>
    cases hb
    exact isBreak_slash

theorem Separator.breaks (s : Separator) (rest : List Char) : Breaks (s.chars ++ rest) := by
  rw [chars, List.flatMap_cons, List.append_assoc]
  exact s.first.breaks _

theorem lexFrom_all_trivia (done : List Token) (rest : List Char) :
    ∀ (xs : List Trivia) (l : Location), lexFrom 0 l done (xs.flatMap Trivia.chars ++ rest) =
      lexFrom 0 (l.afterAll (xs.flatMap Trivia.chars)) done rest := by
  intro xs
  induction xs with
  | nil => exact fun _ => rfl
  | cons x xs ih =>
    intro l
    rw [List.flatMap_cons, List.append_assoc, lexFrom_trivia, ih, Location.afterAll_append]

theorem lexFrom_write {t : Token} (h : Spelled t.kind t.text t.write) (rest : List Char)
    (hrest : Breaks rest) (l : Location) (done : List Token) :
    lexFrom 0 l done (t.write ++ rest) =
      lexFrom 0 (l.afterAll t.write) (⟨t.kind, t.text, ⟨l, l.afterAll t.write⟩⟩ :: done) rest := by
  generalize t.write = cs at h ⊢
  cases cs with
  | nil => exact absurd rfl h.ne_nil
  | cons c cs => exact lexFrom_token (h.lexeme_eq (hrest.stops _)) h.front.1

/-- Tokens that are spelled by what they are written as are read again. -/
theorem lexFrom_writeTokens (between : Nat → Separator) :
    ∀ (ts : List Token) (k : Nat) (l : Location) (done : List Token),
      (∀ t ∈ ts, Spelled t.kind t.text t.write) →
      ∃ ts', lexFrom 0 l done (writeTokens between k ts) = .ok (done.reverse ++ ts') ∧
        ts'.map Token.content = ts.map Token.content := by
  intro ts
  induction ts with
  | nil => exact fun k l done _ => ⟨[], by rw [List.append_nil]; rfl, rfl⟩
  | cons t ts ih =>
    intro k l done hts
    obtain ⟨ht, hts⟩ := List.forall_mem_cons.mp hts
    let t' : Token := ⟨t.kind, t.text, ⟨l, l.afterAll t.write⟩⟩
    cases ts with
    | nil =>
      have hread := lexFrom_write ht [] nofun l done
      rw [List.append_nil] at hread
      exact ⟨[t'], hread.trans (by simp [lexFrom, t']), rfl⟩
    | cons next ts =>
      obtain ⟨ts', hrest, hcontent⟩ := ih (k + 1)
        ((l.afterAll t.write).afterAll (between k).chars) (t' :: done) hts
      refine ⟨t' :: ts', ?_, ?_⟩
      · have hwrite : writeTokens between k (t :: next :: ts) =
            t.write ++ ((between k).chars ++ writeTokens between (k + 1) (next :: ts)) :=
          List.append_assoc ..
        have hbetween := lexFrom_all_trivia (t' :: done) (writeTokens between (k + 1) (next :: ts))
          ((between k).first :: (between k).rest) (l.afterAll t.write)
        rw [hwrite, lexFrom_write ht _ ((between k).breaks _)]
        refine (hbetween.trans hrest).trans ?_
        rw [List.reverse_cons, List.append_assoc, List.singleton_append]
      · rw [List.map_cons, List.map_cons, hcontent]
        rfl

/-- Tokens that were read from a source are read again, with the same kinds and texts, when they
are written with any trivia between them, unless one of them is an infinite number. -/
theorem written_tokens_are_read {source : String} {ts : List Token} (h : lex source = .ok ts)
    (hfinite : ∀ t ∈ ts, t.kind = .number → t.text ≠ "Infinity") (between : Nat → Separator) :
    ∃ ts', lex (String.ofList (writeTokens between 0 ts)) = .ok ts' ∧
      ts'.map Token.content = ts.map Token.content := by
  have hspelled : ∀ t ∈ ts, Spelled t.kind t.text t.write := fun t ht =>
    Token.spelled_write ((tiles_of_lex h).spelled t ht).2 (hfinite t ht)
  obtain ⟨ts', hread, hcontent⟩ := lexFrom_writeTokens between ts 0 .origin [] hspelled
  refine ⟨ts', ?_, hcontent⟩
  rw [lex, String.toList_ofList]
  exact hread

/-- A keyword under another spelling, a number with digits that it does not need, and a boolean that
an identifier follows. -/
theorem written_tokens_are_read_of_aliases :
    let source := "CHANGE_OR_ADD'a'at 01.50truex"
    ∃ ts, lex source = .ok ts ∧ ∀ between : Nat → Separator,
      ∃ ts', lex (String.ofList (writeTokens between 0 ts)) = .ok ts' ∧
        ts'.map Token.content = ts.map Token.content := by
  intro source
  let ts : List Token := [⟨.keyword, "change_add", ⟨⟨1, 1⟩, ⟨1, 14⟩⟩⟩,
    ⟨.string, "a", ⟨⟨1, 14⟩, ⟨1, 17⟩⟩⟩, ⟨.keyword, "at", ⟨⟨1, 17⟩, ⟨1, 19⟩⟩⟩,
    ⟨.number, "1.5", ⟨⟨1, 20⟩, ⟨1, 25⟩⟩⟩, ⟨.boolean, "true", ⟨⟨1, 25⟩, ⟨1, 29⟩⟩⟩,
    ⟨.identifier, "x", ⟨⟨1, 29⟩, ⟨1, 30⟩⟩⟩]
  have hlex : lex source = .ok ts := by decide +kernel
  exact ⟨ts, hlex, written_tokens_are_read hlex (by decide +kernel)⟩

end PatchScript.Script
