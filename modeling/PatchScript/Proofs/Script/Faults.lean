import PatchScript.Proofs.Number.Layout
import PatchScript.Proofs.Script.Tiling

/-!
# Where the lexer stops

A source that cannot be read has a first place where no lexeme starts.  What stands before this
place is read as if the source ended there (`exists_front_of_lexFrom`): trivia is gone past in the
same way, and a token that what follows does not go on with is not changed by cutting off what
follows further on.

At the place itself stands a quote that is not closed, or a run of digits and points that is no
number, or a character that nothing starts with.  The character alone tells which of these it is
(`lexeme_eq_error`), since no other lexeme starts with a quote, a digit or a point.
-/

namespace PatchScript

/-! ## Places are different -/

namespace Location

theorem afterAll_take_ne (l : Location) {cs : List Char} {p q : Nat} (h : p < q)
    (hq : q ≤ cs.length) : l.afterAll (cs.take p) ≠ l.afterAll (cs.take q) := by
  have hsplit : cs.take q = cs.take p ++ (cs.drop p).take (q - p) := by
    rw [← List.take_add, Nat.add_sub_cancel' h.le]
  obtain ⟨d, ds, hds⟩ : ∃ d ds, (cs.drop p).take (q - p) = d :: ds := by
    refine List.exists_cons_of_ne_nil fun hnil => ?_
    have hlength := congrArg List.length hnil
    rw [List.length_take, List.length_drop, List.length_nil] at hlength
    omega
  have hbefore : (l.afterAll (cs.take p)).isBefore (l.afterAll (cs.take q)) := by
    rw [hsplit, hds, afterAll_append]
    exact isBefore_afterAll (isBefore_after _ d) ds
  intro heq
  rw [heq, not_isBefore_self] at hbefore
  cases hbefore

/-- A place in a source is the place behind one number of its characters only. -/
theorem afterAll_take_inj (l : Location) {cs : List Char} {p q : Nat} (hp : p ≤ cs.length)
    (hq : q ≤ cs.length) : l.afterAll (cs.take p) = l.afterAll (cs.take q) ↔ p = q := by
  refine ⟨fun h => ?_, fun h => h ▸ rfl⟩
  rcases Nat.lt_trichotomy p q with hlt | heq | hlt
  · exact absurd h (afterAll_take_ne l hlt hq)
  · exact heq
  · exact absurd h.symm (afterAll_take_ne l hlt hp)

end Location

namespace Script

/-! ## What is wrong -/

/-- What is wrong with a character that no lexeme starts with, in front of the rest of a source. -/
def faultAt (c : Char) (rest : List Char) : LexFault :=
  if c = '\'' then .unclosedQuote (String.ofList (rest.take LexError.previewChars))
  else if isNumberPart c then .invalidNumber (String.ofList ((c :: rest).takeWhile isNumberPart))
  else .unexpectedChar c

/-- The character opens a quote that the rest of the source does not close. -/
def OpensQuote (c : Char) (rest : List Char) : Prop := c = '\'' ∧ '\'' ∉ rest

/-- With the character starts a run of digits and points, which goes on as far as it can and has
no digit or more than one point. -/
def StartsNoNumber (c : Char) (rest : List Char) : Prop :=
  isNumberPart c ∧ let run := (c :: rest).takeWhile isNumberPart
    (∀ d ∈ run, Text.isDigit d = false) ∨ 1 < run.count '.'

variable {c : Char} {cs rest : List Char} {fault : LexFault}

/-- A text that nothing closes goes on to the end. -/
theorem string_eq_error (h : string cs = .error fault) :
    '\'' ∉ cs ∧ fault = .unclosedQuote (String.ofList (cs.take LexError.previewChars)) := by
  unfold string at h
  dsimp only at h
  split at h
  · cases h
  · rename_i hnot
    have hprefix := List.takeWhile_prefix (l := cs) (· != '\'')
    have hall : cs.takeWhile (· != '\'') = cs :=
      hprefix.eq_of_length (Nat.le_antisymm hprefix.length_le (Nat.not_lt.mp hnot))
    cases h
    refine ⟨fun hmem => ?_, by rw [hall]⟩
    rw [← hall] at hmem
    simpa using List.mem_takeWhile_imp hmem

/-- Where no lexeme starts, the character tells what is wrong, and it is. -/
theorem lexeme_eq_error (h : lexeme c rest = .error fault) :
    fault = faultAt c rest ∧ (c = '\'' → OpensQuote c rest) ∧
      (isNumberPart c → StartsNoNumber c rest) := by
  rw [lexeme] at h
  split at h
  · cases h
  · split at h
    · cases h
    · split at h
      · rename_i hquote
        obtain ⟨hopen, rfl⟩ := string_eq_error h
        refine ⟨?_, fun _ => ⟨hquote, hopen⟩, fun hnumber => ?_⟩
        · rw [faultAt, if_pos hquote]
        · subst hquote
          cases hnumber
      · rename_i hquote
        split at h
        · rename_i hnumber
          have hrun : ∀ d ∈ (c :: rest).takeWhile isNumberPart, IsPlainDigit d := fun d hd =>
            isPlainDigit_of_isNumberPart (List.mem_takeWhile_imp hd)
          unfold number at h
          split at h
          · cases h
          · rename_i hnone
            cases h
            refine ⟨?_, fun hc => absurd hc hquote, fun _ => ⟨hnumber, ?_⟩⟩
            · rw [faultAt, if_neg hquote, if_pos hnumber]
            · exact (Decimal.number?_eq_none_iff hrun).mp hnone
        · rename_i hnumber
          split at h
          · cases h
          · split at h
            · cases h
            · cases h
              refine ⟨?_, fun hc => absurd hc hquote, fun hc => absurd hc hnumber⟩
              rw [faultAt, if_neg hquote, if_neg hnumber]

/-! ## What stands before -/

/-- What is read before the place where the lexer stops is read as well if the source ends
there. -/
theorem exists_front_of_lexFrom (n : Nat) : ∀ {l : Location} {done : List Token} {cs : List Char}
    {e : LexError}, cs.length ≤ n → lexFrom 0 l done cs = .error e →
    ∃ (front : List Char) (c : Char) (rest : List Char) (read : List Token),
      cs = front ++ c :: rest ∧ lexFrom 0 l done front = .ok read.reverse ∧
      lexeme c rest = .error e.fault ∧
      e.context = (read.take LexError.contextTokens).reverse.map Token.text ∧
      e.span = e.fault.span (l.afterAll front) (c :: rest) := by
  induction n with
  | zero =>
    intro l done cs e hn h
    have hcs : cs = [] := List.length_eq_zero_iff.mp (Nat.le_zero.mp hn)
    subst hcs
    cases h
  | succ n ih =>
    intro l done cs e hn h
    rcases every_front cs with hending | ⟨x, rest, rfl⟩ |
      ⟨kind, text, c, word, rest, rfl, hspelled, hstops, hlexeme⟩ |
      ⟨c, rest, fault, rfl, hc, hfault⟩
    · rw [lexFrom_ending hending] at h
      cases h
    · rw [lexFrom_trivia] at h
      have hlt := List.length_pos_iff.mpr x.chars_ne_nil
      rw [List.length_append] at hn
      obtain ⟨front, c, rest, read, rfl, hfront, hfault, hcontext, hspan⟩ := ih (by omega) h
      refine ⟨x.chars ++ front, c, rest, read, by rw [List.append_assoc], ?_, hfault, hcontext, ?_⟩
      · rw [lexFrom_trivia, hfront]
      · rw [hspan, Location.afterAll_append]
    · rw [lexFrom_token hlexeme hspelled.front.1] at h
      obtain ⟨front, c', rest, read, rfl, hfront, hfault, hcontext, hspan⟩ :=
        ih (by simp at hn; omega) h
      have hcut := hspelled.lexeme_eq (hstops.of_prefix (List.prefix_append front (c' :: rest)))
      refine ⟨c :: (word ++ front), c', rest, read, by simp, ?_, hfault, hcontext, ?_⟩
      · rw [lexFrom_token hcut hspelled.front.1, hfront]
      · rw [hspan, ← Location.afterAll_append]
        rfl
    · rw [lexFrom, hc, hfault] at h
      cases h
      exact ⟨[], c, rest, done, rfl, rfl, hfault, rfl, rfl⟩

/-! ## Whole sources -/

/-- The texts of the last tokens that are shown. -/
def lastTexts (ts : List Token) : List String :=
  (ts.drop (ts.length - LexError.contextTokens)).map Token.text

theorem code_faultAt (c : Char) (rest : List Char) :
    (LexError.code (faultAt c rest) = "LEX_UNCLOSED_QUOTE" ↔ c = '\'') ∧
      (LexError.code (faultAt c rest) = "LEX_INVALID_NUMBER" ↔ isNumberPart c) := by
  unfold faultAt
  split
  · rename_i hquote
    subst hquote
    simp [LexError.code, show isNumberPart '\'' = false from rfl]
  · rename_i hquote
    split
    · rename_i hnumber
      simp [LexError.code, hquote, hnumber]
    · rename_i hnumber
      simp [LexError.code, hquote, hnumber]

/-- The code of the error tells what the character starts. -/
theorem code_iff_of_lexeme_eq_error (h : lexeme c rest = .error fault) :
    (LexError.code fault = "LEX_UNCLOSED_QUOTE" ↔ OpensQuote c rest) ∧
      (LexError.code fault = "LEX_INVALID_NUMBER" ↔ StartsNoNumber c rest) ∧
      (LexError.code fault = "LEX_UNEXPECTED_CHAR" ↔
        ¬OpensQuote c rest ∧ ¬StartsNoNumber c rest) := by
  obtain ⟨rfl, hquote, hnumber⟩ := lexeme_eq_error h
  have hquoteCode := (code_faultAt c rest).1.trans ⟨hquote, And.left⟩
  have hnumberCode := (code_faultAt c rest).2.trans ⟨hnumber, And.left⟩
  refine ⟨hquoteCode, hnumberCode, ?_⟩
  rw [← hquoteCode, ← hnumberCode]
  cases faultAt c rest <;> simp [LexError.code]

/-- A source that cannot be read is cut in two by the place of the error.  What stands before is
read, its last two tokens are shown with the offending text, and the character at the place tells
the cause. -/
theorem lex_fails_at_first_fault {source : String} {e : LexError} (h : lex source = .error e) :
    ∃ p c rest ts, source.toList.drop p = c :: rest ∧
      (∀ q ≤ source.toList.length,
        Location.origin.afterAll (source.toList.take q) = e.span.start ↔ q = p) ∧
      lex (String.ofList (source.toList.take p)) = .ok ts ∧
      e.fault = faultAt c rest ∧
      e.report = ⟨LexError.code (faultAt c rest),
        LexError.complaint (faultAt c rest) ++ " in \"" ++ " ".intercalate
          ((lastTexts ts ++ [LexError.offending (faultAt c rest)]).filter (· != "")) ++ "\"",
        some e.span⟩ ∧
      (e.report.code = "LEX_UNCLOSED_QUOTE" ↔ OpensQuote c rest) ∧
      (e.report.code = "LEX_INVALID_NUMBER" ↔ StartsNoNumber c rest) ∧
      (e.report.code = "LEX_UNEXPECTED_CHAR" ↔ ¬OpensQuote c rest ∧ ¬StartsNoNumber c rest) := by
  obtain ⟨front, c, rest, read, hsplit, hfront, hlexeme, hcontext, hspan⟩ :=
    exists_front_of_lexFrom source.toList.length (Nat.le_refl _)
      (show lexFrom 0 .origin [] source.toList = .error e from h)
  have hfault := (lexeme_eq_error hlexeme).1
  have htake : source.toList.take front.length = front := by rw [hsplit, List.take_left]
  have hstart : e.span.start = Location.origin.afterAll (source.toList.take front.length) := by
    rw [htake, hspan]
    cases e.fault <;> rfl
  have hreport : e.report = ⟨LexError.code (faultAt c rest),
      LexError.complaint (faultAt c rest) ++ " in \"" ++ " ".intercalate
        ((lastTexts read.reverse ++ [LexError.offending (faultAt c rest)]).filter (· != ""))
        ++ "\"", some e.span⟩ := by
    rw [LexError.report, LexError.excerpt, hfault, hcontext, List.reverse_take, lastTexts,
      List.length_reverse]
  rw [hfault] at hlexeme
  refine ⟨front.length, c, rest, read.reverse, ?_, fun q hq => ?_, ?_, hfault, hreport, ?_⟩
  · rw [hsplit, List.drop_left]
  · rw [hstart]
    refine Location.afterAll_take_inj .origin hq ?_
    rw [hsplit, List.length_append]
    omega
  · rw [htake, lex, String.toList_ofList, hfront]
  · rw [hreport]
    exact code_iff_of_lexeme_eq_error hlexeme

/-- Two lines with a boolean before a run with two points, and a quote in the middle of a line. -/
theorem lex_fails_at_first_fault_of_points :
    let source := "const 'a'\n  = /* ' */ true1.2.3 'b"
    let e : LexError := ⟨.invalidNumber "1.2.3", ["=", "true"], ⟨⟨2, 17⟩, ⟨2, 22⟩⟩⟩
    lex source = .error e ∧ ∃ p c rest, source.toList.drop p = c :: rest ∧ StartsNoNumber c rest ∧
      ∃ ts, lex (String.ofList (source.toList.take p)) = .ok ts ∧ lastTexts ts = ["=", "true"] := by
  intro source e
  have hlex : lex source = .error e := by decide +kernel
  obtain ⟨p, c, rest, ts, hdrop, hplace, hread, -, -, -, hnumber, -⟩ :=
    lex_fails_at_first_fault hlex
  have hp : p = 26 := ((hplace 26 (by decide +kernel)).mp (by decide +kernel)).symm
  subst hp
  have htexts : (lex (String.ofList (source.toList.take 26))).map lastTexts
      = .ok ["=", "true"] := by decide +kernel
  rw [hread] at htexts
  exact ⟨hlex, 26, c, rest, hdrop, hnumber.mp (by decide +kernel), ts, hread,
    Except.ok.inj htexts⟩

end Script

end PatchScript
