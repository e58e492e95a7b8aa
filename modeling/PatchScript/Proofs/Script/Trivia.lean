import PatchScript.Proofs.Script.Spelling

/-!
# What stands between tokens

Between tokens stand blanks and comments, which are `Trivia`.  At the end of a source there can
also be a comment that is not closed, or a line that is not ended.  The lexer goes past all of
this (`lexFrom_trivia`, `lexFrom_ending`), and what it goes past is nothing else: at every place of
a source that it reads stands trivia, a token, or the end (`lexFrom_eq_ok`).
-/

namespace PatchScript.Script

/-! ## Trivia -/

/-- What may stand between tokens. -/
inductive Trivia where
  /-- White space. -/
  | blank (c : Char) (h : Text.isBlank c)
  /-- A comment between marks, which holds no closing mark. -/
  | block (body : List Char) (h : ¬['*', '/'] <:+: body)
  /-- A comment to the end of the line. -/
  | line (body : List Char) (h : '\n' ∉ body)

/-- The characters of it. -/
def Trivia.chars : Trivia → List Char
  | .blank c _ => [c]
  | .block body _ => '/' :: '*' :: body ++ ['*', '/']
  | .line body _ => '/' :: '/' :: body ++ ['\n']

/-- What may stand at the end of a source behind the last token and the trivia there. -/
inductive Ending : List Char → Prop where
  /-- Nothing. -/
  | nothing : Ending []
  /-- A comment that is not closed. -/
  | block {body : List Char} : ¬['*', '/'] <:+: body → Ending ('/' :: '*' :: body)
  /-- A comment on a line that is not ended. -/
  | line {body : List Char} : '\n' ∉ body → Ending ('/' :: '/' :: body)

/-! ## Block comments -/

theorem not_closing_tail {c : Char} {cs : List Char} (h : ¬['*', '/'] <:+: c :: cs) :
    ¬['*', '/'] <:+: cs := fun hcs => h (List.infix_cons hcs)

/-- A mark that starts in what precedes a closing mark would end there. -/
theorem not_closing_front {c : Char} {cs rest tail : List Char} (h : ¬['*', '/'] <:+: c :: cs)
    (hc : c = '*') : cs ++ '*' :: rest ≠ '/' :: tail := by
  intro heq
  cases cs with
  | nil =>
    have hne : '*' ≠ '/' := by decide
    exact hne (List.cons.inj heq).1
  | cons d ds =>
    rw [hc, (List.cons.inj heq).1] at h
    exact h ⟨[], ds, rfl⟩

/-- A block comment is read to the first closing mark. -/
theorem blockComment_append {body : List Char} (h : ¬['*', '/'] <:+: body) (rest : List Char) :
    blockComment (body ++ '*' :: '/' :: rest) = body ++ ['*', '/'] := by
  induction body with
  | nil => rfl
  | cons c cs ih =>
    rw [List.cons_append, blockComment, ih (not_closing_tail h)]
    · rfl
    · exact fun _ hc heq => not_closing_front h hc heq

/-- A block comment without a closing mark is read to the end of the source. -/
theorem blockComment_eq_self {body : List Char} (h : ¬['*', '/'] <:+: body) :
    blockComment body = body := by
  induction body with
  | nil => rfl
  | cons c cs ih =>
    rw [blockComment, ih (not_closing_tail h)]
    rintro tail rfl rfl
    exact h ⟨[], tail, rfl⟩

/-- Behind the mark that opens a comment no mark closes it, or one is the first to do so. -/
theorem closing_cases (cs : List Char) : ¬['*', '/'] <:+: cs ∨
    ∃ body rest, ¬['*', '/'] <:+: body ∧ cs = body ++ '*' :: '/' :: rest := by
  induction cs with
  | nil => exact .inl (by simp)
  | cons c cs ih =>
    by_cases hfront : ['*', '/'] <+: c :: cs
    · obtain ⟨rest, hrest⟩ := hfront
      exact .inr ⟨[], rest, by simp, hrest.symm⟩
    · have notFront {ds : List Char} (hds : ds <+: cs) (h : ¬['*', '/'] <:+: ds) :
          ¬['*', '/'] <:+: c :: ds := by
        rw [List.infix_cons_iff]
        rintro (hstart | hwithin)
        · exact hfront (hstart.trans (List.cons_prefix_cons.mpr ⟨rfl, hds⟩))
        · exact h hwithin
      rcases ih with hnone | ⟨body, rest, hbody, rfl⟩
      · exact .inl (notFront (List.prefix_refl cs) hnone)
      · exact .inr ⟨c :: body, rest, notFront (List.prefix_append _ _) hbody, rfl⟩

/-! ## One step of the lexer -/

variable {l : Location} {done : List Token} {c : Char} {cs rest : List Char}

/-- The characters that still belong to the lexeme last read are gone past. -/
theorem lexFrom_skip : ∀ (n : Nat) (l : Location) (done : List Token) (cs : List Char),
    lexFrom n l done cs = lexFrom 0 (l.afterAll (cs.take n)) done (cs.drop n) := by
  intro n
  induction n with
  | zero => exact fun _ _ _ => rfl
  | succ n ih =>
    intro l done cs
    cases cs with
    | nil => rfl
    | cons c cs => exact ih (l.after c) done cs

theorem lexFrom_comment {word : List Char} (h : comment? (c :: (word ++ rest)) = some (c :: word))
    (hc : Text.isBlank c = false) :
    lexFrom 0 l done (c :: (word ++ rest)) = lexFrom 0 (l.afterAll (c :: word)) done rest := by
  have hlexeme : lexeme c (word ++ rest) = .ok ⟨c :: word, none⟩ := by rw [lexeme, h]
  rw [lexFrom, hc, hlexeme]
  show lexFrom word.length (l.after c) done (word ++ rest) = _
  rw [lexFrom_skip, List.take_left, List.drop_left]
  rfl

theorem lexFrom_token {kind : TokenKind} {text : String} {word : List Char}
    (h : lexeme c (word ++ rest) = .ok ⟨c :: word, some (kind, text)⟩)
    (hc : Text.isBlank c = false) :
    lexFrom 0 l done (c :: (word ++ rest)) =
      lexFrom 0 (l.afterAll (c :: word)) (⟨kind, text, ⟨l, l.afterAll (c :: word)⟩⟩ :: done)
        rest := by
  rw [lexFrom, hc, h]
  show lexFrom word.length (l.after c) _ (word ++ rest) = _
  rw [lexFrom_skip, List.take_left, List.drop_left]
  rfl

/-! ## Going past trivia -/

theorem comment?_block {body : List Char} (h : ¬['*', '/'] <:+: body) (rest : List Char) :
    comment? ('/' :: '*' :: (body ++ '*' :: '/' :: rest)) =
      some ('/' :: '*' :: body ++ ['*', '/']) := by
  rw [comment?, blockComment_append h]
  rfl

theorem takeWhile_line {body : List Char} (h : '\n' ∉ body) :
    body.takeWhile (· != '\n') = body := by
  refine List.takeWhile_eq_self_iff.mpr fun c hc => ?_
  rw [bne_iff_ne]
  rintro rfl
  exact h hc

theorem comment?_line {body : List Char} (h : '\n' ∉ body) (rest : List Char) :
    comment? ('/' :: '/' :: (body ++ '\n' :: rest)) = some ('/' :: '/' :: body) := by
  rw [comment?, takeWhile_append_of_stop (by simp), takeWhile_line h]

theorem lexFrom_trivia (x : Trivia) (l : Location) (done : List Token) (rest : List Char) :
    lexFrom 0 l done (x.chars ++ rest) = lexFrom 0 (l.afterAll x.chars) done rest := by
  cases x with
  | blank c hc =>
    show lexFrom 0 l done (c :: rest) = _
    rw [lexFrom, if_pos hc]
    rfl
  | block body h =>
    have hcomment : comment? ('/' :: ('*' :: body ++ ['*', '/'] ++ rest)) =
        some ('/' :: ('*' :: body ++ ['*', '/'])) := by
      rw [List.cons_append, List.cons_append, List.append_assoc]
      exact comment?_block h rest
    exact lexFrom_comment hcomment (by decide)
  | line body h =>
    have hcomment : comment? ('/' :: ('/' :: body ++ '\n' :: rest)) = some ('/' :: ('/' :: body)) :=
      comment?_line h rest
    have hchars : (Trivia.line body h).chars ++ rest = '/' :: ('/' :: body ++ '\n' :: rest) := by
      simp [Trivia.chars]
    rw [hchars, lexFrom_comment hcomment (by decide), lexFrom, if_pos (by decide),
      Trivia.chars, Location.afterAll_append]
    rfl

/-- A comment that goes to the end of the source is the last thing that is read. -/
theorem lexFrom_last {cs : List Char} (h : comment? (c :: cs) = some (c :: cs))
    (hc : Text.isBlank c = false) (l : Location) (done : List Token) :
    lexFrom 0 l done (c :: cs) = .ok done.reverse := by
  have hcomment : comment? (c :: (cs ++ [])) = some (c :: cs) := by rwa [List.append_nil]
  have hlex : lexFrom 0 l done (c :: (cs ++ [])) = .ok done.reverse := lexFrom_comment hcomment hc
  rwa [List.append_nil] at hlex

theorem lexFrom_ending (h : Ending cs) (l : Location) (done : List Token) :
    lexFrom 0 l done cs = .ok done.reverse := by
  cases h with
  | nothing => rfl
  | block h => exact lexFrom_last (by rw [comment?, blockComment_eq_self h]) (by decide) l done
  | line h => exact lexFrom_last (by rw [comment?, takeWhile_line h]) (by decide) l done

/-! ## What stands at the front -/

/-- What the lexer goes past as a comment is trivia or the end of the source. -/
theorem comment?_cases {spelling : List Char} (h : comment? cs = some spelling) :
    Ending cs ∨ ∃ (x : Trivia) (rest : List Char), cs = x.chars ++ rest := by
  unfold comment? at h
  split at h
  · rename_i body
    have hrun : '\n' ∉ body.takeWhile (· != '\n') := fun hmem => by
      simpa using List.mem_takeWhile_imp hmem
    have hsplit : body.takeWhile (· != '\n') ++ body.dropWhile (· != '\n') = body :=
      List.takeWhile_append_dropWhile
    have hhead := List.head?_dropWhile_not (· != '\n') body
    cases hrest : body.dropWhile (· != '\n') with
    | nil =>
      rw [hrest, List.append_nil] at hsplit
      rw [hsplit] at hrun
      exact .inl (.line hrun)
    | cons c rest =>
      rw [hrest] at hhead hsplit
      have hc : c = '\n' := by simpa using hhead
      subst hc
      refine .inr ⟨.line _ hrun, rest, ?_⟩
      rw [Trivia.chars, ← hsplit]
      simp [hsplit]
  · rename_i body
    rcases closing_cases body with hnone | ⟨body, rest, hbody, rfl⟩
    · exact .inl (.block hnone)
    · exact .inr ⟨.block body hbody, rest, by simp [Trivia.chars]⟩
  · cases h

/-- At the front of a source stands its end, or trivia, or a token that what follows does not go on
with, or nothing that can be read. -/
theorem every_front (cs : List Char) :
    Ending cs ∨ (∃ (x : Trivia) (rest : List Char), cs = x.chars ++ rest) ∨
      (∃ kind text c word rest, cs = c :: (word ++ rest) ∧ Spelled kind text (c :: word) ∧
        Stops kind rest ∧ lexeme c (word ++ rest) = .ok ⟨c :: word, some (kind, text)⟩) ∨
      ∃ c rest fault, cs = c :: rest ∧ Text.isBlank c = false ∧ lexeme c rest = .error fault := by
  cases cs with
  | nil => exact .inl .nothing
  | cons c cs =>
    by_cases hc : Text.isBlank c
    · exact .inr (.inl ⟨.blank c hc, cs, rfl⟩)
    · cases hcomment : comment? (c :: cs) with
      | some spelling => exact (comment?_cases hcomment).imp_right .inl
      | none =>
        cases hlexeme : lexeme c cs with
        | error fault =>
          exact .inr (.inr (.inr ⟨c, cs, fault, rfl, Bool.eq_false_iff.mpr hc, hlexeme⟩))
        | ok found =>
          obtain ⟨kind, text, word, rest, rfl, hsplit, hspelled, hstops⟩ :=
            lexeme_spelled hcomment hlexeme
          cases word with
          | nil => exact absurd rfl hspelled.ne_nil
          | cons b word =>
            obtain ⟨rfl, rfl⟩ := List.cons.inj hsplit
            exact .inr (.inr (.inl ⟨kind, text, c, word, rest, rfl, hspelled, hstops, hlexeme⟩))

/-- At the front of a source that is read stands its end, or trivia, or a token. -/
theorem front_cases {ts : List Token} (h : lexFrom 0 l done cs = .ok ts) :
    Ending cs ∨ (∃ (x : Trivia) (rest : List Char), cs = x.chars ++ rest) ∨
      ∃ kind text c word rest, cs = c :: (word ++ rest) ∧ Spelled kind text (c :: word) ∧
        lexeme c (word ++ rest) = .ok ⟨c :: word, some (kind, text)⟩ := by
  rcases every_front cs with hending | htrivia |
    ⟨kind, text, c, word, rest, rfl, hspelled, -, hlexeme⟩ | ⟨c, rest, fault, rfl, hc, hfault⟩
  · exact .inl hending
  · exact .inr (.inl htrivia)
  · exact .inr (.inr ⟨kind, text, c, word, rest, rfl, hspelled, hlexeme⟩)
  · rw [lexFrom, hc, hfault] at h
    cases h

end PatchScript.Script
