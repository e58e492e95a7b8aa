import Mathlib.Data.List.TakeWhile
import PatchScript.Proofs.Number.Layout
import PatchScript.Script.Lexer

/-!
# How tokens are spelled

A token is read from a stretch of the source.  `Spelled` says of each kind of token what that
stretch is: the text of the token, or the text between quotes, or a word or a number that stands
for it.  What the lexer reads is spelled like that (`lexeme_spelled`), and what is spelled like that
is read, if what follows does not go on with it (`Spelled.lexeme_eq`).
-/

namespace PatchScript.Script

/-! ## Classes of characters -/

theorem isWordPart_of_isBooleanPart {c : Char} (h : isBooleanPart c) : isWordPart c := by
  have every : "truefals".toList.all isWordPart = true := by decide +kernel
  exact List.all_eq_true.mp every c (List.contains_iff_mem.mp h)

theorem isPlainDigit_of_isNumberPart {c : Char} (h : isNumberPart c) : IsPlainDigit c := by
  rw [isNumberPart, Bool.or_eq_true, beq_iff_eq] at h
  exact h

theorem isNumberPart_of_isPlainDigit {c : Char} (h : IsPlainDigit c) : isNumberPart c := by
  rw [isNumberPart, Bool.or_eq_true, beq_iff_eq]
  exact h

/-- The code points of white space. -/
def blankCodes : List Nat :=
  [0x9, 0xa, 0xb, 0xc, 0xd, 0x20, 0x85, 0xa0, 0x1680, 0x2000, 0x2001, 0x2002, 0x2003, 0x2004,
    0x2005, 0x2006, 0x2007, 0x2008, 0x2009, 0x200a, 0x2028, 0x2029, 0x202f, 0x205f, 0x3000]

theorem mem_blankCodes {c : Char} (h : Text.isBlank c) : c.toNat ∈ blankCodes := by
  unfold Text.isBlank at h
  simp only [blankCodes, List.mem_cons, List.not_mem_nil, or_false]
  split at h
  · rw [Bool.or_eq_true, beq_iff_eq, Bool.and_eq_true, decide_eq_true_eq, decide_eq_true_eq] at h
    rcases h with rfl | h
    · decide
    · omega
  · simp only [Bool.or_eq_true, beq_iff_eq, Bool.and_eq_true, decide_eq_true_eq] at h
    omega

/-- With the character a word or a number does not go on. -/
def IsBreak (c : Char) : Prop := isWordPart c = false ∧ isNumberPart c = false

theorem isBreak_of_isBlank {c : Char} (h : Text.isBlank c) : IsBreak c := by
  have every : ∀ n ∈ blankCodes, isWordPart (Char.ofNat n) = false ∧
      isNumberPart (Char.ofNat n) = false := by decide +kernel
  have hc := every c.toNat (mem_blankCodes h)
  rwa [Char.ofNat_toNat] at hc

theorem isBreak_slash : IsBreak '/' := by
  constructor <;> decide +kernel

/-- What follows does not go on with a word or a number. -/
def Breaks (rest : List Char) : Prop := ∀ c ∈ rest.head?, IsBreak c

/-- A run ends where what follows does not go on with it. -/
theorem takeWhile_append_of_stop {p : Char → Bool} {rest : List Char}
    (h : ∀ c ∈ rest.head?, p c = false) :
    ∀ cs : List Char, (cs ++ rest).takeWhile p = cs.takeWhile p := by
  intro cs
  induction cs with
  | nil =>
    cases rest with
    | nil => rfl
    | cons c rest => simp [h c rfl]
  | cons c cs ih => simp [List.takeWhile_cons, ih]

/-! ## Spellings -/

/-- How a token of a kind and with a text may be spelled. -/
inductive Spelled : TokenKind → String → List Char → Prop where
  /-- A keyword is spelled by a word that stands for it. -/
  | keyword {k : Keyword} {word : List Char} : (∀ c ∈ word, isWordPart c) →
    Keyword.ofWord? (String.ofList word) = some k → Spelled .keyword k.spelling word
  /-- A boolean is one of two words. -/
  | boolean {text : String} : text = "true" ∨ text = "false" → Spelled .boolean text text.toList
  /-- A string is its text between quotes. -/
  | string {text : List Char} : '\'' ∉ text →
    Spelled .string (String.ofList text) ('\'' :: text ++ ['\''])
  /-- A number is spelled by digits and points that denote it. -/
  | number {word : List Char} {x : Binary64} : (∀ c ∈ word, isNumberPart c) →
    Decimal.number? word = some x → Spelled .number x.render word
  /-- An operator is one character. -/
  | operator (op : Operator) : Spelled .operator (String.ofList [op.char]) [op.char]
  /-- An identifier is a word that does not start with a digit, is no keyword and does not start
  with a boolean that ends where no letter of a boolean follows. -/
  | identifier {c : Char} {cs : List Char} : (∀ b ∈ c :: cs, isWordPart b) →
    isNumberPart c = false → Keyword.ofWord? (String.ofList (c :: cs)) = none →
    boolean? (c :: cs) = none → Spelled .identifier (String.ofList (c :: cs)) (c :: cs)

/-- What follows does not go on with a token of the kind.  A string and an operator end where they
end. -/
def Stops : TokenKind → List Char → Prop
  | .keyword, rest | .identifier, rest => ∀ c ∈ rest.head?, isWordPart c = false
  | .boolean, rest => ∀ c ∈ rest.head?, isBooleanPart c = false
  | .number, rest => ∀ c ∈ rest.head?, isNumberPart c = false
  | .string, _ | .operator, _ => True

/-- Where a run ends, what follows does not go on with it. -/
theorem stop_of_dropWhile (p : Char → Bool) (cs : List Char) :
    ∀ c ∈ (cs.dropWhile p).head?, p c = false := by
  intro c hc
  have hhead := List.head?_dropWhile_not p cs
  rw [Option.mem_def.mp hc] at hhead
  exact hhead

theorem isBooleanPart_of_not_isWordPart {c : Char} (h : isWordPart c = false) :
    isBooleanPart c = false :=
  Bool.eq_false_iff.mpr fun hboolean => by
    rw [isWordPart_of_isBooleanPart hboolean] at h
    cases h

/-- No token goes on with what neither a word nor a number goes on with. -/
theorem Breaks.stops {rest : List Char} (h : Breaks rest) (kind : TokenKind) : Stops kind rest := by
  cases kind with
  | keyword => exact fun c hc => (h c hc).1
  | identifier => exact fun c hc => (h c hc).1
  | boolean => exact fun c hc => isBooleanPart_of_not_isWordPart (h c hc).1
  | number => exact fun c hc => (h c hc).2
  | string => trivial
  | operator => trivial

/-- What is cut off sooner does not go on with a token either. -/
theorem Stops.of_prefix {kind : TokenKind} {rest front : List Char} (h : Stops kind rest)
    (hfront : front <+: rest) : Stops kind front := by
  have stop {p : Char → Bool} (h : ∀ c ∈ rest.head?, p c = false) :
      ∀ c ∈ front.head?, p c = false := by
    cases front with
    | nil => exact nofun
    | cons c cs =>
      obtain ⟨tail, rfl⟩ := hfront
      exact h
  cases kind with
  | keyword => exact stop h
  | identifier => exact stop h
  | boolean => exact stop h
  | number => exact stop h
  | string => trivial
  | operator => trivial

/-! ## Words that are no keywords -/

theorem ofWord?_nil : Keyword.ofWord? (String.ofList []) = none := by decide +kernel

/-- No keyword starts with a digit or a point. -/
theorem ofWord?_eq_none {c : Char} {cs : List Char} (hc : isNumberPart c) :
    Keyword.ofWord? (String.ofList (c :: cs)) = none := by
  have heads : ∀ k ∈ Keyword.every, ∀ s ∈ k.spelling :: k.aliases,
      ((s.toList.map Char.toLower).head?.all fun b => !isNumberPart b) = true := by decide +kernel
  refine List.find?_eq_none.mpr fun k hk hany => ?_
  obtain ⟨s, hs, hsame⟩ := List.any_eq_true.mp hany
  rw [Text.sameLetters, beq_iff_eq, String.toList_ofList, List.map_cons,
    Decimal.toLower_of_isPlainDigit (isPlainDigit_of_isNumberPart hc)] at hsame
  have hhead := heads k hk s hs
  rw [hsame] at hhead
  simp [hc] at hhead

/-- No keyword starts with a boolean. -/
theorem ofWord?_boolean_append {text : String} (h : text = "true" ∨ text = "false")
    (cs : List Char) : Keyword.ofWord? (String.ofList (text.toList ++ cs)) = none := by
  have heads : ∀ b ∈ ["true", "false"], ∀ k ∈ Keyword.every, ∀ s ∈ k.spelling :: k.aliases,
      ¬b.toList.map Char.toLower <+: s.toList.map Char.toLower := by decide +kernel
  refine List.find?_eq_none.mpr fun k hk hany => ?_
  obtain ⟨s, hs, hsame⟩ := List.any_eq_true.mp hany
  rw [Text.sameLetters, beq_iff_eq, String.toList_ofList, List.map_append] at hsame
  exact heads text (by simpa using h) k hk s hs ⟨_, hsame.symm⟩

/-- Every keyword stands for itself. -/
theorem ofWord?_spelling (k : Keyword) : Keyword.ofWord? k.spelling = some k := by
  cases k <;> decide +kernel

theorem all_isWordPart_spelling (k : Keyword) : ∀ c ∈ k.spelling.toList, isWordPart c := by
  refine List.all_eq_true.mp ?_
  cases k <;> decide +kernel

theorem Spelled.ne_nil {kind : TokenKind} {text : String} {cs : List Char}
    (h : Spelled kind text cs) : cs ≠ [] := by
  cases h with
  | keyword _ hword =>
    rintro rfl
    rw [ofWord?_nil] at hword
    cases hword
  | boolean htext => rcases htext with rfl | rfl <;> decide
  | number _ hnumber =>
    rintro rfl
    have hnone : Decimal.number? [] = none := by decide +kernel
    rw [hnone] at hnumber
    cases hnumber
  | string => exact nofun
  | operator => exact nofun
  | identifier => exact nofun

/-! ## What the lexer reads -/

theorem keyword?_append {rest : List Char} (h : ∀ c ∈ rest.head?, isWordPart c = false)
    (cs : List Char) : keyword? (cs ++ rest) = keyword? cs := by
  rw [keyword?, keyword?, takeWhile_append_of_stop h]

theorem boolean?_append {rest : List Char} (h : ∀ c ∈ rest.head?, isBooleanPart c = false)
    (cs : List Char) : boolean? (cs ++ rest) = boolean? cs := by
  rw [boolean?, boolean?, takeWhile_append_of_stop h]

theorem keyword?_spelled {cs : List Char} {found : Lexeme} (h : keyword? cs = some found) :
    ∃ kind text word rest, found = ⟨word, some (kind, text)⟩ ∧ cs = word ++ rest ∧
      Spelled kind text word ∧ Stops kind rest := by
  obtain ⟨k, hk, rfl⟩ := Option.map_eq_some_iff.mp h
  exact ⟨_, _, _, cs.dropWhile isWordPart, rfl, List.takeWhile_append_dropWhile.symm,
    .keyword (fun c hc => List.mem_takeWhile_imp hc) hk, stop_of_dropWhile isWordPart cs⟩

theorem boolean?_spelled {cs : List Char} {found : Lexeme} (h : boolean? cs = some found) :
    ∃ kind text word rest, found = ⟨word, some (kind, text)⟩ ∧ cs = word ++ rest ∧
      Spelled kind text word ∧ Stops kind rest := by
  unfold boolean? at h
  dsimp only at h
  split at h
  · rename_i htext
    cases h
    refine ⟨_, _, _, cs.dropWhile isBooleanPart, rfl, ?_, .boolean htext,
      stop_of_dropWhile isBooleanPart cs⟩
    rw [String.toList_ofList, List.takeWhile_append_dropWhile]
  · cases h

/-- A text that ends before the source does ends at a quote. -/
theorem exists_quote_of_length_lt {cs : List Char}
    (h : (cs.takeWhile (· != '\'')).length < cs.length) :
    ∃ rest, cs.dropWhile (· != '\'') = '\'' :: rest := by
  have hhead := List.head?_dropWhile_not (· != '\'') cs
  cases hrest : cs.dropWhile (· != '\'') with
  | nil =>
    have hsplit := congrArg List.length
      (List.takeWhile_append_dropWhile : cs.takeWhile (· != '\'') ++ _ = cs)
    rw [hrest, List.append_nil] at hsplit
    exact absurd hsplit (Nat.ne_of_lt h)
  | cons c rest =>
    rw [hrest] at hhead
    have hc : c = '\'' := by simpa using hhead
    exact ⟨rest, by rw [hc]⟩

theorem string_spelled {cs : List Char} {found : Lexeme} (h : string cs = .ok found) :
    ∃ kind text word rest, found = ⟨word, some (kind, text)⟩ ∧ '\'' :: cs = word ++ rest ∧
      Spelled kind text word ∧ Stops kind rest := by
  unfold string at h
  dsimp only at h
  split at h
  · rename_i hlt
    cases h
    have hquote : '\'' ∉ cs.takeWhile (· != '\'') := fun hmem => by
      simpa using List.mem_takeWhile_imp hmem
    obtain ⟨rest, hrest⟩ := exists_quote_of_length_lt hlt
    have hcs : cs = cs.takeWhile (· != '\'') ++ '\'' :: rest := by
      rw [← hrest, List.takeWhile_append_dropWhile]
    exact ⟨_, _, _, rest, rfl, (congrArg _ hcs).trans (by simp), .string hquote, trivial⟩
  · cases h

theorem number_spelled {cs : List Char} {found : Lexeme}
    (h : number (cs.takeWhile isNumberPart) = .ok found) :
    ∃ kind text word rest, found = ⟨word, some (kind, text)⟩ ∧ cs = word ++ rest ∧
      Spelled kind text word ∧ Stops kind rest := by
  unfold number at h
  split at h
  · rename_i x hx
    cases h
    exact ⟨_, _, _, cs.dropWhile isNumberPart, rfl, List.takeWhile_append_dropWhile.symm,
      .number (fun c hc => List.mem_takeWhile_imp hc) hx, stop_of_dropWhile isNumberPart cs⟩
  · cases h

theorem identifier_spelled {c : Char} {cs : List Char} (hkeyword : keyword? (c :: cs) = none)
    (hboolean : boolean? (c :: cs) = none) (hword : isWordPart c)
    (hnumber : isNumberPart c = false) :
    let word := (c :: cs).takeWhile isWordPart
    ∃ kind text word' rest, (⟨word, some (.identifier, String.ofList word)⟩ : Lexeme) =
      ⟨word', some (kind, text)⟩ ∧ c :: cs = word' ++ rest ∧ Spelled kind text word' ∧
        Stops kind rest := by
  intro word
  have hsplit : c :: cs = word ++ (c :: cs).dropWhile isWordPart :=
    List.takeWhile_append_dropWhile.symm
  have hstop := stop_of_dropWhile isWordPart (c :: cs)
  refine ⟨_, _, _, _, rfl, hsplit, ?_, hstop⟩
  have hcons : word = c :: cs.takeWhile isWordPart := List.takeWhile_cons_of_pos hword
  rw [hsplit, boolean?_append fun b hb => isBooleanPart_of_not_isWordPart (hstop b hb)]
    at hboolean
  have hall : ∀ b ∈ word, isWordPart b := fun b hb => List.mem_takeWhile_imp hb
  have hnone : Keyword.ofWord? (String.ofList word) = none := Option.map_eq_none_iff.mp hkeyword
  rw [hcons] at hall hnone hboolean ⊢
  exact .identifier hall hnumber hnone hboolean

/-- A lexeme that is no comment is a token, spelled by the front of the source, and what follows
does not go on with it. -/
theorem lexeme_spelled {c : Char} {cs : List Char} {found : Lexeme}
    (hcomment : comment? (c :: cs) = none) (h : lexeme c cs = .ok found) :
    ∃ kind text word rest, found = ⟨word, some (kind, text)⟩ ∧ c :: cs = word ++ rest ∧
      Spelled kind text word ∧ Stops kind rest := by
  rw [lexeme, hcomment] at h
  dsimp only at h
  cases hkeyword : keyword? (c :: cs) with
  | some k =>
    rw [hkeyword] at h
    cases h
    exact keyword?_spelled hkeyword
  | none =>
    cases hboolean : boolean? (c :: cs) with
    | some b =>
      rw [hkeyword, hboolean] at h
      cases h
      exact boolean?_spelled hboolean
    | none =>
      rw [hkeyword, hboolean] at h
      dsimp only [Option.or] at h
      split at h
      · rename_i hquote
        subst hquote
        exact string_spelled h
      · split at h
        · exact number_spelled h
        · rename_i hnumber
          split at h
          · rename_i hop
            cases h
            obtain ⟨op, hop⟩ := Option.isSome_iff_exists.mp hop
            rw [← Operator.char_of_ofChar? hop]
            exact ⟨_, _, _, cs, rfl, rfl, .operator op, trivial⟩
          · split at h
            · rename_i hword
              cases h
              exact identifier_spelled hkeyword hboolean hword (Bool.eq_false_iff.mpr hnumber)
            · cases h

/-! ## What is read again -/

theorem not_isBreak_of_isWordPart {c : Char} (h : isWordPart c) : ¬IsBreak c := by
  rintro ⟨hword, -⟩
  rw [h] at hword
  cases hword

theorem not_isBreak_of_isNumberPart {c : Char} (h : isNumberPart c) : ¬IsBreak c := by
  rintro ⟨-, hnumber⟩
  rw [h] at hnumber
  cases hnumber

/-- No token starts with a blank or a slash. -/
theorem Spelled.front {kind : TokenKind} {text : String} {c : Char} {cs : List Char}
    (h : Spelled kind text (c :: cs)) : Text.isBlank c = false ∧ c ≠ '/' := by
  have of_not_isBreak (hc : ¬IsBreak c) : Text.isBlank c = false ∧ c ≠ '/' := by
    refine ⟨Bool.eq_false_iff.mpr fun hblank => hc (isBreak_of_isBlank hblank), ?_⟩
    rintro rfl
    exact hc isBreak_slash
  generalize hword : c :: cs = word at h
  cases h with
  | keyword hall =>
    subst hword
    exact of_not_isBreak (not_isBreak_of_isWordPart (hall c List.mem_cons_self))
  | boolean htext => rcases htext with rfl | rfl <;> cases hword <;> decide
  | string =>
    cases hword
    decide
  | number hall =>
    subst hword
    exact of_not_isBreak (not_isBreak_of_isNumberPart (hall c List.mem_cons_self))
  | operator op => cases op <;> cases hword <;> decide
  | identifier hall =>
    cases hword
    exact of_not_isBreak (not_isBreak_of_isWordPart (hall c List.mem_cons_self))

theorem comment?_cons {c : Char} (h : c ≠ '/') (cs : List Char) : comment? (c :: cs) = none := by
  unfold comment?
  split
  · rename_i heq
    exact absurd (List.cons.inj heq).1 h
  · rename_i heq
    exact absurd (List.cons.inj heq).1 h
  · rfl

theorem keyword?_cons {c : Char} (h : isWordPart c = false) (cs : List Char) :
    keyword? (c :: cs) = none := by
  rw [keyword?, List.takeWhile_cons_of_neg (by simp [h]), ofWord?_nil]
  rfl

theorem boolean?_cons {c : Char} (h : isBooleanPart c = false) (cs : List Char) :
    boolean? (c :: cs) = none := by
  rw [boolean?, List.takeWhile_cons_of_neg (by simp [h])]
  decide +kernel

theorem keyword?_word {word : List Char} (h : ∀ c ∈ word, isWordPart c) :
    keyword? word =
      (Keyword.ofWord? (String.ofList word)).map fun k => ⟨word, some (.keyword, k.spelling)⟩ := by
  rw [keyword?, List.takeWhile_eq_self_iff.mpr h]

/-- A number is neither a keyword nor a boolean. -/
theorem keyword?_boolean?_number {c : Char} (h : isNumberPart c) (cs : List Char) :
    keyword? (c :: cs) = none ∧ boolean? (c :: cs) = none := by
  have every : ("0123456789.".toList.all fun b => !isBooleanPart b) = true := by decide
  have hdigit := mem_of_isPlainDigit (isPlainDigit_of_isNumberPart h)
  have hboolean := List.all_eq_true.mp every c hdigit
  refine ⟨?_, boolean?_cons (Bool.not_eq_true' _ ▸ hboolean) cs⟩
  cases hword : isWordPart c with
  | false => exact keyword?_cons hword cs
  | true => rw [keyword?, List.takeWhile_cons_of_pos hword, ofWord?_eq_none h, Option.map_none]

/-- A boolean is no keyword, whatever follows. -/
theorem keyword?_boolean {text : String} (h : text = "true" ∨ text = "false") (rest : List Char) :
    keyword? (text.toList ++ rest) = none := by
  have hall : text.toList.all isWordPart = true := by rcases h with rfl | rfl <;> decide +kernel
  rw [keyword?, List.takeWhile_append_of_pos (List.all_eq_true.mp hall), ofWord?_boolean_append h,
    Option.map_none]

theorem boolean?_boolean {text : String} (h : text = "true" ∨ text = "false") :
    boolean? text.toList = some ⟨text.toList, some (.boolean, text)⟩ := by
  have hall : text.toList.all isBooleanPart = true := by rcases h with rfl | rfl <;> decide
  rw [boolean?, List.takeWhile_eq_self_iff.mpr (List.all_eq_true.mp hall), String.ofList_toList]
  exact if_pos h

theorem string_quoted {text : List Char} (h : '\'' ∉ text) (rest : List Char) :
    string (text ++ '\'' :: rest) =
      .ok ⟨'\'' :: text ++ ['\''], some (.string, String.ofList text)⟩ := by
  have hall : ∀ c ∈ text, (c != '\'') = true := by
    intro c hc
    rw [bne_iff_ne]
    rintro rfl
    exact h hc
  have hrun : (text ++ '\'' :: rest).takeWhile (· != '\'') = text := by
    rw [List.takeWhile_append_of_pos hall, List.takeWhile_cons_of_neg (by simp), List.append_nil]
  rw [string, hrun, if_pos (by simp)]

theorem lexeme_of_word {c : Char} {cs : List Char} {found : Lexeme} (hslash : c ≠ '/')
    (hfound : (keyword? (c :: cs)).or (boolean? (c :: cs)) = some found) :
    lexeme c cs = .ok found := by
  rw [lexeme, comment?_cons hslash, hfound]

theorem lexeme_of_no_word {c : Char} {cs : List Char} (hslash : c ≠ '/')
    (hkeyword : keyword? (c :: cs) = none) (hboolean : boolean? (c :: cs) = none) :
    lexeme c cs =
      if c = '\'' then string cs
      else if isNumberPart c then number ((c :: cs).takeWhile isNumberPart)
      else if (Operator.ofChar? c).isSome then .ok ⟨[c], some (.operator, String.ofList [c])⟩
      else if isWordPart c then
        let word := (c :: cs).takeWhile isWordPart
        .ok ⟨word, some (.identifier, String.ofList word)⟩
      else .error (.unexpectedChar c) := by
  rw [lexeme, comment?_cons hslash, hkeyword, hboolean]
  rfl

/-- What is spelled like a token is read as that token, if what follows does not go on with it. -/
theorem Spelled.lexeme_eq {kind : TokenKind} {text : String} {c : Char} {cs rest : List Char}
    (h : Spelled kind text (c :: cs)) (hrest : Stops kind rest) :
    lexeme c (cs ++ rest) = .ok ⟨c :: cs, some (kind, text)⟩ := by
  have hslash := h.front.2
  generalize hword : c :: cs = word at h
  cases h with
  | keyword hall hk =>
    refine lexeme_of_word hslash ?_
    rw [← List.cons_append, hword, keyword?_append hrest, keyword?_word hall, hk]
    rfl
  | boolean htext =>
    refine lexeme_of_word hslash ?_
    rw [← List.cons_append, hword, keyword?_boolean htext, boolean?_append hrest,
      boolean?_boolean htext]
    rfl
  | @string body hquote =>
    cases hword
    rw [lexeme_of_no_word hslash (keyword?_cons (by decide +kernel) _)
      (boolean?_cons (by decide) _), if_pos rfl]
    show Script.string (body ++ ['\''] ++ rest) = _
    rw [List.append_assoc, List.singleton_append, string_quoted hquote]
  | @number _ x hall hx =>
    subst hword
    have hc : isNumberPart c := hall c List.mem_cons_self
    obtain ⟨hkeyword, hboolean⟩ := keyword?_boolean?_number hc (cs ++ rest)
    have hquote : c ≠ '\'' := by
      rintro rfl
      cases hc
    have hrun : (c :: (cs ++ rest)).takeWhile isNumberPart = c :: cs := by
      rw [← List.cons_append, takeWhile_append_of_stop hrest,
        List.takeWhile_eq_self_iff.mpr hall]
    rw [lexeme_of_no_word hslash hkeyword hboolean, if_neg hquote, if_pos hc, hrun,
      Script.number, hx]
  | operator op =>
    cases hword
    rw [lexeme_of_no_word hslash (keyword?_cons (by cases op <;> decide +kernel) _)
      (boolean?_cons (by cases op <;> decide) _)]
    rw [if_neg (by cases op <;> decide), if_neg (by cases op <;> decide), Operator.ofChar?_char]
    rfl
  | identifier hall hnumber hk hb =>
    cases hword
    have hc : isWordPart c := hall c List.mem_cons_self
    have hquote : c ≠ '\'' := by
      rintro rfl
      exact absurd hc (by decide +kernel)
    have hop : Operator.ofChar? c = none := by
      cases hop : Operator.ofChar? c with
      | none => rfl
      | some op =>
        rw [← Operator.char_of_ofChar? hop] at hc
        exact absurd hc (by cases op <;> decide +kernel)
    have hkeyword : keyword? (c :: (cs ++ rest)) = none := by
      rw [← List.cons_append, keyword?_append hrest, keyword?_word hall, hk, Option.map_none]
    have hboolean : boolean? (c :: (cs ++ rest)) = none := by
      rw [← List.cons_append,
        boolean?_append fun b hb => isBooleanPart_of_not_isWordPart (hrest b hb), hb]
    have hrun : (c :: (cs ++ rest)).takeWhile isWordPart = c :: cs := by
      rw [← List.cons_append, takeWhile_append_of_stop hrest,
        List.takeWhile_eq_self_iff.mpr hall]
    rw [lexeme_of_no_word hslash hkeyword hboolean, if_neg hquote, if_neg (by simp [hnumber]), hop,
      if_neg (by simp), if_pos hc, hrun]

end PatchScript.Script
