import PatchScript.Proofs.Reading
import PatchScript.Xml.Reader

/-!
# Texts and values that were written

A text is written with references for the characters that would be read as markup, a value
with references for the characters too that a reader would change.  So a value is read as
what it was, whatever it was.  A text is read with its line ends changed: a carriage return
stands in it as such, and a reader makes it a line feed.  No other text is changed (`asRead_eq`).
-/

namespace PatchScript.Xml

/-! ## References -/

theorem glyphsFrom_skip : ∀ (skipped cs : List Char) (done : List Glyph),
    glyphsFrom skipped.length done (skipped ++ cs) = glyphsFrom 0 done cs
  | [], _, _ => rfl
  | _ :: skipped, cs, done => glyphsFrom_skip skipped cs done

/-- What is neither a reference nor the start of one stands for itself. -/
theorem glyphsFrom_plain {c : Char} (h : c ≠ '&') (done : List Glyph) (cs : List Char) :
    glyphsFrom 0 done (c :: cs) = glyphsFrom 0 (⟨c, false⟩ :: done) cs := by
  rw [glyphsFrom, if_neg h]

/-- A reference stands for its character. -/
theorem glyphsFrom_reference (body : List Char) {c : Char} (hc : referred? body = some c)
    (hend : body.all (· != ';')) (done : List Glyph) (cs : List Char) :
    glyphsFrom 0 done ('&' :: body ++ ';' :: cs) = glyphsFrom 0 (⟨c, true⟩ :: done) cs := by
  have hbody : (body ++ ';' :: cs).takeWhile (· != ';') = body := by
    rw [List.takeWhile_append_of_pos (List.all_eq_true.mp hend)]
    simp
  have hlength : body.length < (body ++ ';' :: cs).length := by simp
  rw [List.cons_append, glyphsFrom, if_pos rfl]
  dsimp only
  rw [hbody, hc]
  dsimp only
  rw [if_pos hlength]
  have hskip := glyphsFrom_skip (body ++ [';']) cs (⟨c, true⟩ :: done)
  rw [List.length_append, List.append_assoc] at hskip
  exact hskip

/-! ## Texts -/

/-- The character of a text as it is read again. -/
def textGlyph (c : Char) : Glyph := ⟨c, c == '&' || c == '<' || c == '>'⟩

theorem glyphsFrom_escapeTextChar (c : Char) (done : List Glyph) (cs : List Char) :
    glyphsFrom 0 done (escapeTextChar c ++ cs) = glyphsFrom 0 (textGlyph c :: done) cs := by
  rw [escapeTextChar, textGlyph]
  split
  · rename_i h
    subst h
    exact glyphsFrom_reference ['a', 'm', 'p'] (by decide) (by decide) done cs
  · split
    · rename_i h
      subst h
      exact glyphsFrom_reference ['l', 't'] (by decide) (by decide) done cs
    · split
      · rename_i h
        subst h
        exact glyphsFrom_reference ['g', 't'] (by decide) (by decide) done cs
      · rename_i hamp hlt hgt
        simp only [beq_eq_false_iff_ne.mpr hamp, beq_eq_false_iff_ne.mpr hlt,
          beq_eq_false_iff_ne.mpr hgt, Bool.or_self]
        exact glyphsFrom_plain hamp done cs

theorem glyphsFrom_escape {escape : Char → List Char} {glyph : Char → Glyph}
    (h : ∀ c done cs, glyphsFrom 0 done (escape c ++ cs) = glyphsFrom 0 (glyph c :: done) cs)
    (cs : List Char) : glyphs (cs.flatMap escape) = .ok (cs.map glyph) := by
  have step : ∀ (cs : List Char) (done : List Glyph),
      glyphsFrom 0 done (cs.flatMap escape) = .ok (done.reverse ++ cs.map glyph) := by
    intro cs
    induction cs with
    | nil => exact fun done => congrArg Except.ok (List.append_nil _).symm
    | cons c cs ih =>
      intro done
      rw [List.flatMap_cons, h, ih, List.reverse_cons, List.append_assoc]
      rfl
  exact step cs []

/-- A text as it is read again. -/
def asRead (cs : List Char) : String := String.ofList (joinLines false [] (cs.map textGlyph))

/-- Every text that is written can be read. -/
theorem textOf_escapeText (cs : List Char) :
    textOf (cs.flatMap escapeTextChar) = .ok (asRead cs) := by
  rw [textOf, glyphsFrom_escape glyphsFrom_escapeTextChar]
  rfl

/-! ## Line ends -/

section

variable {done : List Char} {b c : Char} {last : Bool}

theorem pushLine_eq (hdone : '\r' ∉ done) (hc : c ≠ '\r') : pushLine done c last = c :: done := by
  unfold pushLine
  split
  · exact absurd List.mem_cons_self hdone
  · simp [hc]

/-- Without a carriage return, no line end is changed. -/
theorem joinLines_eq : ∀ {gs : List Glyph} {keep : Bool} {done : List Char},
    (∀ g ∈ gs, g.char ≠ '\r') → '\r' ∉ done →
    joinLines keep done gs = done.reverse ++ gs.map (·.char)
  | [], keep, done, _, _ => (List.append_nil _).symm
  | g :: gs, keep, done, hgs, hdone => by
    obtain ⟨hg, hrest⟩ := List.forall_mem_cons.mp hgs
    have hpushed : '\r' ∉ g.char :: done := by simp [hdone, Ne.symm hg]
    rw [joinLines, pushLine_eq hdone hg, joinLines_eq hrest hpushed, joinLines_eq hrest hpushed]
    simp

theorem mem_pushLine (hb : b ≠ '\r') (h : b = c ∨ b ∈ done) : b ∈ pushLine done c last := by
  have hend : (last && c == '\r') = true → b ∈ done := by
    intro hlast
    simp only [Bool.and_eq_true, beq_iff_eq] at hlast
    exact h.resolve_left fun hbc => hb (hbc.trans hlast.2)
  unfold pushLine
  split
  · rename_i rest
    have hrest : b = c ∨ b ∈ rest := h.imp_right fun h => (List.mem_cons.mp h).resolve_left hb
    split
    · rename_i hlast
      have hmem := (List.mem_cons.mp (hend hlast)).resolve_left hb
      exact List.mem_cons_of_mem _ (List.mem_cons_of_mem _ hmem)
    · split
      · rename_i hfeed
        rw [beq_iff_eq] at hfeed
        rwa [← hfeed, List.mem_cons]
      · exact List.mem_cons.mpr (hrest.imp_right (List.mem_cons_of_mem _))
  · split
    · rename_i hlast
      exact List.mem_cons_of_mem _ (hend hlast)
    · exact List.mem_cons.mpr h

/-- No character is lost but carriage returns. -/
theorem mem_joinLines (hb : b ≠ '\r') : ∀ {gs : List Glyph} {keep : Bool} {done : List Char},
    (∃ g ∈ gs, b = g.char) ∨ b ∈ done → b ∈ joinLines keep done gs
  | [], _, done, h => by
    rw [joinLines, List.mem_reverse]
    rcases h with ⟨g, hg, -⟩ | h
    · cases hg
    · exact h
  | g :: gs, keep, done, h => by
    have hg : (∃ g ∈ gs, b = g.char) ∨ b = g.char ∨ b ∈ done := by
      simpa [or_assoc, or_left_comm] using h
    rw [joinLines]
    split
    · exact mem_joinLines hb (hg.imp_right List.mem_cons.mpr)
    · split
      · exact mem_joinLines hb (hg.imp_right List.mem_cons.mpr)
      · exact mem_joinLines hb (hg.imp_right (mem_pushLine hb))

end

/-- A text without carriage returns is read as it is. -/
theorem asRead_eq {cs : List Char} (h : '\r' ∉ cs) : asRead cs = String.ofList cs := by
  have hglyphs : ∀ g ∈ cs.map textGlyph, g.char ≠ '\r' := by
    refine List.forall_mem_map.mpr fun c hc heq => h ?_
    rwa [← show c = '\r' from heq]
  have hchars : (cs.map textGlyph).map (·.char) = cs := by
    rw [List.map_map]
    exact List.map_id cs
  rw [asRead, joinLines_eq hglyphs List.not_mem_nil, hchars]
  rfl

/-- A text that is not blank is not read as one. -/
theorem isBlankText_asRead {cs : List Char} (h : isBlankText (String.ofList cs) = false) :
    isBlankText (asRead cs) = false := by
  rw [isBlankText, String.toList_ofList, List.all_eq_false] at h
  obtain ⟨c, hc, hblank⟩ := h
  have hne : c ≠ '\r' := by
    rintro rfl
    exact hblank (by decide)
  rw [isBlankText, asRead, String.toList_ofList, List.all_eq_false]
  exact ⟨c, mem_joinLines hne (.inl ⟨textGlyph c, List.mem_map_of_mem hc, rfl⟩), hblank⟩

/-! ## Values -/

/-- The character of a value as it is read again. -/
def valueGlyph (c : Char) : Glyph :=
  if c == '"' || c == '\n' || c == '\r' || c == '\t' then ⟨c, true⟩ else textGlyph c

theorem glyphsFrom_escapeValueChar (c : Char) (done : List Glyph) (cs : List Char) :
    glyphsFrom 0 done (escapeValueChar c ++ cs) = glyphsFrom 0 (valueGlyph c :: done) cs := by
  rw [escapeValueChar, valueGlyph]
  split
  · rename_i h
    subst h
    exact glyphsFrom_reference ['q', 'u', 'o', 't'] (by decide) (by decide) done cs
  · split
    · rename_i h
      subst h
      exact glyphsFrom_reference ['#', 'x', 'A'] (by decide) (by decide) done cs
    · split
      · rename_i h
        subst h
        exact glyphsFrom_reference ['#', 'x', 'D'] (by decide) (by decide) done cs
      · split
        · rename_i h
          subst h
          exact glyphsFrom_reference ['#', 'x', '9'] (by decide) (by decide) done cs
        · rename_i hquote hfeed hreturn htab
          simp only [beq_eq_false_iff_ne.mpr hquote, beq_eq_false_iff_ne.mpr hfeed,
            beq_eq_false_iff_ne.mpr hreturn, beq_eq_false_iff_ne.mpr htab, Bool.or_self]
          exact glyphsFrom_escapeTextChar c done cs

/-- The line ends and tabs of a value are references, so none is made a space. -/
theorem spaceLines_valueGlyphs : ∀ cs : List Char, spaceLines (cs.map valueGlyph) = cs
  | [] => rfl
  | c :: cs => by
    have ih := spaceLines_valueGlyphs cs
    rw [List.map_cons, valueGlyph]
    split
    · rw [spaceLines, ih]
    · rename_i h
      simp only [Bool.or_eq_true, beq_iff_eq, not_or] at h
      obtain ⟨⟨⟨-, hfeed⟩, hreturn⟩, htab⟩ := h
      rw [textGlyph]
      cases hreferred : c == '&' || c == '<' || c == '>' with
      | true => rw [spaceLines, ih]
      | false =>
        have hspace : (c == '\n' || c == '\r' || c == '\t') = false := by
          simp [hfeed, hreturn, htab]
        rw [spaceLines]
        · rw [hspace, ih]
          rfl
        · exact fun _ _ hc => hreturn hc

/-- Every value that is written is read as it was. -/
theorem valueOf_escapeValue (s : String) : valueOf (escapeValue s) = .ok s := by
  rw [valueOf, escapeValue, glyphsFrom_escape glyphsFrom_escapeValueChar]
  show Except.ok (String.ofList (spaceLines (s.toList.map valueGlyph))) = .ok s
  rw [spaceLines_valueGlyphs, String.ofList_toList]

/-! ## The characters that are written -/

/-- The characters that references consist of. -/
def referenceChars : List Char :=
  ['&', 'a', 'm', 'p', 'l', 't', 'g', 'q', 'u', 'o', '#', 'x', 'A', 'D', '9', ';']

theorem mem_referenceChars : ∀ b ∈ referenceChars,
    (b ≠ '<' ∧ b ≠ '>' ∧ b ≠ '"') ∧ isXmlChar b := by
  have hall : referenceChars.all fun b =>
      decide ((b ≠ '<' ∧ b ≠ '>' ∧ b ≠ '"') ∧ isXmlChar b) := by decide
  exact fun b hb => of_decide_eq_true (List.all_eq_true.mp hall b hb)

/-- What is written for a character of a text. -/
theorem mem_escapeTextChar {b c : Char} (h : b ∈ escapeTextChar c) :
    b ∈ referenceChars ∨ (b = c ∧ c ≠ '<' ∧ c ≠ '>') := by
  rw [escapeTextChar] at h
  split at h
  · exact .inl ((by decide : ['&', 'a', 'm', 'p', ';'] ⊆ referenceChars) h)
  · split at h
    · exact .inl ((by decide : ['&', 'l', 't', ';'] ⊆ referenceChars) h)
    · split at h
      · exact .inl ((by decide : ['&', 'g', 't', ';'] ⊆ referenceChars) h)
      · rename_i hlt hgt
        exact .inr ⟨List.mem_singleton.mp h, hlt, hgt⟩

/-- What is written for a character of a value. -/
theorem mem_escapeValueChar {b c : Char} (h : b ∈ escapeValueChar c) :
    b ∈ referenceChars ∨ (b = c ∧ c ≠ '<' ∧ c ≠ '"') := by
  rw [escapeValueChar] at h
  split at h
  · exact .inl ((by decide : ['&', 'q', 'u', 'o', 't', ';'] ⊆ referenceChars) h)
  · rename_i hquote
    split at h
    · exact .inl ((by decide : ['&', '#', 'x', 'A', ';'] ⊆ referenceChars) h)
    · split at h
      · exact .inl ((by decide : ['&', '#', 'x', 'D', ';'] ⊆ referenceChars) h)
      · split at h
        · exact .inl ((by decide : ['&', '#', 'x', '9', ';'] ⊆ referenceChars) h)
        · rcases mem_escapeTextChar h with h | ⟨hb, hlt, -⟩
          · exact .inl h
          · exact .inr ⟨hb, hlt, hquote⟩

/-- No markup is written in a text. -/
theorem ne_of_mem_escapedText {b : Char} {cs : List Char} (h : b ∈ cs.flatMap escapeTextChar) :
    b ≠ '<' ∧ b ≠ '>' := by
  obtain ⟨c, -, hb⟩ := List.mem_flatMap.mp h
  rcases mem_escapeTextChar hb with hb | ⟨rfl, hne⟩
  · exact ⟨(mem_referenceChars b hb).1.1, (mem_referenceChars b hb).1.2.1⟩
  · exact hne

/-- No markup and no quote is written in a value. -/
theorem ne_of_mem_escapedValue {b : Char} {s : String} (h : b ∈ escapeValue s) :
    b ≠ '<' ∧ b ≠ '"' := by
  obtain ⟨c, -, hb⟩ := List.mem_flatMap.mp h
  rcases mem_escapeValueChar hb with hb | ⟨rfl, hne⟩
  · exact ⟨(mem_referenceChars b hb).1.1, (mem_referenceChars b hb).1.2.2⟩
  · exact hne

theorem all_isXmlChar_escapedText {cs : List Char} (h : cs.all isXmlChar) :
    (cs.flatMap escapeTextChar).all isXmlChar := by
  rw [List.all_eq_true] at h ⊢
  intro b hb
  obtain ⟨c, hc, hb⟩ := List.mem_flatMap.mp hb
  rcases mem_escapeTextChar hb with hb | ⟨rfl, -⟩
  · exact (mem_referenceChars b hb).2
  · exact h b hc

theorem all_isXmlChar_escapedValue {s : String} (h : s.toList.all isXmlChar) :
    (escapeValue s).all isXmlChar := by
  rw [List.all_eq_true] at h ⊢
  intro b hb
  obtain ⟨c, hc, hb⟩ := List.mem_flatMap.mp hb
  rcases mem_escapeValueChar hb with hb | ⟨rfl, -⟩
  · exact (mem_referenceChars b hb).2
  · exact h b hc

end PatchScript.Xml
