import Mathlib.Data.List.TakeWhile
import PatchScript.Proofs.Xml.Escaping

/-!
# Reading pieces where they were written

A tag, a comment and a text are read where they were written, whatever follows.  The names
have to be names of XML for this, with one colon in them at most, a comment may not hold two
hyphens, and a text has to be followed by markup.
-/

namespace PatchScript.Xml

/-! ## Names -/

/-- Is this a name that a tag can have? -/
def isQName (name : String) : Bool :=
  match qname name.toList with
  | .ok (_, []) => true
  | _ => false

/-- The name as it stands in a tag. -/
def readName (name : String) : QName :=
  match qname name.toList with
  | .ok (q, _) => q
  | .error _ => ⟨"", name⟩

/-- What name is at the front depends only on the characters there that can stand in one. -/
theorem qname_of_takeWhile {cs cs' : List Char} {q : QName} {rest : List Char}
    (h : cs'.takeWhile isTagNamePart = cs.takeWhile isTagNamePart)
    (hq : qname cs = .ok (q, rest)) : qname cs' = .ok (q, cs'.dropWhile isTagNamePart) := by
  rw [qname] at hq ⊢
  rw [h]
  let run := cs.takeWhile isTagNamePart
  generalize (if run.contains ':' then
    (run.takeWhile (· != ':'), (run.dropWhile (· != ':')).drop 1) else ([], run)) = parts at hq ⊢
  obtain ⟨qualifier, localName⟩ := parts
  dsimp only at hq ⊢
  cases hcolon : localName.contains ':' with
  | true =>
    rw [hcolon] at hq
    cases hq
  | false =>
    rw [hcolon] at hq
    cases hstart : (qualifier.take 1).all isTagNameStart with
    | false =>
      rw [hstart] at hq
      cases hq
    | true =>
      rw [hstart] at hq
      cases localName with
      | nil => cases hq
      | cons c localName =>
        dsimp only [Bool.false_eq_true, if_false, if_true] at hq ⊢
        cases hfirst : isTagNameStart c with
        | false =>
          rw [hfirst] at hq
          cases hq
        | true =>
          rw [hfirst] at hq
          cases hq
          rfl

theorem qname_rest {cs : List Char} {q : QName} {rest : List Char}
    (h : qname cs = .ok (q, rest)) : rest = cs.dropWhile isTagNamePart := by
  have hsame := qname_of_takeWhile (rfl : cs.takeWhile isTagNamePart = _) h
  rw [h] at hsame
  cases hsame
  rfl

variable {name : String}

theorem qname_of_isQName (h : isQName name) : qname name.toList = .ok (readName name, []) := by
  rw [isQName] at h
  rw [readName]
  split at h
  · rename_i q hq
    rw [hq]
  · cases h

/-- A name consists of the characters of names. -/
theorem all_isTagNamePart (h : isQName name) : ∀ c ∈ name.toList, isTagNamePart c := by
  have hdrop := qname_rest (qname_of_isQName h)
  exact List.dropWhile_eq_nil_iff.mp hdrop.symm

/-- What cannot stand in a name ends it. -/
theorem takeWhile_name {cs : List Char} (hall : ∀ b ∈ cs, isTagNamePart b) {c : Char}
    (hc : isTagNamePart c = false) (rest : List Char) :
    (cs ++ c :: rest).takeWhile isTagNamePart = cs.takeWhile isTagNamePart := by
  rw [List.takeWhile_append_of_pos hall, List.takeWhile_cons_of_neg (by simp [hc]),
    List.takeWhile_eq_self_iff.mpr hall, List.append_nil]

/-- A name is read where it was written, if what follows cannot stand in a name. -/
theorem qname_append (h : isQName name) {c : Char} (hc : isTagNamePart c = false)
    (rest : List Char) : qname (name.toList ++ c :: rest) = .ok (readName name, c :: rest) := by
  have hall := all_isTagNamePart h
  rw [qname_of_takeWhile (takeWhile_name hall hc rest) (qname_of_isQName h)]
  rw [List.dropWhile_append_of_pos hall, List.dropWhile_cons_of_neg (by simp [hc])]

/-- A name has a first character, which is none of those that follow the start of other
markup. -/
theorem exists_cons_of_isQName (h : isQName name) :
    ∃ c cs, name.toList = c :: cs ∧ isTagNamePart c := by
  cases hcs : name.toList with
  | nil =>
    rw [isQName, hcs] at h
    cases h
  | cons c cs =>
    refine ⟨c, cs, rfl, all_isTagNamePart h c ?_⟩
    rw [hcs]
    exact List.mem_cons_self

/-! ## Tags -/

/-- The tag of an element. -/
def tagOf (name : String) (attributes : Attributes) : Tag :=
  ⟨readName name, attributes.map fun a => (readName a.1, a.2)⟩

/-- A value is read where it was written. -/
theorem quoted_escapeValue (s : String) (rest : List Char) :
    quoted ('"' :: escapeValue s ++ '"' :: rest) = .ok (escapeValue s, rest) := by
  have inside : ∀ c ∈ escapeValue s, (c != '"' && c != '<') = true := by
    intro c hc
    obtain ⟨hlt, hquote⟩ := ne_of_mem_escapedValue hc
    simp [hlt, hquote]
  rw [List.cons_append, quoted, if_pos (.inl rfl)]
  dsimp only
  rw [List.dropWhile_append_of_pos inside, List.takeWhile_append_of_pos inside]
  simp

/-- An attribute is read where it was written. -/
theorem attribute_write (h : isQName name) (value : String) (rest : List Char) :
    attribute? (name.toList ++ '=' :: '"' :: escapeValue value ++ '"' :: rest) =
      .ok ((readName name, escapeValue value), rest) := by
  have hname := qname_append h (by decide : isTagNamePart '=' = false)
    ('"' :: escapeValue value ++ '"' :: rest)
  have hequals : equals ('=' :: '"' :: escapeValue value ++ '"' :: rest) =
      .ok ('"' :: escapeValue value ++ '"' :: rest) := rfl
  rw [attribute?, List.append_assoc, List.cons_append]
  rw [hname, ok_bind]
  dsimp only
  rw [← List.cons_append, hequals, ok_bind, quoted_escapeValue, ok_bind]
  rfl

/-- How a tag ends. -/
def tagEnd (closed : Bool) : List Char := if closed then [' ', '/', '>'] else ['>']

/-- What can stand in a name is no space and ends no tag. -/
theorem ne_of_isTagNamePart {c : Char} (h : isTagNamePart c) :
    isSpace c = false ∧ c ≠ '/' ∧ c ≠ '>' ∧ c ≠ '!' ∧ c ≠ '?' := by
  refine ⟨Bool.eq_false_iff.mpr fun hspace => ?_, ?_, ?_, ?_, ?_⟩
  · simp only [isSpace, Bool.or_eq_true, beq_iff_eq] at hspace
    rcases hspace with ((rfl | rfl) | rfl) | rfl <;> revert h <;> decide
  all_goals
    rintro rfl
    revert h
    decide

/-- What can stand in a name can stand in a document. -/
theorem isXmlChar_of_isTagNamePart {c : Char} (h : isTagNamePart c) : isXmlChar c := by
  have hchar : c = Char.ofNat c.toNat := (Char.ofNat_toNat c).symm
  have hcontrols : ∀ n < 0x20, isTagNamePart (Char.ofNat n) = false := by decide
  have hno (n : Nat) (hn : isTagNamePart (Char.ofNat n) = false) : c.toNat ≠ n := by
    rintro rfl
    rw [← hchar, h] at hn
    cases hn
  have hlow : ¬c.toNat < 0x20 := fun hlt => hno _ (hcontrols _ hlt) rfl
  have hfffe : c.toNat ≠ 0xfffe := hno _ (by decide)
  have hffff : c.toNat ≠ 0xffff := hno _ (by decide)
  rw [isXmlChar, if_neg hlow]
  simp [hfffe, hffff]

/-- Behind a space, a tag goes on with an attribute if there is a name. -/
theorem tagFrom_attribute {c : Char} (hspace : isSpace c = false) (hslash : c ≠ '/')
    (hend : c ≠ '>') (n : Nat) (cs : List Char) : tagFrom (n + 1) (' ' :: c :: cs) = (do
      let ((name, raw), rest) ← attribute? (c :: cs)
      let value ← valueOf raw
      let ((attributes, closed), rest) ← tagFrom n rest
      return (((name, value) :: attributes, closed), rest)) := by
  have hdrop : (' ' :: c :: cs).dropWhile isSpace = c :: cs := by
    rw [List.dropWhile_cons_of_pos (by decide), List.dropWhile_cons_of_neg (by simp [hspace])]
  rw [tagFrom, hdrop]
  split
  · rename_i heq
    cases heq
    exact absurd rfl hslash
  · rename_i heq
    cases heq
    exact absurd rfl hend
  · rfl

/-- The attributes of a tag are read where they were written. -/
theorem tagFrom_write (closed : Bool) (rest : List Char) : ∀ (attributes : Attributes)
    (steps : Nat), attributes.length < steps → (∀ a ∈ attributes, isQName a.1) →
    tagFrom steps (attributes.flatMap writeAttribute ++ (tagEnd closed ++ rest)) =
      .ok ((attributes.map fun a => (readName a.1, a.2), closed), rest) := by
  intro attributes
  induction attributes with
  | nil =>
    intro steps hsteps _
    obtain ⟨n, rfl⟩ := Nat.exists_eq_add_of_lt hsteps
    cases closed <;> rfl
  | cons a attributes ih =>
    intro steps hsteps hnames
    obtain ⟨ha, hrest⟩ := List.forall_mem_cons.mp hnames
    rw [List.length_cons] at hsteps
    cases steps with
    | zero => exact absurd hsteps (Nat.not_lt_zero _)
    | succ n =>
      let behind := attributes.flatMap writeAttribute ++ (tagEnd closed ++ rest)
      let inner := a.1.toList ++ '=' :: '"' :: escapeValue a.2 ++ '"' :: behind
      have hwritten : (a :: attributes).flatMap writeAttribute ++ (tagEnd closed ++ rest) =
          ' ' :: inner := by
        simp only [List.flatMap_cons, writeAttribute, List.append_assoc, List.cons_append,
          List.nil_append, inner, behind]
      obtain ⟨c, cs, hc, hpart⟩ := exists_cons_of_isQName ha
      obtain ⟨hspace, hslash, hend, -⟩ := ne_of_isTagNamePart hpart
      have hinner : inner = c :: (cs ++ '=' :: '"' :: escapeValue a.2 ++ '"' :: behind) := by
        simp only [inner, hc, List.cons_append, List.append_assoc]
      have hattribute : attribute? inner = .ok ((readName a.1, escapeValue a.2), behind) :=
        attribute_write ha a.2 behind
      rw [hwritten, hinner, tagFrom_attribute hspace hslash hend, ← hinner, hattribute, ok_bind]
      dsimp only
      rw [valueOf_escapeValue, ok_bind, ih n (Nat.lt_of_succ_lt_succ hsteps) hrest, ok_bind]
      rfl

/-! ## Pieces -/

/-- What is written behind the name of a tag cannot stand in a name. -/
theorem exists_cons_behind_name (attributes : Attributes) (closed : Bool) (rest : List Char) :
    ∃ c cs, attributes.flatMap writeAttribute ++ (tagEnd closed ++ rest) = c :: cs ∧
      isTagNamePart c = false := by
  cases attributes with
  | cons a attributes => exact ⟨' ', _, rfl, by decide⟩
  | nil =>
    cases closed with
    | true => exact ⟨' ', _, rfl, by decide⟩
    | false => exact ⟨'>', _, rfl, by decide⟩

/-- A tag that opens an element is read where it was written. -/
theorem piece_openTag (hname : isQName name) {attributes : Attributes}
    (hattributes : ∀ a ∈ attributes, isQName a.1) (closed : Bool) {steps : Nat}
    (hsteps : attributes.length < steps) (rest : List Char) :
    piece steps '<' (name.toList ++ (attributes.flatMap writeAttribute ++ (tagEnd closed ++ rest)))
      = .ok (.openTag (tagOf name attributes) closed, rest) := by
  let behind := attributes.flatMap writeAttribute ++ (tagEnd closed ++ rest)
  obtain ⟨c, cs, hbehind, hc⟩ := exists_cons_behind_name attributes closed rest
  have hread : qname (name.toList ++ behind) = .ok (readName name, behind) := by
    rw [show behind = c :: cs from hbehind]
    exact qname_append hname hc cs
  obtain ⟨n, ns, hn, hpart⟩ := exists_cons_of_isQName hname
  obtain ⟨-, hslash, -, hmark, hquestion⟩ := ne_of_isTagNamePart hpart
  have hstart : name.toList ++ behind = n :: (ns ++ behind) := by rw [hn, List.cons_append]
  unfold piece
  rw [if_pos rfl]
  split
  all_goals rename_i heq
  · exact absurd (List.cons.inj (hstart.symm.trans heq)).1 hmark
  · exact absurd (List.cons.inj (hstart.symm.trans heq)).1 hmark
  · exact absurd (List.cons.inj (hstart.symm.trans heq)).1 hmark
  · exact absurd (List.cons.inj (hstart.symm.trans heq)).1 hquestion
  · exact absurd (List.cons.inj (hstart.symm.trans heq)).1 hslash
  · rw [hread, ok_bind]
    dsimp only
    rw [tagFrom_write closed rest attributes steps hsteps hattributes, ok_bind]
    rfl

/-- A tag that closes an element is read where it was written. -/
theorem piece_closeTag (hname : isQName name) (steps : Nat) (rest : List Char) :
    piece steps '<' ('/' :: name.toList ++ '>' :: rest) =
      .ok (.closeTag (readName name), rest) := by
  have hread := qname_append hname (by decide : isTagNamePart '>' = false) rest
  unfold piece
  rw [if_pos rfl]
  simp only [List.cons_append]
  rw [hread, ok_bind]
  rfl

/-- Is this the content that a comment can have? -/
def isCommentText (cs : List Char) : Bool :=
  cs.all isXmlChar && !Text.containsList ['-', '-'] cs && cs.getLast? != some '-'

/-- The end of a comment is found where it was written. -/
theorem upTo_comment (rest : List Char) : ∀ (cs done : List Char),
    Text.containsList ['-', '-'] cs = false →
    upTo ['-', '-', '>'] done (cs ++ '-' :: '-' :: '>' :: rest) =
      .ok (done.reverse ++ cs, rest) := by
  intro cs
  induction cs with
  | nil =>
    intro done _
    rw [List.append_nil]
    rfl
  | cons c cs ih =>
    intro done htwo
    rw [Text.containsList, Bool.or_eq_false_iff] at htwo
    obtain ⟨hhere, hlater⟩ := htwo
    have hprefix : ['-', '-', '>'].isPrefixOf (c :: (cs ++ '-' :: '-' :: '>' :: rest)) = false := by
      cases cs with
      | nil => simp [List.isPrefixOf]
      | cons b bs =>
        simp only [List.isPrefixOf, Bool.and_true] at hhere
        simp only [List.cons_append, List.isPrefixOf]
        rw [← Bool.and_assoc, hhere, Bool.false_and]
    rw [List.cons_append, upTo, hprefix, if_neg Bool.false_ne_true, ih (c :: done) hlater,
      List.reverse_cons, List.append_assoc]
    rfl

/-- A comment is read where it was written. -/
theorem piece_comment {content : String} (h : isCommentText content.toList) (steps : Nat)
    (rest : List Char) :
    piece steps '<' ('!' :: '-' :: '-' :: content.toList ++ '-' :: '-' :: '>' :: rest) =
      .ok (.comment content, rest) := by
  simp only [isCommentText, Bool.and_eq_true, Bool.not_eq_true', bne_iff_ne] at h
  obtain ⟨⟨-, htwo⟩, hlast⟩ := h
  unfold piece
  rw [if_pos rfl]
  simp only [List.cons_append]
  rw [commentFrom, upTo_comment rest _ [] htwo, ok_bind]
  dsimp only
  rw [List.reverse_nil, List.nil_append, htwo, Bool.false_or, if_neg (by simpa using hlast),
    String.ofList_toList]
  rfl

/-- A text without the end of markup holds no end of a section. -/
theorem containsList_section {cs : List Char} (h : ∀ c ∈ cs, c ≠ '>') :
    Text.containsList [']', ']', '>'] cs = false := by
  induction cs with
  | nil => rfl
  | cons c cs ih =>
    rw [Text.containsList, Bool.or_eq_false_iff]
    refine ⟨Bool.eq_false_iff.mpr fun hprefix => ?_, ih fun c hc => h c (List.mem_cons_of_mem _ hc)⟩
    have hmem := (List.isPrefixOf_iff_prefix.mp hprefix).subset
    exact h '>' (hmem (by decide)) rfl

/-- A text is read up to the markup behind it. -/
theorem piece_text {cs : List Char} (hcs : cs ≠ []) (h : ∀ c ∈ cs, c ≠ '<' ∧ c ≠ '>')
    {rest : List Char} (hrest : rest.head? = none ∨ rest.head? = some '<') (steps : Nat) :
    ∃ c cs', cs ++ rest = c :: cs' ∧ piece steps c cs' = .ok (.text cs, rest) := by
  obtain ⟨c, cs', rfl⟩ := List.exists_cons_of_ne_nil hcs
  have hinside : ∀ b ∈ c :: cs', (b != '<') = true := by
    intro b hb
    simp [(h b hb).1]
  have houtside : rest.takeWhile (· != '<') = [] ∧ rest.dropWhile (· != '<') = rest := by
    cases rest with
    | nil => exact ⟨rfl, rfl⟩
    | cons b bs =>
      have hb : b = '<' := by simpa using hrest
      rw [hb]
      exact ⟨rfl, rfl⟩
  refine ⟨c, cs' ++ rest, rfl, ?_⟩
  have htake : (c :: (cs' ++ rest)).takeWhile (· != '<') = c :: cs' := by
    rw [← List.cons_append, List.takeWhile_append_of_pos hinside, houtside.1, List.append_nil]
  have hdrop : (c :: (cs' ++ rest)).dropWhile (· != '<') = rest := by
    rw [← List.cons_append, List.dropWhile_append_of_pos hinside, houtside.2]
  unfold piece
  rw [if_neg (h c List.mem_cons_self).1]
  dsimp only
  rw [htake, hdrop, containsList_section fun b hb => (h b hb).2]
  rfl

end PatchScript.Xml
