import PatchScript.Proofs.Xml.Resolving

/-!
# What is written badly is not read

A name can be valid and yet be no name of XML: there are letters that XML does not take, and there
may be a colon too many.  A reader does not get past such a name, because it goes on with a
character that stands in valid names only, where a tag has to go on with a space or to end.  Nor
does it get past a comment with a hyphen at its end.

So what is written for a tree is cut into pieces only if the tree is readable
(`isReadable_of_piecesFrom`, `Tree.readable_of_stretches`).
-/

namespace PatchScript.Xml

variable {name : String}

/-! ## Names -/

/-- What can stand in a valid name is no space and no mark of a tag. -/
theorem ne_of_isNamePart {c : Char} (h : isNamePart c) :
    isSpace c = false ∧ c ≠ '/' ∧ c ≠ '>' ∧ c ≠ '=' := by
  refine ⟨Bool.eq_false_iff.mpr fun hspace => ?_, ?_, ?_, ?_⟩
  · simp only [isSpace, Bool.or_eq_true, beq_iff_eq] at hspace
    rcases hspace with ((rfl | rfl) | rfl) | rfl <;> revert h <;> decide
  all_goals
    rintro rfl
    revert h
    decide

/-- A valid name starts with none of the characters that follow the start of other markup. -/
theorem ne_of_isNameStart {c : Char} (h : isNameStart c) : c ≠ '!' ∧ c ≠ '?' ∧ c ≠ '/' := by
  refine ⟨?_, ?_, ?_⟩
  all_goals
    rintro rfl
    revert h
    decide

theorem isNamePart_of_isNameStart {c : Char} (h : isNameStart c) : isNamePart c := by
  have halphanumeric : Text.isAlphabetic c → Text.isAlphanumeric c := by
    rw [Text.isAlphabetic, Text.isAlphanumeric]
    split
    · intro halpha
      rw [Char.isAlphanum, halpha, Bool.true_or]
    · intro halpha
      rw [halpha, Bool.true_or]
  simp only [isNameStart, isNamePart, Bool.or_eq_true] at h ⊢
  rcases h with (h | h) | h
  · exact .inl (.inl (.inl (.inl (halphanumeric h))))
  · exact .inl (.inl (.inl (.inr h)))
  · exact .inl (.inl (.inr h))

theorem exists_cons_of_isValidName (h : isValidName name) : ∃ c cs, name.toList = c :: cs ∧
    isNameStart c ∧ ∀ b ∈ name.toList, isNamePart b := by
  rw [isValidName] at h
  split at h
  · cases h
  · rename_i c cs hcs
    rw [Bool.and_eq_true, List.all_eq_true] at h
    refine ⟨c, cs, hcs, h.1, ?_⟩
    rw [hcs]
    exact List.forall_mem_cons.mpr ⟨isNamePart_of_isNameStart h.1, h.2⟩

/-- If something is read at a valid name, it is a name of XML, or what follows goes on with a
character of a valid name. -/
theorem isQName_or_stuck (hvalid : isValidName name) {c : Char} (hc : isTagNamePart c = false)
    {rest behind : List Char} {q : QName} (h : qname (name.toList ++ c :: rest) = .ok (q, behind)) :
    isQName name ∨ ∃ b bs, behind = b :: bs ∧ isNamePart b := by
  cases hdrop : name.toList.dropWhile isTagNamePart with
  | nil =>
    have hall := List.dropWhile_eq_nil_iff.mp hdrop
    have hname := qname_of_takeWhile (takeWhile_name hall hc rest).symm h
    rw [hdrop] at hname
    rw [isQName, hname]
    exact .inl rfl
  | cons b bs =>
    have hb : b ∈ name.toList := by
      refine (List.dropWhile_suffix isTagNamePart).subset ?_
      rw [hdrop]
      exact List.mem_cons_self
    obtain ⟨-, -, -, -, hparts⟩ := exists_cons_of_isValidName hvalid
    refine .inr ⟨b, bs ++ c :: rest, ?_, hparts b hb⟩
    rw [qname_rest h, List.dropWhile_append, hdrop]
    rfl

/-! ## Tags -/

/-- Where a tag goes on with a character of a name, a reader does not get on. -/
theorem tagFrom_stuck {b : Char} (hb : isNamePart b) (steps : Nat) (bs : List Char)
    {r : (List (QName × String) × Bool) × List Char} : tagFrom steps (b :: bs) ≠ .ok r := by
  obtain ⟨hspace, hslash, hend, -⟩ := ne_of_isNamePart hb
  cases steps with
  | zero =>
    intro h
    cases h
  | succ n =>
    have hdrop : (b :: bs).dropWhile isSpace = b :: bs :=
      List.dropWhile_cons_of_neg (by simp [hspace])
    have hfirst : ¬((b :: bs).take 1).all isSpace = true := by simp [hspace]
    rw [tagFrom, hdrop]
    split
    · rename_i heq
      exact absurd (List.cons.inj heq).1 hslash
    · rename_i heq
      exact absurd (List.cons.inj heq).1 hend
    · rw [if_neg hfirst]
      intro h
      cases h

/-- An attribute is read only if its name is a name of XML. -/
theorem isQName_of_attribute (hvalid : isValidName name) {rest : List Char}
    {r : (QName × List Char) × List Char}
    (h : attribute? (name.toList ++ '=' :: rest) = .ok r) : isQName name := by
  obtain ⟨⟨q, behind⟩, hname, h⟩ := bind_eq_ok h
  obtain ⟨behind', hequals, h⟩ := bind_eq_ok h
  rcases isQName_or_stuck hvalid (by decide) hname with hq | ⟨b, bs, rfl, hb⟩
  · exact hq
  · obtain ⟨hspace, -, -, hsign⟩ := ne_of_isNamePart hb
    rw [equals, List.dropWhile_cons_of_neg (by simp [hspace])] at hequals
    split at hequals
    · rename_i heq
      exact absurd (List.cons.inj heq).1 hsign
    · cases hequals

/-- The attributes of a tag are read only if their names are names of XML. -/
theorem isQName_of_tagFrom {rest : List Char} : ∀ {attributes : Attributes} {steps : Nat}
    {r : (List (QName × String) × Bool) × List Char}, (∀ a ∈ attributes, isValidName a.1) →
    tagFrom steps (attributes.flatMap writeAttribute ++ rest) = .ok r →
    ∀ a ∈ attributes, isQName a.1 := by
  intro attributes
  induction attributes with
  | nil => exact fun _ _ _ ha => absurd ha List.not_mem_nil
  | cons a attributes ih =>
    intro steps r hvalid h
    obtain ⟨ha, hrest⟩ := List.forall_mem_cons.mp hvalid
    let behind := attributes.flatMap writeAttribute ++ rest
    let value := '"' :: escapeValue a.2 ++ '"' :: behind
    have hwritten : (a :: attributes).flatMap writeAttribute ++ rest =
        ' ' :: (a.1.toList ++ '=' :: value) := by
      simp only [List.flatMap_cons, writeAttribute, List.append_assoc, List.cons_append,
        List.nil_append, value, behind]
    obtain ⟨c, cs, hc, hstart, -⟩ := exists_cons_of_isValidName ha
    obtain ⟨hspace, hslash, hend, -⟩ := ne_of_isNamePart (isNamePart_of_isNameStart hstart)
    have hinner : a.1.toList ++ '=' :: value = c :: (cs ++ '=' :: value) := by
      rw [hc, List.cons_append]
    cases steps with
    | zero => cases h
    | succ n =>
      rw [hwritten, hinner, tagFrom_attribute hspace hslash hend, ← hinner] at h
      obtain ⟨⟨⟨q, raw⟩, behind'⟩, hattribute, h⟩ := bind_eq_ok h
      have hname := isQName_of_attribute ha hattribute
      have hread : attribute? (a.1.toList ++ '=' :: value) =
          .ok ((readName a.1, escapeValue a.2), behind) := by
        rw [← attribute_write hname a.2 behind]
        simp only [value, List.cons_append, List.append_assoc]
      rw [hread] at hattribute
      cases hattribute
      obtain ⟨value', -, h⟩ := bind_eq_ok h
      obtain ⟨tag, htag, -⟩ := bind_eq_ok h
      exact List.forall_mem_cons.mpr ⟨hname, ih hrest htag⟩

/-- A tag that opens an element is read only if its names are names of XML. -/
theorem isQName_of_openTag (hvalid : isValidName name) {attributes : Attributes}
    (hattributes : ∀ a ∈ attributes, isValidName a.1) {closed : Bool} {steps : Nat}
    {rest : List Char} {r : Piece × List Char}
    (h : piece steps '<'
      (name.toList ++ (attributes.flatMap writeAttribute ++ (tagEnd closed ++ rest))) = .ok r) :
    isQName name ∧ ∀ a ∈ attributes, isQName a.1 := by
  let behind := attributes.flatMap writeAttribute ++ (tagEnd closed ++ rest)
  obtain ⟨c, cs, hbehind, hc⟩ := exists_cons_behind_name attributes closed rest
  obtain ⟨n, ns, hn, hstart, -⟩ := exists_cons_of_isValidName hvalid
  obtain ⟨hmark, hquestion, hslash⟩ := ne_of_isNameStart hstart
  have hfirst : name.toList ++ behind = n :: (ns ++ behind) := by rw [hn, List.cons_append]
  unfold piece at h
  rw [if_pos rfl] at h
  split at h
  · rename_i heq
    exact absurd (List.cons.inj (hfirst.symm.trans heq)).1 hmark
  · rename_i heq
    exact absurd (List.cons.inj (hfirst.symm.trans heq)).1 hmark
  · rename_i heq
    exact absurd (List.cons.inj (hfirst.symm.trans heq)).1 hmark
  · rename_i heq
    exact absurd (List.cons.inj (hfirst.symm.trans heq)).1 hquestion
  · rename_i heq
    exact absurd (List.cons.inj (hfirst.symm.trans heq)).1 hslash
  · obtain ⟨⟨q, behind'⟩, hname, h⟩ := bind_eq_ok h
    obtain ⟨tag, htag, -⟩ := bind_eq_ok h
    rw [hbehind] at hname
    rcases isQName_or_stuck hvalid hc hname with hq | ⟨b, bs, rfl, hb⟩
    · rw [qname_append hq hc] at hname
      cases hname
      rw [← hbehind] at htag
      exact ⟨hq, isQName_of_tagFrom hattributes htag⟩
    · exact absurd htag (tagFrom_stuck hb steps bs)

/-- A tag that closes an element is read only if its name is a name of XML. -/
theorem isQName_of_closeTag (hvalid : isValidName name) {steps : Nat} {rest : List Char}
    {r : Piece × List Char}
    (h : piece steps '<' ('/' :: name.toList ++ '>' :: rest) = .ok r) : isQName name := by
  unfold piece at h
  rw [if_pos rfl] at h
  simp only [List.cons_append] at h
  obtain ⟨⟨q, behind⟩, hname, h⟩ := bind_eq_ok h
  rcases isQName_or_stuck hvalid (by decide) hname with hq | ⟨b, bs, rfl, hb⟩
  · exact hq
  · obtain ⟨hspace, -, hend, -⟩ := ne_of_isNamePart hb
    dsimp only at h
    rw [List.dropWhile_cons_of_neg (by simp [hspace])] at h
    split at h
    · rename_i heq
      exact absurd (List.cons.inj heq).1 hend
    · cases h

/-! ## Stretches -/

namespace Stretch

/-- A text consists of characters of XML if what is written for it does, and a piece of markup is
read only as what was written. -/
def IsHonest : Stretch → Prop
  | .text cs => (cs.flatMap escapeTextChar).all isXmlChar → cs.all isXmlChar
  | .markup p cs => ∀ steps rest r, cs.all isXmlChar → piece (steps + 1) '<' (cs ++ rest) = .ok r →
    (Stretch.markup p cs).IsReadable

theorem IsReadable.isHonest {s : Stretch} (h : s.IsReadable) : s.IsHonest := by
  cases s with
  | text => exact fun _ => h
  | markup => exact fun _ _ _ _ _ => h

end Stretch

/-- What is read behind a text is read without it. -/
theorem piecesFrom_behind_text {rest : List Char}
    (hrest : rest.head? = none ∨ rest.head? = some '<') (pending : List Char) {n k : Nat}
    (hn : (pending.flatMap escapeTextChar).length + k ≤ n) {done ps : List Piece}
    (h : piecesFrom n done (pending.flatMap escapeTextChar ++ rest) = .ok ps) :
    ∃ m done', k ≤ m ∧ piecesFrom m done' rest = .ok ps := by
  cases pending with
  | nil => exact ⟨n, done, by simpa using hn, h⟩
  | cons c cs =>
    have hne : (c :: cs).flatMap escapeTextChar ≠ [] := by
      rw [List.flatMap_cons]
      exact List.append_ne_nil_of_left_ne_nil (escapeTextChar_ne_nil c) _
    have hlength := List.length_pos_iff.mpr hne
    obtain ⟨b, bs, hcons, hpiece⟩ := piece_text hne (fun _ hb => ne_of_mem_escapedText hb) hrest n
    cases n with
    | zero => exact absurd hn (by omega)
    | succ m =>
      rw [hcons, piecesFrom] at h
      rw [hpiece, ok_bind] at h
      exact ⟨m, _, by omega, h⟩

/-- If what is written for honest stretches is cut into pieces at all, the stretches are
readable. -/
theorem isReadable_of_piecesFrom : ∀ {ss : List Stretch}, (∀ s ∈ ss, s.IsHonest) →
    (ss.flatMap Stretch.chars).all isXmlChar → ∀ (pending : List Char) {n : Nat}
    {done ps : List Piece},
    (pending.flatMap escapeTextChar ++ ss.flatMap Stretch.chars).length ≤ n →
    piecesFrom n done (pending.flatMap escapeTextChar ++ ss.flatMap Stretch.chars) = .ok ps →
    ∀ s ∈ ss, s.IsReadable := by
  intro ss
  induction ss with
  | nil => exact fun _ _ _ _ _ _ _ _ s hs => absurd hs List.not_mem_nil
  | cons s ss ih =>
    intro hhonest hall pending n done ps hn h
    obtain ⟨hs, hss⟩ := List.forall_mem_cons.mp hhonest
    rw [List.flatMap_cons, List.all_append, Bool.and_eq_true] at hall
    cases s with
    | text cs =>
      have hjoin : pending.flatMap escapeTextChar ++ (Stretch.text cs :: ss).flatMap Stretch.chars
          = (pending ++ cs).flatMap escapeTextChar ++ ss.flatMap Stretch.chars := by
        simp only [List.flatMap_cons, Stretch.chars, List.flatMap_append, List.append_assoc]
      rw [hjoin] at hn h
      exact List.forall_mem_cons.mpr ⟨hs hall.1, ih hss hall.2 (pending ++ cs) hn h⟩
    | markup p cs =>
      let rest := ss.flatMap Stretch.chars
      have hwritten : (Stretch.markup p cs :: ss).flatMap Stretch.chars = '<' :: (cs ++ rest) := by
        simp only [List.flatMap_cons, Stretch.chars, List.cons_append, rest]
      rw [hwritten] at hn h
      have hlength :
          (pending.flatMap escapeTextChar).length + (cs.length + 1 + rest.length) ≤ n := by
        simp only [List.length_append, List.length_cons] at hn
        omega
      obtain ⟨m, done', hm, h⟩ := piecesFrom_behind_text (.inr rfl) pending hlength h
      cases m with
      | zero => exact absurd hm (by omega)
      | succ k =>
        obtain ⟨⟨p', rest'⟩, hpiece, h⟩ := bind_eq_ok h
        have hcs : cs.all isXmlChar := by
          have hchars := hall.1
          rw [Stretch.chars, List.all_cons, Bool.and_eq_true] at hchars
          exact hchars.2
        have hreadable := hs k rest _ hcs hpiece
        rw [hreadable.2 k rest (by omega)] at hpiece
        cases hpiece
        refine List.forall_mem_cons.mpr ⟨hreadable, ih hss hall.2 [] ?_ h⟩
        show rest.length ≤ k
        omega

/-! ## Characters -/

/-- The characters of a text that are not written as they are belong to XML. -/
theorem isXmlChar_or_escapeTextChar (c : Char) : isXmlChar c ∨ escapeTextChar c = [c] := by
  by_cases h : c ∈ ['&', '<', '>']
  · have hall : ['&', '<', '>'].all isXmlChar := by decide
    exact .inl (List.all_eq_true.mp hall c h)
  · simp only [List.mem_cons, List.not_mem_nil, or_false, not_or] at h
    exact .inr (by simp [escapeTextChar, h])

/-- The characters of a value that are not written as they are belong to XML. -/
theorem isXmlChar_or_escapeValueChar (c : Char) : isXmlChar c ∨ escapeValueChar c = [c] := by
  by_cases h : c ∈ ['"', '\n', '\r', '\t', '&', '<', '>']
  · have hall : ['"', '\n', '\r', '\t', '&', '<', '>'].all isXmlChar := by decide
    exact .inl (List.all_eq_true.mp hall c h)
  · simp only [List.mem_cons, List.not_mem_nil, or_false, not_or] at h
    exact .inr (by simp [escapeValueChar, escapeTextChar, h])

/-- Characters that are written as they are, or belong to XML, are those of XML if what is written
for them is. -/
theorem all_isXmlChar_of_escaped {escape : Char → List Char}
    (hescape : ∀ c, isXmlChar c ∨ escape c = [c]) {cs : List Char}
    (h : (cs.flatMap escape).all isXmlChar) : cs.all isXmlChar := by
  rw [List.all_flatMap, List.all_eq_true] at h
  refine List.all_eq_true.mpr fun c hc => ?_
  rcases hescape c with hchar | hsame
  · exact hchar
  · have hc := h c hc
    rwa [hsame, List.all_cons, List.all_nil, Bool.and_true] at hc

/-- A value consists of characters of XML if what is written for it does. -/
theorem all_isXmlChar_of_escapedValue {s : String} (h : (escapeValue s).all isXmlChar) :
    s.toList.all isXmlChar := all_isXmlChar_of_escaped isXmlChar_or_escapeValueChar h

/-! ## Texts and comments -/

theorem isHonest_text (cs : List Char) : (Stretch.text cs).IsHonest :=
  all_isXmlChar_of_escaped isXmlChar_or_escapeTextChar

/-- A comment is read only if no hyphen stands at its end. -/
theorem isCommentText_of_piece {content : String}
    (htwo : Text.containsList ['-', '-'] content.toList = false)
    (hall : content.toList.all isXmlChar) {steps : Nat} {rest : List Char} {r : Piece × List Char}
    (h : piece steps '<' ('!' :: '-' :: '-' :: content.toList ++ '-' :: '-' :: '>' :: rest) =
      .ok r) : isCommentText content.toList := by
  unfold piece at h
  rw [if_pos rfl] at h
  simp only [List.cons_append] at h
  rw [commentFrom, upTo_comment rest _ [] htwo, ok_bind] at h
  dsimp only at h
  rw [List.reverse_nil, List.nil_append, htwo, Bool.false_or] at h
  split at h
  · cases h
  · rename_i hlast
    rw [isCommentText, hall, htwo]
    simpa using hlast

theorem isHonest_comment {content : String}
    (htwo : Text.containsList ['-', '-'] content.toList = false) :
    (Stretch.markup (.comment content)
      ('!' :: '-' :: '-' :: content.toList ++ ['-', '-', '>'])).IsHonest := by
  intro steps rest r hall h
  simp only [List.cons_append, List.all_cons, List.all_append, Bool.and_eq_true] at hall
  rw [List.append_assoc] at h
  exact isReadable_comment (isCommentText_of_piece htwo hall.2.2.2.1 h)

/-- A comment that is read where it was written can stand in a document. -/
theorem isCommentText_of_isReadable {content : String}
    (htwo : Text.containsList ['-', '-'] content.toList = false)
    (h : (Stretch.markup (.comment content)
      ('!' :: '-' :: '-' :: content.toList ++ ['-', '-', '>'])).IsReadable) :
    isCommentText content.toList := by
  have hall := h.1
  have hread := h.2 _ [] (Nat.le_refl _)
  simp only [List.cons_append, List.all_cons, List.all_append, Bool.and_eq_true] at hall
  rw [List.append_assoc] at hread
  exact isCommentText_of_piece htwo hall.2.2.2.1 hread

/-! ## Trees -/

section

variable {attributes : Attributes}

theorem all_isXmlChar_of_openTag {closed : Bool}
    (h : (name.toList ++ attributes.flatMap writeAttribute ++ tagEnd closed).all isXmlChar) :
    ∀ a ∈ attributes, a.2.toList.all isXmlChar := by
  simp only [List.all_append, Bool.and_eq_true, List.all_flatMap] at h
  intro a ha
  have hwritten := List.all_eq_true.mp h.1.2 a ha
  simp only [writeAttribute, List.all_append, List.all_cons, List.cons_append,
    Bool.and_eq_true] at hwritten
  exact all_isXmlChar_of_escapedValue hwritten.2.1.2.2.2

theorem isHonest_openTag (hname : isValidName name)
    (hattributes : ∀ a ∈ attributes, isValidName a.1) (closed : Bool) :
    (Stretch.markup (.openTag (tagOf name attributes) closed)
      (name.toList ++ attributes.flatMap writeAttribute ++ tagEnd closed)).IsHonest := by
  intro steps rest r hall h
  rw [List.append_assoc, List.append_assoc] at h
  obtain ⟨hq, hqs⟩ := isQName_of_openTag hname hattributes h
  exact isReadable_openTag hq (fun a ha => ⟨hqs a ha, all_isXmlChar_of_openTag hall a ha⟩) closed

theorem isHonest_closeTag (hname : isValidName name) :
    (Stretch.markup (.closeTag (readName name)) ('/' :: name.toList ++ ['>'])).IsHonest := by
  intro steps rest r _ h
  rw [List.append_assoc] at h
  exact isReadable_closeTag (isQName_of_closeTag hname h)

/-- A tag that is read where it was written has names of XML and values of its characters. -/
theorem readable_of_isReadable {closed : Bool} (hname : isValidName name)
    (hattributes : ∀ a ∈ attributes, isValidName a.1)
    (h : (Stretch.markup (.openTag (tagOf name attributes) closed)
      (name.toList ++ attributes.flatMap writeAttribute ++ tagEnd closed)).IsReadable) :
    isQName name ∧ ∀ a ∈ attributes, isQName a.1 ∧ a.2.toList.all isXmlChar := by
  have hread := h.2 _ [] (Nat.le_refl _)
  simp only [List.append_assoc] at hread
  obtain ⟨hq, hqs⟩ := isQName_of_openTag hname hattributes hread
  exact ⟨hq, fun a ha => ⟨hqs a ha, all_isXmlChar_of_openTag h.1 a ha⟩⟩

end

mutual

theorem Tree.isHonest (depth : Nat) (inline : Bool) : ∀ t : Tree, t.Unbroken → t.HasValidNames →
    ∀ s ∈ t.stretches depth inline, s.IsHonest
  | .document _, h, _ => h.elim
  | .text content, _, _ => List.forall_mem_singleton.mpr (isHonest_text content.toList)
  | .comment content, h, _ => by
    rw [Tree.stretches, List.forall_mem_cons, List.forall_mem_singleton]
    exact ⟨(isReadable_margin depth inline).isHonest, isHonest_comment h⟩
  | .element name attributes children, h, hnames => by
    obtain ⟨hname, hattributes, hvalid⟩ := hnames
    have hmargin := (isReadable_margin depth inline).isHonest
    rw [Tree.stretches]
    split
    · rw [List.forall_mem_cons, List.forall_mem_singleton]
      exact ⟨hmargin, isHonest_openTag hname hattributes true⟩
    · rw [List.cons_append, List.cons_append, List.forall_mem_cons, List.forall_mem_cons,
        List.forall_mem_append, List.forall_mem_singleton]
      refine ⟨hmargin, isHonest_openTag hname hattributes false, ?_, isHonest_closeTag hname⟩
      split
      · exact isHonest_inline 0 true children h hvalid
      · rw [List.forall_mem_append, List.forall_mem_singleton]
        exact ⟨isHonest_lines (depth + 1) children h hvalid,
          (isReadable_lineEnd depth inline).isHonest⟩

theorem isHonest_inline (depth : Nat) (inline : Bool) : ∀ ts : List Tree, AllUnbroken ts →
    HaveValidNames ts → ∀ s ∈ inlineStretches depth inline ts, s.IsHonest
  | [], _, _ => fun _ hs => absurd hs List.not_mem_nil
  | t :: ts, h, hnames => by
    rw [inlineStretches, List.forall_mem_append]
    exact ⟨Tree.isHonest depth inline t h.1 hnames.1,
      isHonest_inline depth inline ts h.2 hnames.2⟩

theorem isHonest_lines (depth : Nat) : ∀ ts : List Tree, AllUnbroken ts → HaveValidNames ts →
    ∀ s ∈ lineStretches depth ts, s.IsHonest
  | [], _, _ => fun _ hs => absurd hs List.not_mem_nil
  | t :: ts, h, hnames => by
    rw [lineStretches, List.cons_append, List.forall_mem_cons, List.forall_mem_append]
    exact ⟨(isReadable_lineEnd 0 true).isHonest, Tree.isHonest depth false t h.1 hnames.1,
      isHonest_lines depth ts h.2 hnames.2⟩

end

mutual

theorem Tree.readable_of_stretches (depth : Nat) (inline : Bool) : ∀ t : Tree, t.Unbroken →
    t.HasValidNames → (∀ s ∈ t.stretches depth inline, s.IsReadable) → t.Readable
  | .document _, h, _, _ => h.elim
  | .text content, _, _, hread => hread (.text content.toList) List.mem_cons_self
  | .comment _, h, _, hread => by
    rw [Tree.stretches, List.forall_mem_cons, List.forall_mem_singleton] at hread
    exact isCommentText_of_isReadable h hread.2
  | .element name attributes children, h, hnames, hread => by
    obtain ⟨hname, hattributes, hvalid⟩ := hnames
    rw [Tree.stretches] at hread
    split at hread
    · rename_i hempty
      rw [List.forall_mem_cons, List.forall_mem_singleton] at hread
      obtain ⟨hq, hqs⟩ := readable_of_isReadable hname hattributes hread.2
      refine ⟨hq, hqs, ?_⟩
      rw [List.isEmpty_iff.mp hempty]
      trivial
    · rw [List.cons_append, List.cons_append, List.forall_mem_cons, List.forall_mem_cons,
        List.forall_mem_append] at hread
      obtain ⟨-, htag, hcontent, -⟩ := hread
      obtain ⟨hq, hqs⟩ := readable_of_isReadable hname hattributes htag
      refine ⟨hq, hqs, ?_⟩
      split at hcontent
      · exact readable_of_inline 0 true children h hvalid hcontent
      · rw [List.forall_mem_append] at hcontent
        exact readable_of_lines (depth + 1) children h hvalid hcontent.1

theorem readable_of_inline (depth : Nat) (inline : Bool) : ∀ ts : List Tree, AllUnbroken ts →
    HaveValidNames ts → (∀ s ∈ inlineStretches depth inline ts, s.IsReadable) → ReadableAll ts
  | [], _, _, _ => trivial
  | t :: ts, h, hnames, hread => by
    rw [inlineStretches, List.forall_mem_append] at hread
    exact ⟨Tree.readable_of_stretches depth inline t h.1 hnames.1 hread.1,
      readable_of_inline depth inline ts h.2 hnames.2 hread.2⟩

theorem readable_of_lines (depth : Nat) : ∀ ts : List Tree, AllUnbroken ts → HaveValidNames ts →
    (∀ s ∈ lineStretches depth ts, s.IsReadable) → ReadableAll ts
  | [], _, _, _ => trivial
  | t :: ts, h, hnames, hread => by
    rw [lineStretches, List.cons_append, List.forall_mem_cons, List.forall_mem_append] at hread
    exact ⟨Tree.readable_of_stretches depth false t h.1 hnames.1 hread.2.1,
      readable_of_lines depth ts h.2 hnames.2 hread.2.2⟩

end

end PatchScript.Xml
