import PatchScript.Proofs.Xml.Stretches

/-!
# The pieces of a written tree nest to the tree

The pieces that are cut from what is written for a tree are nested to the same elements again,
with the same names, values and comments.  Between them there are texts: those of the tree,
where texts that stand next to each other have become one, and the blanks that were written
between the lines.
-/

namespace PatchScript.Xml

/-! ## What is nested -/

/-- The text that characters are read as, if there are any. -/
def textRaw (cs : List Char) : List Raw := if cs.isEmpty then [] else [.text (asRead cs)]

mutual

/-- What a reader makes of what is written for an element or a comment. -/
def Tree.raw (depth : Nat) (inline : Bool) : Tree → Raw
  | .document _ | .text _ => .instruction
  | .comment content => .comment content
  | .element name attributes children =>
    .element (tagOf name attributes)
      (if children.isEmpty then []
        else if inline || children.any Tree.isText then inlineRaws [] children
        else lineRaws (depth + 1) children ++ textRaw ('\n' :: margin depth inline))

/-- What a reader makes of trees one behind the other, and of the characters of texts that
stand before them. -/
def inlineRaws (pending : List Char) : List Tree → List Raw
  | [] => textRaw pending
  | .text content :: ts => inlineRaws (pending ++ content.toList) ts
  | t :: ts => textRaw pending ++ t.raw 0 true :: inlineRaws [] ts

/-- What a reader makes of trees on a line each. -/
def lineRaws (depth : Nat) : List Tree → List Raw
  | [] => []
  | t :: ts => textRaw ('\n' :: margin depth false) ++ t.raw depth false :: lineRaws depth ts

end

theorem exists_of_isText {t : Tree} (h : t.isText) : ∃ content, t = .text content := by
  cases t with
  | text content => exact ⟨content, rfl⟩
  | document | comment | element => cases h

theorem inlineRaws_cons {t : Tree} (ht : t.isText = false) (pending : List Char) (ts : List Tree) :
    inlineRaws pending (t :: ts) = textRaw pending ++ t.raw 0 true :: inlineRaws [] ts := by
  cases t with
  | text => cases ht
  | document | comment | element => rfl

/-! ## Adding to an open element -/

namespace OpenElement

/-- The element with more children behind those so far. -/
def extend (e : OpenElement) (rs : List Raw) : OpenElement :=
  { e with children := rs.reverse ++ e.children }

theorem extend_extend (e : OpenElement) (rs rs' : List Raw) :
    (e.extend rs).extend rs' = e.extend (rs ++ rs') := by
  rw [extend, extend, extend, List.reverse_append, List.append_assoc]

/-- A text that is added is a child of its own. -/
def Ready (e : OpenElement) : Prop := ∀ content rest, e.children ≠ .text content :: rest

theorem Ready.add_text {e : OpenElement} (h : e.Ready) (content : String) :
    e.add (.text content) = e.extend [.text content] := by
  unfold add
  split
  · rename_i hchildren
    exact absurd hchildren (h _ _)
  · rfl

theorem add_comment (e : OpenElement) (content : String) :
    e.add (.comment content) = e.extend [.comment content] := rfl

theorem add_element (e : OpenElement) (tag : Tag) (children : List Raw) :
    e.add (.element tag children) = e.extend [.element tag children] := rfl

theorem ready_new (tag : Tag) : Ready ⟨tag, []⟩ := fun _ _ h => by cases h

/-- Behind an element or a comment, a text is a child of its own. -/
theorem ready_extend (e : OpenElement) (rs : List Raw) (depth : Nat) (inline : Bool) (t : Tree) :
    (e.extend (rs ++ [t.raw depth inline])).Ready := by
  intro content rest h
  rw [extend] at h
  dsimp only at h
  rw [List.reverse_append, List.append_assoc] at h
  cases t with
  | document | text | comment | element =>
    rw [Tree.raw] at h
    cases h

end OpenElement

/-! ## Nesting -/

theorem nestFrom_cons (root : Option Raw) (stack : List OpenElement) (p : Piece)
    (ps : List Piece) : nestFrom root stack (p :: ps) = (do
      let (root, stack) ← nestPiece root stack p
      nestFrom root stack ps) := by
  cases root <;> cases stack <;> rfl

/-- A tag closes the element of its name, and the element is handed to the one around it. -/
theorem nestPiece_closeTag (root : Option Raw) (tag : Tag) (contents : List Raw)
    (stack : List OpenElement) :
    nestPiece root ((OpenElement.mk tag []).extend contents :: stack) (.closeTag tag.name) =
      handOver root stack (.element tag contents) := by
  have hclose : ((OpenElement.mk tag []).extend contents).close = .element tag contents := by
    rw [OpenElement.close, OpenElement.extend]
    dsimp only
    rw [List.append_nil, List.reverse_reverse]
  unfold nestPiece
  dsimp only [OpenElement.extend]
  rw [if_pos rfl]
  exact congrArg _ hclose

variable {root : Option Raw} {e : OpenElement} {stack : List OpenElement}

/-- A text is added to the innermost element. -/
theorem nestFrom_textPiece (h : e.Ready) (cs : List Char) (ps : List Piece) :
    nestFrom root (e :: stack) (textPiece cs ++ ps) =
      nestFrom root (e.extend (textRaw cs) :: stack) ps := by
  cases cs with
  | nil => rfl
  | cons c cs =>
    show nestFrom root (e :: stack) (.text ((c :: cs).flatMap escapeTextChar) :: ps) = _
    have hpiece : nestPiece root (e :: stack) (.text ((c :: cs).flatMap escapeTextChar)) =
        .ok (root, e.extend (textRaw (c :: cs)) :: stack) := by
      rw [nestPiece, textOf_escapeText, ok_bind, h.add_text]
      rfl
    rw [nestFrom_cons, hpiece]
    rfl

/-- What has been read before markup is added before it. -/
theorem nestFrom_pending (h : e.Ready) (pending : List Char) (p : Piece) (cs : List Char)
    (ss : List Stretch) :
    nestFrom root (e :: stack) (piecesOf pending (.markup p cs :: ss)) =
      nestFrom root (e.extend (textRaw pending) :: stack) (p :: piecesOf [] ss) :=
  nestFrom_textPiece h pending (p :: piecesOf [] ss)

mutual

theorem nestFrom_tree (depth : Nat) (inline : Bool) : ∀ t : Tree, t.Readable →
    t.isText = false → ∀ (e : OpenElement), e.Ready → ∀ (pending : List Char) (root : Option Raw)
    (stack : List OpenElement) (ss : List Stretch),
    nestFrom root (e :: stack) (piecesOf pending (t.stretches depth inline ++ ss)) =
      nestFrom root
        (e.extend (textRaw (pending ++ margin depth inline) ++ [t.raw depth inline]) :: stack)
        (piecesOf [] ss)
  | .document _, h, _ => h.elim
  | .text _, _, h => by cases h
  | .comment content, _, _ => by
    intro e he pending root stack ss
    rw [Tree.stretches, Tree.raw, List.cons_append, List.cons_append, piecesOf,
      nestFrom_pending he, nestFrom_cons]
    show nestFrom root ((e.extend _).add (.comment content) :: stack) _ = _
    rw [OpenElement.add_comment, OpenElement.extend_extend]
    rfl
  | .element name attributes children, h, _ => by
    intro e he pending root stack ss
    let tag := tagOf name attributes
    let around := e.extend (textRaw (pending ++ margin depth inline))
    obtain ⟨-, -, hchildren⟩ := h
    rw [Tree.stretches, Tree.raw]
    split
    · rw [List.cons_append, List.cons_append, List.nil_append, piecesOf, nestFrom_pending he,
        nestFrom_cons]
      show nestFrom root (around.add (.element tag []) :: stack) _ = _
      rw [OpenElement.add_element, OpenElement.extend_extend]
    · -- The element is open while its content is nested, and closed behind it.
      have hcontent (contents : List Raw) :
          nestFrom root ((OpenElement.mk tag []).extend contents :: around :: stack)
              (.closeTag (readName name) :: piecesOf [] ss) =
            nestFrom root
              (e.extend (textRaw (pending ++ margin depth inline) ++ [.element tag contents])
                :: stack) (piecesOf [] ss) := by
        rw [nestFrom_cons, show readName name = tag.name from rfl, nestPiece_closeTag]
        show nestFrom root (around.add (.element tag contents) :: stack) _ = _
        rw [OpenElement.add_element, OpenElement.extend_extend]
      simp only [List.cons_append, List.append_assoc, List.nil_append]
      rw [piecesOf, nestFrom_pending he, nestFrom_cons]
      show nestFrom root (⟨tag, []⟩ :: around :: stack) _ = _
      split
      · rw [nestFrom_inline children hchildren _ (OpenElement.ready_new tag), hcontent]
      · rename_i hlines
        rw [Bool.not_eq_true, Bool.or_eq_false_iff] at hlines
        rw [List.append_assoc, List.cons_append, List.nil_append,
          nestFrom_lines (depth + 1) children hchildren hlines.2 _ (OpenElement.ready_new tag),
          hcontent]

theorem nestFrom_inline : ∀ ts : List Tree, ReadableAll ts → ∀ (e : OpenElement), e.Ready →
    ∀ (pending : List Char) (root : Option Raw) (stack : List OpenElement) (p : Piece)
    (cs : List Char) (ss : List Stretch),
    nestFrom root (e :: stack)
        (piecesOf pending (inlineStretches 0 true ts ++ .markup p cs :: ss)) =
      nestFrom root (e.extend (inlineRaws pending ts) :: stack) (p :: piecesOf [] ss)
  | [], _ => fun e he pending root stack p cs ss => nestFrom_pending he pending p cs ss
  | t :: ts, h => by
    intro e he pending root stack p cs ss
    cases ht : t.isText with
    | true =>
      obtain ⟨content, rfl⟩ := exists_of_isText ht
      exact nestFrom_inline ts h.2 e he (pending ++ content.toList) root stack p cs ss
    | false =>
      have hmargin : pending ++ margin 0 true = pending := List.append_nil pending
      rw [inlineStretches, List.append_assoc, nestFrom_tree 0 true t h.1 ht e he, hmargin,
        nestFrom_inline ts h.2 _ (OpenElement.ready_extend e _ 0 true t),
        OpenElement.extend_extend, inlineRaws_cons ht, List.append_assoc, List.singleton_append]

theorem nestFrom_lines (depth : Nat) : ∀ ts : List Tree, ReadableAll ts →
    ts.any Tree.isText = false → ∀ (e : OpenElement), e.Ready → ∀ (root : Option Raw)
    (stack : List OpenElement) (pending : List Char) (p : Piece) (cs : List Char)
    (ss : List Stretch),
    nestFrom root (e :: stack)
        (piecesOf [] (lineStretches depth ts ++ .text pending :: .markup p cs :: ss)) =
      nestFrom root (e.extend (lineRaws depth ts ++ textRaw pending) :: stack) (p :: piecesOf [] ss)
  | [], _, _ => fun e he root stack pending p cs ss => nestFrom_pending he pending p cs ss
  | t :: ts, h, hts => by
    intro e he root stack pending p cs ss
    rw [List.any_cons, Bool.or_eq_false_iff] at hts
    rw [lineStretches, List.cons_append, List.cons_append, List.append_assoc, piecesOf]
    rw [nestFrom_tree depth false t h.1 hts.1 e he, List.nil_append,
      nestFrom_lines depth ts h.2 hts.2 _ (OpenElement.ready_extend e _ depth false t),
      OpenElement.extend_extend, lineRaws]
    simp only [List.append_assoc, List.cons_append, List.nil_append]

end

/-! ## The root element -/

variable {name : String} {attributes : Attributes} {children : List Tree}

/-- The pieces of an element nest to the element, which becomes the root. -/
theorem nestFrom_root (h : (Tree.element name attributes children).Readable) (ss : List Stretch) :
    nestFrom none []
        (piecesOf [] ((Tree.element name attributes children).stretches 0 false ++ ss)) =
      nestFrom (some ((Tree.element name attributes children).raw 0 false)) []
        (piecesOf [] ss) := by
  let tag := tagOf name attributes
  obtain ⟨-, -, hchildren⟩ := h
  rw [Tree.stretches, Tree.raw]
  split
  · rw [List.cons_append, List.cons_append, List.nil_append, piecesOf]
    show nestFrom none [] (.openTag tag true :: piecesOf [] ss) = _
    rw [nestFrom_cons]
    rfl
  · have hcontent (contents : List Raw) :
        nestFrom none [(OpenElement.mk tag []).extend contents]
            (.closeTag (readName name) :: piecesOf [] ss) =
          nestFrom (some (.element tag contents)) [] (piecesOf [] ss) := by
      rw [nestFrom_cons, show readName name = tag.name from rfl, nestPiece_closeTag]
      rfl
    simp only [List.cons_append, List.append_assoc, List.nil_append]
    show nestFrom none [⟨tag, []⟩] (piecesOf [] _) = _
    split
    · rw [nestFrom_inline children hchildren _ (OpenElement.ready_new tag), hcontent]
    · rename_i hlines
      rw [Bool.not_eq_true, Bool.or_eq_false_iff] at hlines
      rw [List.append_assoc, List.cons_append, List.nil_append,
        nestFrom_lines 1 children hchildren hlines.2 _ (OpenElement.ready_new tag), hcontent]

/-- The pieces of an element alone nest to the element. -/
theorem nest_stretches (h : (Tree.element name attributes children).Readable) :
    nest (piecesOf [] (topStretches [.element name attributes children])) =
      .ok ((Tree.element name attributes children).raw 0 false) := nestFrom_root h []

/-- What is written for an element starts with its name. -/
theorem exists_write_element {c : Char} {cs : List Char} (hname : name.toList = c :: cs)
    (attributes : Attributes) (children ts : List Tree) : ∃ cs',
      (writeTop (.element name attributes children :: ts)).toList = '<' :: c :: cs' := by
  have hindent : (if false = true then [] else indent 0) = [] := rfl
  rw [toList_writeTop, Tree.write]
  dsimp only
  rw [hindent, hname]
  simp only [List.nil_append, List.cons_append]
  split <;> exact ⟨_, rfl⟩

/-- A source that starts with markup, which is no declaration, is cut from its start. -/
theorem pieces_of_markup {c : Char} {cs : List Char} (hall : ('<' :: c :: cs).all isXmlChar)
    (hc : c ≠ '?') :
    pieces ('<' :: c :: cs) = piecesFrom ('<' :: c :: cs).length [] ('<' :: c :: cs) := by
  unfold pieces
  rw [hall]
  dsimp only
  rw [if_neg (by decide)]
  split
  · rename_i hdeclaration
    split at hdeclaration
    · rename_i hmark
      cases hmark
    · cases hdeclaration
      exact absurd rfl hc
  · split
    · rename_i hmark
      cases hmark
    · rfl

/-- What is written for an element and trees behind it is cut from its start, since no declaration
starts like a name. -/
theorem pieces_of_element {c : Char} {cs : List Char} (hname : name.toList = c :: cs) (hc : c ≠ '?')
    {ts : List Tree}
    (hall : (writeTop (.element name attributes children :: ts)).toList.all isXmlChar) :
    pieces (writeTop (.element name attributes children :: ts)).toList =
      piecesFrom (writeTop (.element name attributes children :: ts)).toList.length []
        (writeTop (.element name attributes children :: ts)).toList := by
  obtain ⟨cs', hwritten⟩ := exists_write_element hname attributes children ts
  rw [hwritten] at hall ⊢
  exact pieces_of_markup hall hc

/-- What is written for trees is cut into their pieces, if the first one is an element. -/
theorem pieces_write {ts : List Tree}
    (h : ReadableAll (.element name attributes children :: ts)) :
    pieces (writeTop (.element name attributes children :: ts)).toList =
      .ok (piecesOf [] (topStretches (.element name attributes children :: ts))) := by
  obtain ⟨c, cs, hname, hpart⟩ := exists_cons_of_isQName h.1.1
  have hall : (writeTop (.element name attributes children :: ts)).toList.all isXmlChar := by
    rw [← chars_topStretches, List.all_flatMap, List.all_eq_true]
    exact fun s hs => Stretch.IsReadable.all_isXmlChar (h.isReadable s hs)
  rw [pieces_of_element hname (ne_of_isTagNamePart hpart).2.2.2.2 hall, ← chars_topStretches]
  exact piecesFrom_stretches _ h.isReadable [] _ [] (Nat.le_refl _)

end PatchScript.Xml
