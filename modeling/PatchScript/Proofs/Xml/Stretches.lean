import PatchScript.Proofs.Xml.Cutting

/-!
# Written trees are cut into their pieces

What is written for a tree is a row of stretches: characters of texts, which hold no markup,
and markup, each stretch of which is one piece.  A reader cuts the row into these pieces
again, where texts that stand next to each other are one piece (`piecesFrom_stretches`).
-/

namespace PatchScript.Xml

/-! ## Stretches -/

/-- A stretch of what is written. -/
inductive Stretch where
  /-- A text. -/
  | text (cs : List Char)
  /-- A piece of markup and the characters behind its opening. -/
  | markup (p : Piece) (cs : List Char)

namespace Stretch

/-- What is written. -/
def chars : Stretch → List Char
  | .text cs => cs.flatMap escapeTextChar
  | .markup _ cs => '<' :: cs

/-- All characters are characters of XML, and a piece of markup is read where it was
written. -/
def IsReadable : Stretch → Prop
  | .text cs => cs.all isXmlChar
  | .markup p cs => cs.all isXmlChar ∧ ∀ steps rest, cs.length ≤ steps →
    piece (steps + 1) '<' (cs ++ rest) = .ok (p, rest)

end Stretch

/-- The piece that a text is, if it is not empty. -/
def textPiece (cs : List Char) : List Piece :=
  if cs.isEmpty then [] else [.text (cs.flatMap escapeTextChar)]

/-- The pieces of stretches, behind a text that has been read so far. -/
def piecesOf : (pending : List Char) → List Stretch → List Piece
  | pending, [] => textPiece pending
  | pending, .text cs :: ss => piecesOf (pending ++ cs) ss
  | pending, .markup p _ :: ss => textPiece pending ++ p :: piecesOf [] ss

theorem escapeTextChar_ne_nil (c : Char) : escapeTextChar c ≠ [] := by
  rw [escapeTextChar]
  split
  · exact List.cons_ne_nil _ _
  · split
    · exact List.cons_ne_nil _ _
    · split <;> exact List.cons_ne_nil _ _

/-- A text is cut off before the markup behind it. -/
theorem piecesFrom_textPiece {rest : List Char}
    (hrest : rest.head? = none ∨ rest.head? = some '<') {ps : List Piece} {k : Nat}
    (h : ∀ n done, k ≤ n → piecesFrom n done rest = .ok (done.reverse ++ ps))
    (pending : List Char) (n : Nat) (done : List Piece)
    (hn : (pending.flatMap escapeTextChar).length + k ≤ n) :
    piecesFrom n done (pending.flatMap escapeTextChar ++ rest) =
      .ok (done.reverse ++ (textPiece pending ++ ps)) := by
  cases pending with
  | nil => exact h n done (by simpa using hn)
  | cons c cs =>
    have hne : (c :: cs).flatMap escapeTextChar ≠ [] := by
      rw [List.flatMap_cons]
      exact List.append_ne_nil_of_left_ne_nil (escapeTextChar_ne_nil c) _
    have hlength := List.length_pos_iff.mpr hne
    obtain ⟨b, bs, hcons, hpiece⟩ := piece_text hne (fun _ hb => ne_of_mem_escapedText hb) hrest n
    cases n with
    | zero => exact absurd hn (by omega)
    | succ m =>
      rw [hcons, piecesFrom]
      rw [hpiece, ok_bind]
      dsimp only
      rw [h m _ (by omega), List.reverse_cons, List.append_assoc]
      rfl

/-- What is written is cut into the pieces of its stretches. -/
theorem piecesFrom_stretches : ∀ (ss : List Stretch), (∀ s ∈ ss, s.IsReadable) →
    ∀ (pending : List Char) (n : Nat) (done : List Piece),
    (pending.flatMap escapeTextChar ++ ss.flatMap Stretch.chars).length ≤ n →
    piecesFrom n done (pending.flatMap escapeTextChar ++ ss.flatMap Stretch.chars) =
      .ok (done.reverse ++ piecesOf pending ss) := by
  intro ss
  induction ss with
  | nil =>
    intro _ pending n done hn
    have hend : ∀ n done, 0 ≤ n → piecesFrom n done [] = .ok (done.reverse ++ []) := by
      intro n done _
      rw [List.append_nil, piecesFrom]
    have hread := piecesFrom_textPiece (.inl rfl) hend pending n done (by simpa using hn)
    rw [List.append_nil] at hread
    rw [List.flatMap_nil, List.append_nil]
    exact hread.trans (by rw [piecesOf, List.append_nil])
  | cons s ss ih =>
    intro hcut pending n done hn
    obtain ⟨hs, hss⟩ := List.forall_mem_cons.mp hcut
    cases s with
    | text cs =>
      have hjoin : pending.flatMap escapeTextChar ++ (Stretch.text cs :: ss).flatMap Stretch.chars
          = (pending ++ cs).flatMap escapeTextChar ++ ss.flatMap Stretch.chars := by
        simp only [List.flatMap_cons, Stretch.chars, List.flatMap_append, List.append_assoc]
      rw [hjoin] at hn ⊢
      exact ih hss (pending ++ cs) n done hn
    | markup p cs =>
      have hread : ∀ n done, cs.length + 1 + (ss.flatMap Stretch.chars).length ≤ n →
          piecesFrom n done ('<' :: (cs ++ ss.flatMap Stretch.chars)) =
            .ok (done.reverse ++ (p :: piecesOf [] ss)) := by
        intro n done hn
        cases n with
        | zero => exact absurd hn (by omega)
        | succ m =>
          rw [piecesFrom, hs.2 m _ (by omega), ok_bind]
          dsimp only
          have hrest := ih hss [] m (p :: done)
          rw [List.flatMap_nil, List.nil_append] at hrest
          replace hrest := hrest (by omega)
          rw [hrest, List.reverse_cons, List.append_assoc]
          rfl
      have hlength : (pending.flatMap escapeTextChar).length +
          (cs.length + 1 + (ss.flatMap Stretch.chars).length) ≤ n := by
        simp only [List.flatMap_cons, Stretch.chars, List.length_append, List.length_cons] at hn
        omega
      exact piecesFrom_textPiece (.inr rfl) hread pending n done hlength

/-! ## The stretches of a tree -/

/-- What is written before a tree at some depth. -/
def margin (depth : Nat) (inline : Bool) : List Char := if inline then [] else indent depth

theorem eq_of_mem_margin {c : Char} {depth : Nat} {inline : Bool} (hc : c ∈ margin depth inline) :
    c = ' ' := by
  rw [margin] at hc
  split at hc
  · cases hc
  · exact List.eq_of_mem_replicate hc

/-- The line ends and spaces between trees are blank. -/
theorem isBlankText_margin (depth : Nat) (inline : Bool) :
    isBlankText (String.ofList ('\n' :: margin depth inline)) = true := by
  rw [isBlankText, String.toList_ofList, List.all_cons, Bool.and_eq_true, List.all_eq_true]
  refine ⟨by decide, fun c hc => ?_⟩
  rw [eq_of_mem_margin hc]
  decide

mutual

/-- The stretches that are written for a tree. -/
def Tree.stretches (depth : Nat) (inline : Bool) : Tree → List Stretch
  | .document children => inlineStretches depth inline children
  | .text content => [.text content.toList]
  | .comment content =>
    [.text (margin depth inline),
      .markup (.comment content) ('!' :: '-' :: '-' :: content.toList ++ ['-', '-', '>'])]
  | .element name attributes children =>
    let start := name.toList ++ attributes.flatMap writeAttribute
    if children.isEmpty then
      [.text (margin depth inline),
        .markup (.openTag (tagOf name attributes) true) (start ++ tagEnd true)]
    else
      .text (margin depth inline)
        :: .markup (.openTag (tagOf name attributes) false) (start ++ tagEnd false)
        :: (if inline || children.any Tree.isText then inlineStretches 0 true children
            else lineStretches (depth + 1) children ++ [.text ('\n' :: margin depth inline)])
        ++ [.markup (.closeTag (readName name)) ('/' :: name.toList ++ ['>'])]

/-- The stretches of trees one behind the other. -/
def inlineStretches (depth : Nat) (inline : Bool) : List Tree → List Stretch
  | [] => []
  | t :: ts => t.stretches depth inline ++ inlineStretches depth inline ts

/-- The stretches of trees on a line each. -/
def lineStretches (depth : Nat) : List Tree → List Stretch
  | [] => []
  | t :: ts => .text ['\n'] :: t.stretches depth false ++ lineStretches depth ts

end

theorem escape_margin (depth : Nat) (inline : Bool) :
    (margin depth inline).flatMap escapeTextChar = margin depth inline := by
  rw [margin]
  split
  · rfl
  · rw [indent]
    induction 2 * depth with
    | zero => rfl
    | succ n ih =>
      rw [List.replicate_succ, List.flatMap_cons, ih]
      rfl

mutual

theorem Tree.chars_stretches (depth : Nat) (inline : Bool) : ∀ t : Tree,
    (t.stretches depth inline).flatMap Stretch.chars = t.write depth inline
  | .document children => by
    rw [Tree.stretches, Tree.write]
    exact chars_inlineStretches depth inline children
  | .text content => by
    rw [Tree.stretches, Tree.write, List.flatMap_singleton]
    rfl
  | .comment content => by
    rw [Tree.stretches, Tree.write]
    simp only [List.flatMap_cons, List.flatMap_nil, Stretch.chars, escape_margin, List.append_nil,
      List.cons_append, List.append_assoc]
    rfl
  | .element name attributes children => by
    have hmargin : (if inline then [] else indent depth) = margin depth inline := rfl
    rw [Tree.stretches, Tree.write]
    dsimp only
    rw [hmargin]
    split
    · simp only [List.flatMap_cons, List.flatMap_nil, Stretch.chars, escape_margin, tagEnd,
        List.append_nil, List.append_assoc, List.cons_append, if_true]
    · split
      · simp only [List.flatMap_cons, List.flatMap_append, List.flatMap_nil, Stretch.chars,
          escape_margin, tagEnd, chars_inlineStretches 0 true children, List.append_nil,
          List.append_assoc, List.cons_append, List.nil_append, Bool.false_eq_true, if_false]
      · simp only [List.flatMap_cons, List.flatMap_append, List.flatMap_nil, Stretch.chars,
          escape_margin, tagEnd, chars_lineStretches (depth + 1) children, List.append_nil,
          List.append_assoc, List.cons_append, List.nil_append, Bool.false_eq_true, if_false]
        rfl

theorem chars_inlineStretches (depth : Nat) (inline : Bool) : ∀ ts : List Tree,
    (inlineStretches depth inline ts).flatMap Stretch.chars = writeInline depth inline ts
  | [] => rfl
  | t :: ts => by
    rw [inlineStretches, writeInline, List.flatMap_append, t.chars_stretches,
      chars_inlineStretches depth inline ts]

theorem chars_lineStretches (depth : Nat) : ∀ ts : List Tree,
    (lineStretches depth ts).flatMap Stretch.chars = writeLines depth ts
  | [] => rfl
  | t :: ts => by
    rw [lineStretches, writeLines, List.cons_append, List.flatMap_cons, List.flatMap_append,
      t.chars_stretches, chars_lineStretches depth ts]
    rfl

end

/-- The stretches of trees at the top. -/
def topStretches : List Tree → List Stretch
  | [] => []
  | t :: ts => t.stretches 0 false ++ lineStretches 0 ts

theorem toList_writeTop (t : Tree) (ts : List Tree) :
    (writeTop (t :: ts)).toList = t.write 0 false ++ writeLines 0 ts := by
  induction ts generalizing t with
  | nil =>
    rw [writeTop, List.map_singleton, String.intercalate_singleton, String.toList_ofList,
      writeLines, List.append_nil]
  | cons t' ts ih =>
    have hrest : (writeTop (t' :: ts)).toList = _ := ih t'
    rw [writeTop, List.map_cons] at hrest
    rw [writeTop, List.map_cons, List.map_cons, String.intercalate_cons_cons, String.toList_append,
      String.toList_append, hrest, String.toList_ofList, writeLines]
    simp only [List.append_assoc, List.cons_append]
    rfl

/-- What is written for trees at the top is what is written for their stretches. -/
theorem chars_topStretches : ∀ ts : List Tree,
    (topStretches ts).flatMap Stretch.chars = (writeTop ts).toList
  | [] => rfl
  | t :: ts => by
    rw [topStretches, List.flatMap_append, t.chars_stretches, chars_lineStretches, toList_writeTop]

/-! ## Readable trees -/

mutual

/-- Nothing in the tree keeps what is written for it from being cut into its pieces again:
names are names of XML, all characters are characters of XML, and comments hold no two
hyphens. -/
def Tree.Readable : Tree → Prop
  | .document _ => False
  | .text content => content.toList.all isXmlChar
  | .comment content => isCommentText content.toList
  | .element name attributes children =>
    isQName name ∧ (∀ a ∈ attributes, isQName a.1 ∧ a.2.toList.all isXmlChar) ∧
      ReadableAll children

@[inherit_doc Tree.Readable]
def ReadableAll : List Tree → Prop
  | [] => True
  | t :: ts => t.Readable ∧ ReadableAll ts

end

theorem Stretch.IsReadable.all_isXmlChar {s : Stretch} (h : s.IsReadable) :
    s.chars.all isXmlChar := by
  cases s with
  | text cs => exact all_isXmlChar_escapedText h
  | markup p cs =>
    rw [Stretch.chars, List.all_cons, h.1]
    decide

theorem isReadable_margin (depth : Nat) (inline : Bool) :
    (Stretch.text (margin depth inline)).IsReadable := by
  refine List.all_eq_true.mpr fun c hc => ?_
  rw [eq_of_mem_margin hc]
  decide

theorem isReadable_lineEnd (depth : Nat) (inline : Bool) :
    (Stretch.text ('\n' :: margin depth inline)).IsReadable := by
  have hmargin : (margin depth inline).all isXmlChar := isReadable_margin depth inline
  show ('\n' :: margin depth inline).all isXmlChar = true
  rw [List.all_cons, hmargin]
  decide

/-- An attribute is not written with no character. -/
theorem length_le_of_writeAttribute : ∀ attributes : Attributes,
    attributes.length ≤ (attributes.flatMap writeAttribute).length
  | [] => Nat.le_refl _
  | a :: attributes => by
    have ih := length_le_of_writeAttribute attributes
    rw [List.length_cons, List.flatMap_cons, List.length_append, writeAttribute]
    simp only [List.cons_append, List.length_cons]
    omega

theorem all_isXmlChar_name {name : String} (h : isQName name) : name.toList.all isXmlChar :=
  List.all_eq_true.mpr fun c hc => isXmlChar_of_isTagNamePart (all_isTagNamePart h c hc)

theorem all_isXmlChar_writeAttribute {a : String × String} (hname : isQName a.1)
    (hvalue : a.2.toList.all isXmlChar) : (writeAttribute a).all isXmlChar := by
  simp only [writeAttribute, List.all_append, List.all_cons, List.cons_append, List.all_nil,
    all_isXmlChar_name hname, all_isXmlChar_escapedValue hvalue]
  decide

theorem isReadable_openTag {name : String} {attributes : Attributes} (hname : isQName name)
    (hattributes : ∀ a ∈ attributes, isQName a.1 ∧ a.2.toList.all isXmlChar) (closed : Bool) :
    (Stretch.markup (.openTag (tagOf name attributes) closed)
      (name.toList ++ attributes.flatMap writeAttribute ++ tagEnd closed)).IsReadable := by
  refine ⟨?_, fun steps rest hsteps => ?_⟩
  · have hwritten : (attributes.flatMap writeAttribute).all isXmlChar := by
      rw [List.all_flatMap, List.all_eq_true]
      exact fun a ha => all_isXmlChar_writeAttribute (hattributes a ha).1 (hattributes a ha).2
    have hend : (tagEnd closed).all isXmlChar := by
      cases closed <;> decide
    rw [List.all_append, List.all_append, all_isXmlChar_name hname, hwritten, hend]
    rfl
  · have hlength := length_le_of_writeAttribute attributes
    simp only [List.length_append] at hsteps
    rw [List.append_assoc, List.append_assoc]
    exact piece_openTag hname (fun a ha => (hattributes a ha).1) closed (by omega) rest

theorem isReadable_closeTag {name : String} (hname : isQName name) :
    (Stretch.markup (.closeTag (readName name)) ('/' :: name.toList ++ ['>'])).IsReadable := by
  refine ⟨?_, fun steps rest _ => ?_⟩
  · rw [List.all_append, List.all_cons, all_isXmlChar_name hname]
    decide
  · rw [List.append_assoc]
    exact piece_closeTag hname (steps + 1) rest

theorem isReadable_comment {content : String} (h : isCommentText content.toList) :
    (Stretch.markup (.comment content)
      ('!' :: '-' :: '-' :: content.toList ++ ['-', '-', '>'])).IsReadable := by
  refine ⟨?_, fun steps rest _ => ?_⟩
  · simp only [isCommentText, Bool.and_eq_true] at h
    simp only [List.all_append, List.all_cons, List.cons_append, h.1.1]
    decide
  · rw [List.append_assoc]
    exact piece_comment h (steps + 1) rest

mutual

theorem Tree.Readable.isReadable (depth : Nat) (inline : Bool) : ∀ t : Tree, t.Readable →
    ∀ s ∈ t.stretches depth inline, s.IsReadable
  | .document _, h => h.elim
  | .text content, h => List.forall_mem_singleton.mpr h
  | .comment content, h => by
    rw [Tree.stretches, List.forall_mem_cons, List.forall_mem_singleton]
    exact ⟨isReadable_margin depth inline, isReadable_comment h⟩
  | .element name attributes children, h => by
    obtain ⟨hname, hattributes, hchildren⟩ := h
    rw [Tree.stretches]
    split
    · rw [List.forall_mem_cons, List.forall_mem_singleton]
      exact ⟨isReadable_margin depth inline, isReadable_openTag hname hattributes true⟩
    · rw [List.cons_append, List.cons_append, List.forall_mem_cons, List.forall_mem_cons,
        List.forall_mem_append, List.forall_mem_singleton]
      refine ⟨isReadable_margin depth inline, isReadable_openTag hname hattributes false, ?_,
        isReadable_closeTag hname⟩
      split
      · exact ReadableAll.isReadable_inline 0 true children hchildren
      · rw [List.forall_mem_append, List.forall_mem_singleton]
        exact ⟨ReadableAll.isReadable_lines (depth + 1) children hchildren,
          isReadable_lineEnd depth inline⟩

theorem ReadableAll.isReadable_inline (depth : Nat) (inline : Bool) : ∀ ts : List Tree,
    ReadableAll ts → ∀ s ∈ inlineStretches depth inline ts, s.IsReadable
  | [], _ => fun _ hs => absurd hs List.not_mem_nil
  | t :: ts, h => by
    rw [inlineStretches, List.forall_mem_append]
    exact ⟨Tree.Readable.isReadable depth inline t h.1,
      ReadableAll.isReadable_inline depth inline ts h.2⟩

theorem ReadableAll.isReadable_lines (depth : Nat) : ∀ ts : List Tree,
    ReadableAll ts → ∀ s ∈ lineStretches depth ts, s.IsReadable
  | [], _ => fun _ hs => absurd hs List.not_mem_nil
  | t :: ts, h => by
    rw [lineStretches, List.cons_append, List.forall_mem_cons, List.forall_mem_append]
    exact ⟨isReadable_lineEnd 0 true, Tree.Readable.isReadable depth false t h.1,
      ReadableAll.isReadable_lines depth ts h.2⟩

end

theorem ReadableAll.isReadable : ∀ {ts : List Tree}, ReadableAll ts →
    ∀ s ∈ topStretches ts, s.IsReadable
  | [], _ => fun _ hs => absurd hs List.not_mem_nil
  | t :: ts, h => by
    rw [topStretches, List.forall_mem_append]
    exact ⟨Tree.Readable.isReadable 0 false t h.1, ReadableAll.isReadable_lines 0 ts h.2⟩

end PatchScript.Xml
