import PatchScript.Proofs.Xml.Building
import PatchScript.Proofs.Xml.Demands

/-!
# Rows of trees

Trees can be written side by side, on a line each, with no element around them.  To read them
again, an element is put around what was written.  Then the line ends between the trees are texts
of that element, which are not kept where no other text stands next to them.

What is in the element is not laid out as the content of an element is: the trees are not indented,
and they have lines inside of them even if a text stands next to them.  So the content has to be
gone through once more, from the stretches that it is written as (`piecesFrom_stretches`) to the
trees that a reader makes of it.  It can be read under the same conditions as a tree, and gives
the same (`Document.canRead_enclosed_iff`, `Document.trees_of_enclosed`).
-/

namespace PatchScript.Xml

variable {t : Tree} {ts us : List Tree} {outer : Scope}

/-! ## Rows -/

/-- Trees with the line ends between them. -/
def rows : List Tree → List Tree
  | [] => []
  | t :: ts => t :: ts.flatMap fun t => [.text "\n", t]

theorem writeInline_lines (ts : List Tree) :
    writeInline 0 false (ts.flatMap fun t => [.text "\n", t]) = writeLines 0 ts := by
  induction ts with
  | nil => rfl
  | cons t ts ih =>
    rw [List.flatMap_cons, List.cons_append, List.singleton_append, writeInline, writeInline, ih,
      writeLines]
    rfl

/-- What is written for trees at the top is what is written for the trees and the line ends. -/
theorem toList_writeTop_rows (ts : List Tree) :
    (writeTop ts).toList = writeInline 0 false (rows ts) := by
  cases ts with
  | nil => rfl
  | cons t ts => rw [toList_writeTop, rows, writeInline, writeInline_lines]

theorem forall_mem_rows {P : Tree → Prop} (hline : P (.text "\n")) :
    (∀ t ∈ rows ts, P t) ↔ ∀ t ∈ ts, P t := by
  cases ts with
  | nil => rfl
  | cons t ts =>
    rw [rows, List.forall_mem_cons, List.forall_mem_cons, List.forall_mem_flatMap]
    refine and_congr_right fun _ => forall₂_congr fun t _ => ?_
    rw [List.forall_mem_cons, List.forall_mem_singleton]
    exact and_iff_right hline

/-- No text stands among the trees, unless it is the only one of them. -/
def Alone (ts : List Tree) : Prop :=
  ts.any Tree.isText = false ∨ ∃ content, ts = [.text content]

theorem rereadAll_markup : ∀ {ts : List Tree}, ts.any Tree.isText = false →
    rereadAll outer [] ts = ts.map (Tree.reread outer)
  | [], _ => rfl
  | t :: ts, h => by
    rw [List.any_cons, Bool.or_eq_false_iff] at h
    rw [rereadAll_cons h.1, rereadAll_markup h.2]
    rfl

theorem rereadAll_lines : ∀ {ts : List Tree}, ts.any Tree.isText = false →
    rereadAll outer [] (ts.flatMap fun t => [.text "\n", t]) = ts.map (Tree.reread outer)
  | [], _ => rfl
  | t :: ts, h => by
    rw [List.any_cons, Bool.or_eq_false_iff] at h
    rw [List.flatMap_cons, List.cons_append, List.singleton_append, rereadAll, rereadAll_cons h.1,
      rereadAll_lines h.2]
    rfl

/-- Where texts stand alone, the line ends are not kept. -/
theorem rereadAll_rows (h : Alone ts) : rereadAll outer [] (rows ts) = rereadAll outer [] ts := by
  rcases h with h | ⟨content, rfl⟩
  · rw [rereadAll_markup h]
    cases ts with
    | nil => rfl
    | cons t ts =>
      rw [List.any_cons, Bool.or_eq_false_iff] at h
      rw [rows, rereadAll_cons h.1, rereadAll_lines h.2]
      rfl
  · rfl

/-! ## Conditions -/

theorem allWellNamed_iff : allWellNamed outer ts ↔ ∀ t ∈ ts, t.wellNamed outer := by
  induction ts with
  | nil => simp [allWellNamed]
  | cons t ts ih => rw [allWellNamed, Bool.and_eq_true, ih, List.forall_mem_cons]

theorem readableAll_iff : ReadableAll ts ↔ ∀ t ∈ ts, t.Readable := by
  induction ts with
  | nil => simp [ReadableAll]
  | cons t ts ih => rw [ReadableAll, ih, List.forall_mem_cons]

theorem allUnbroken_iff : AllUnbroken ts ↔ ∀ t ∈ ts, t.Unbroken := by
  induction ts with
  | nil => simp [AllUnbroken]
  | cons t ts ih => rw [AllUnbroken, ih, List.forall_mem_cons]

/-! ## Content -/

/-- What a reader makes of trees one behind the other, each of them with lines of its own, and of
the characters of texts that stand before them. -/
def contentRaws (pending : List Char) : List Tree → List Raw
  | [] => textRaw pending
  | .text content :: ts => contentRaws (pending ++ content.toList) ts
  | t :: ts => textRaw pending ++ t.raw 0 false :: contentRaws [] ts

theorem contentRaws_cons (ht : t.isText = false) (pending : List Char) (ts : List Tree) :
    contentRaws pending (t :: ts) = textRaw pending ++ t.raw 0 false :: contentRaws [] ts := by
  cases t with
  | text => cases ht
  | document | comment | element => rfl

theorem nestFrom_content (us : List Tree) (h : ReadableAll us) (e : OpenElement) (he : e.Ready)
    (pending : List Char) (root : Option Raw) (stack : List OpenElement) (p : Piece)
    (cs : List Char) (ss : List Stretch) :
    nestFrom root (e :: stack)
        (piecesOf pending (inlineStretches 0 false us ++ .markup p cs :: ss)) =
      nestFrom root (e.extend (contentRaws pending us) :: stack) (p :: piecesOf [] ss) := by
  induction us generalizing e pending with
  | nil => exact nestFrom_pending he pending p cs ss
  | cons t us ih =>
    cases ht : t.isText with
    | true =>
      obtain ⟨content, rfl⟩ := exists_of_isText ht
      exact ih h.2 e he (pending ++ content.toList)
    | false =>
      have hmargin : pending ++ margin 0 false = pending := List.append_nil pending
      rw [inlineStretches, List.append_assoc, nestFrom_tree 0 false t h.1 ht e he, hmargin,
        ih h.2 _ (OpenElement.ready_extend e _ 0 false t), OpenElement.extend_extend,
        contentRaws_cons ht, List.append_assoc, List.singleton_append]

theorem resolveAll_contentRaws (pending : List Char) : ∀ {us : List Tree}, allWellNamed outer us →
    resolveAll outer (contentRaws pending us) = .ok (rereadAll outer pending us)
  | [], _ => by
    have hnil : resolveAll outer [] = .ok [] := rfl
    have htext := resolveAll_textRaw pending hnil
    rwa [List.append_nil, List.append_nil] at htext
  | t :: us, h => by
    rw [allWellNamed, Bool.and_eq_true] at h
    cases ht : t.isText with
    | true =>
      obtain ⟨content, rfl⟩ := exists_of_isText ht
      exact resolveAll_contentRaws (pending ++ content.toList) h.2
    | false =>
      rw [contentRaws_cons ht, rereadAll_cons ht]
      refine resolveAll_textRaw pending ?_
      rw [resolveAll, Tree.resolve_raw 0 false h.1 ht, ok_bind, resolveAll_contentRaws [] h.2]
      rfl

theorem allWellNamed_of_content : ∀ us : List Tree, ReadableAll us → HaveValidNames us →
    ∀ pending : List Char, ResolvesAll outer (contentRaws pending us) → allWellNamed outer us
  | [], _, _, _, _ => rfl
  | t :: us, h, hnames, pending, hresolve => by
    rw [allWellNamed, Bool.and_eq_true]
    cases ht : t.isText with
    | true =>
      obtain ⟨content, rfl⟩ := exists_of_isText ht
      exact ⟨rfl,
        allWellNamed_of_content us h.2 hnames.2 (pending ++ content.toList) hresolve⟩
    | false =>
      rw [contentRaws_cons ht] at hresolve
      obtain ⟨hfirst, hrest⟩ := hresolve.of_text.of_cons
      exact ⟨Tree.wellNamed_of_resolve outer 0 false t h.1 hnames.1 ht hfirst,
        allWellNamed_of_content us h.2 hnames.2 [] hrest⟩

/-! ## The element around them -/

/-- What is written for trees, one behind the other, with an element around them. -/
def enclosed (us : List Tree) : String :=
  "<root>" ++ String.ofList (writeInline 0 false us) ++ "</root>"

/-- The tag of this element. -/
def rootTag : Tag := tagOf "root" []

/-- The stretches of the element and what is in it. -/
def enclosedStretches (us : List Tree) : List Stretch :=
  .markup (.openTag rootTag false) ("root".toList ++ [].flatMap writeAttribute ++ tagEnd false) ::
    (inlineStretches 0 false us ++
      [.markup (.closeTag (readName "root")) ('/' :: "root".toList ++ ['>'])])

theorem toList_enclosed (us : List Tree) : (enclosed us).toList = '<' :: 'r' ::
    (['o', 'o', 't', '>'] ++ (writeInline 0 false us ++ ['<', '/', 'r', 'o', 'o', 't', '>'])) := by
  simp [enclosed]

theorem chars_enclosedStretches (us : List Tree) :
    (enclosedStretches us).flatMap Stretch.chars = (enclosed us).toList := by
  simp [enclosedStretches, chars_inlineStretches, toList_enclosed, Stretch.chars, tagEnd]

theorem isQName_root : isQName "root" := by decide

/-- The element is cut from its start. -/
theorem pieces_enclosed (hall : (enclosed us).toList.all isXmlChar) :
    pieces (enclosed us).toList =
      piecesFrom (enclosed us).toList.length [] (enclosed us).toList := by
  rw [toList_enclosed] at hall ⊢
  exact pieces_of_markup hall (by decide)

theorem isReadable_enclosedStretches (h : ReadableAll us) :
    ∀ s ∈ enclosedStretches us, s.IsReadable := by
  have htag := isReadable_openTag isQName_root (fun a ha => absurd ha List.not_mem_nil) false
  rw [enclosedStretches, List.forall_mem_cons, List.forall_mem_append, List.forall_mem_singleton]
  exact ⟨htag, ReadableAll.isReadable_inline 0 false us h, isReadable_closeTag isQName_root⟩

/-- If the element is cut into pieces at all, what is in it is readable. -/
theorem readable_of_enclosed {ps : List Piece} (hwhole : AllUnbroken us)
    (hnames : HaveValidNames us) (h : pieces (enclosed us).toList = .ok ps) : ReadableAll us := by
  have hall := isXmlChar_of_pieces h
  rw [pieces_enclosed hall, ← chars_enclosedStretches] at h
  rw [← chars_enclosedStretches] at hall
  have hhonest : ∀ s ∈ enclosedStretches us, s.IsHonest := by
    have hnone : ∀ s ∈ enclosedStretches [], s.IsReadable := isReadable_enclosedStretches trivial
    rw [enclosedStretches, List.forall_mem_cons, List.forall_mem_append] at hnone ⊢
    exact ⟨hnone.1.isHonest, isHonest_inline 0 false us hwhole hnames,
      fun s hs => (hnone.2.2 s hs).isHonest⟩
  have hread := isReadable_of_piecesFrom hhonest hall [] (Nat.le_refl _) h
  rw [enclosedStretches, List.forall_mem_cons, List.forall_mem_append] at hread
  exact readable_of_inline 0 false us hwhole hnames hread.2.1

/-- The pieces of the element nest to it. -/
theorem nest_enclosed (h : ReadableAll us) : (do nest (← pieces (enclosed us).toList)) =
    .ok (.element rootTag (contentRaws [] us)) := by
  have hreadable := isReadable_enclosedStretches h
  have hall : (enclosed us).toList.all isXmlChar := by
    rw [← chars_enclosedStretches, List.all_flatMap, List.all_eq_true]
    exact fun s hs => Stretch.IsReadable.all_isXmlChar (hreadable s hs)
  have hpieces : pieces (enclosed us).toList = .ok (piecesOf [] (enclosedStretches us)) := by
    rw [pieces_enclosed hall, ← chars_enclosedStretches]
    exact piecesFrom_stretches _ hreadable [] _ [] (Nat.le_refl _)
  rw [hpieces, ok_bind, nest, enclosedStretches, piecesOf]
  show nestFrom none [⟨rootTag, []⟩] (piecesOf [] _) = _
  rw [nestFrom_content us h _ (OpenElement.ready_new rootTag), nestFrom_cons,
    show readName "root" = rootTag.name from rfl, nestPiece_closeTag]
  rfl

theorem rootTag_resolves : rootTag.Resolves [] := by decide

/-- What is read is the element, with the trees in it that a reader makes of its content. -/
theorem readTree_enclosed (h : ReadableAll us) (hnamed : allWellNamed [] us) :
    readTree (enclosed us) = .ok (.document [.element "root" [] (rereadAll [] [] us)]) := by
  have hcontent : resolveAll (rootTag.scope []) (contentRaws [] us) =
      .ok (rereadAll [] [] us) := resolveAll_contentRaws [] hnamed
  have hnest := nest_enclosed h
  cases hpieces : pieces (enclosed us).toList with
  | error e =>
    rw [hpieces] at hnest
    cases hnest
  | ok ps =>
    rw [hpieces] at hnest
    have hnest : nest ps = .ok (.element rootTag (contentRaws [] us)) := hnest
    rw [readTree, hpieces, ok_bind, hnest, ok_bind, rootTag_resolves.resolve_eq hcontent]
    rfl

/-! ## An element around a text -/

@[simp] theorem OpenElement.tag_add (e : OpenElement) (r : Raw) : (e.add r).tag = e.tag := by
  unfold OpenElement.add
  split <;> rfl

/-- An element with the tag is the root, or the one of the open elements that becomes it. -/
def Surrounds (tag : Tag) (root : Option Raw) (stack : List OpenElement) : Prop :=
  (stack.map OpenElement.tag).getLast? = some tag ∨
    stack = [] ∧ ∃ children, root = some (.element tag children)

namespace Surrounds

variable {tag : Tag} {root root' : Option Raw} {stack stack' : List OpenElement} {r : Raw}

theorem add {e : OpenElement} (h : Surrounds tag root (e :: stack)) (r : Raw) :
    Surrounds tag root (e.add r :: stack) := by
  refine .inl ?_
  rw [List.map_cons, OpenElement.tag_add, ← List.map_cons]
  exact h.resolve_right fun hnil => List.cons_ne_nil _ _ hnil.1

theorem handOver (h : Surrounds tag root stack)
    (hnested : handOver root stack r = .ok (root', stack')) : Surrounds tag root' stack' := by
  unfold Xml.handOver at hnested
  split at hnested
  · cases hnested
    exact h.add r
  · cases h with
    | inl hnone => cases hnone
    | inr hroot =>
      obtain ⟨-, children, hroot⟩ := hroot
      cases hroot
  · cases hnested

theorem close {e : OpenElement} (h : Surrounds tag root (e :: stack))
    (hnested : Xml.handOver root stack e.close = .ok (root', stack')) :
    Surrounds tag root' stack' := by
  have htag := h.resolve_right fun hnil => List.cons_ne_nil _ _ hnil.1
  cases stack with
  | cons outer rest => exact handOver (.inl (by simpa using htag)) hnested
  | nil =>
    cases root with
    | some root => cases hnested
    | none =>
      cases hnested
      cases htag
      exact .inr ⟨rfl, _, rfl⟩

/-- The outermost element stays the same. -/
theorem piece {p : Piece} (h : Surrounds tag root stack)
    (hnested : nestPiece root stack p = .ok (root', stack')) : Surrounds tag root' stack' := by
  unfold nestPiece at hnested
  split at hnested
  · exact h.handOver hnested
  · split at hnested
    · cases hnested
    · rename_i hopen
      cases hnested
      cases h with
      | inl hlast =>
        refine .inl ?_
        rw [List.map_cons, List.getLast?_cons, hlast]
        rfl
      | inr hroot =>
        obtain ⟨rfl, children, rfl⟩ := hroot
        exact absurd rfl hopen
  · split at hnested
    · exact h.close hnested
    · cases hnested
  · cases hnested
  · obtain ⟨s, -, hnested⟩ := bind_eq_ok hnested
    cases hnested
    exact h.add _
  · split at hnested
    · cases hnested
      exact h
    · cases hnested
  · cases hnested
    exact h.add _
  · cases hnested
  · cases hnested
    exact h.add _
  · cases hnested
    exact h
  · cases hnested
    exact h.add _
  · cases hnested
    exact h

theorem pieces {ps : List Piece} (h : Surrounds tag root stack)
    (hr : nestFrom root stack ps = .ok r) : ∃ children, r = .element tag children := by
  have hend := nestFrom_keeps (fun _ h => h.piece) (fun _ _ => trivial) h hr
  obtain hnone | ⟨-, children, hroot⟩ := hend
  · cases hnone
  · exact ⟨children, Option.some.inj hroot⟩

end Surrounds

/-- What was cut before comes first. -/
theorem prefix_of_piecesFrom : ∀ {steps : Nat} {done ps : List Piece} {cs : List Char},
    piecesFrom steps done cs = .ok ps → done.reverse <+: ps := by
  intro steps
  induction steps with
  | zero =>
    intro done ps cs h
    cases cs with
    | nil =>
      cases h
      exact List.prefix_refl _
    | cons c cs => cases h
  | succ n ih =>
    intro done ps cs h
    cases cs with
    | nil =>
      cases h
      exact List.prefix_refl _
    | cons c cs =>
      obtain ⟨⟨p, rest⟩, -, h⟩ := bind_eq_ok h
      have hdone := ih h
      rw [List.reverse_cons] at hdone
      exact (List.prefix_append _ _).trans hdone

/-- If a text with the element around it can be read, then the element is what is read, whatever
the text is. -/
theorem exists_of_readTree_around {content : String} {t : Tree}
    (h : readTree ("<root>" ++ content ++ "</root>") = .ok t) :
    ∃ children, t = .document [.element "root" [] children] := by
  have hchars : ("<root>" ++ content ++ "</root>").toList =
      '<' :: 'r' :: (['o', 'o', 't', '>'] ++ (content.toList ++ "</root>".toList)) := by
    simp
  obtain ⟨ps, hps, h⟩ := bind_eq_ok h
  obtain ⟨r, hr, h⟩ := bind_eq_ok h
  obtain ⟨ts, hts, h⟩ := bind_eq_ok h
  cases h
  -- The first piece is the tag of the element.
  have hall := isXmlChar_of_pieces hps
  rw [hchars] at hps hall
  rw [pieces_of_markup hall (by decide)] at hps
  have htag := (isReadable_openTag isQName_root (fun a ha => absurd ha List.not_mem_nil) false).2
  obtain ⟨⟨p, rest⟩, hpiece, hps⟩ := bind_eq_ok hps
  have hfirst := (htag _ _ (by simp [tagEnd])).symm.trans hpiece
  cases hfirst
  obtain ⟨ps', rfl⟩ := prefix_of_piecesFrom hps
  have hstart : Surrounds rootTag none [⟨rootTag, []⟩] := .inl rfl
  obtain ⟨rs, rfl⟩ := hstart.pieces (show nestFrom none [⟨rootTag, []⟩] ps' = .ok r from hr)
  rw [resolve] at hts
  obtain ⟨declarations, hdeclarations, hts⟩ := bind_eq_ok hts
  cases hdeclarations
  obtain ⟨name, hname, hts⟩ := bind_eq_ok hts
  cases hname
  obtain ⟨attributes, hattributes, hts⟩ := bind_eq_ok hts
  cases hattributes
  obtain ⟨children, -, hts⟩ := bind_eq_ok hts
  cases hts
  exact ⟨children, rfl⟩

namespace Document

variable {d : Document}

/-- The trees in the root. -/
def inRoot (d : Document) : List Tree := (d.children d.root).map d.tree

/-- The element around trees can be read if and only if they are readable and well-named. -/
theorem canRead_enclosed_iff (hwhole : AllUnbroken us) (hnames : HaveValidNames us) :
    CanRead (enclosed us) ↔ ReadableAll us ∧ allWellNamed [] us := by
  constructor
  · rintro ⟨d, h⟩
    obtain ⟨t, ht, happend⟩ := bind_eq_ok h
    obtain ⟨ps, hps, ht⟩ := bind_eq_ok ht
    have hreadable := readable_of_enclosed hwhole hnames hps
    have hnest := nest_enclosed hreadable
    rw [hps, ok_bind] at hnest
    rw [hnest, ok_bind] at ht
    obtain ⟨ts, hts, ht⟩ := bind_eq_ok ht
    cases ht
    have hnone : ∀ d ∈ rootTag.own, isValidName d.attribute.1 := nofun
    obtain ⟨-, hcontent⟩ :=
      Tag.resolves_of_element hts (haveValidNames_of_appendAll ts happend) hnone
    exact ⟨hreadable, allWellNamed_of_content us hreadable hnames [] hcontent⟩
  · rintro ⟨hreadable, hnamed⟩
    have hvalid : (Tree.element "root" [] (rereadAll [] [] us)).HasValidNames :=
      ⟨by decide, nofun, haveValidNames_rereadAll [] hnamed⟩
    obtain ⟨d, hd⟩ := appendAll_ok [_] ⟨hvalid, trivial⟩ empty top
    refine ⟨d, ?_⟩
    rw [read, readTree_enclosed hreadable hnamed]
    exact hd

theorem Reachable.tree_top (h : d.Reachable) :
    d.tree top = .document ((d.children top).map d.tree) := by
  have hsize : top < d.nodes.size := Nat.lt_of_succ_lt h.one_lt_size
  rw [tree_eq h.linked hsize, (h.oneTop top).mpr rfl]

/-- A document that is read holds its root at the top, and in it what the root holds. -/
theorem trees_of_root {source name : String} {attributes : Attributes}
    (hts : readTree source = .ok (.document [.element name attributes ts]))
    (hread : Document.read source = .ok d) :
    d.tree top = .document [.element name attributes ts] ∧
      d.kind? d.root = some (.element ⟨name, attributes⟩) ∧
      d.inRoot = ts := by
  have hreachable : d.Reachable := .read hread
  have hlinked := hreachable.linked
  have htrees := trees_of_read hts hread
  refine ⟨by rw [hreachable.tree_top, htrees], ?_⟩
  rw [children_top_of_read hread, List.map_singleton, List.singleton_inj] at htrees
  have hchild : d.root ∈ d.children top := by
    rw [children_top_of_read hread]
    exact List.mem_singleton_self _
  rw [tree_eq hlinked (hlinked.below (.single hchild)).2] at htrees
  cases hkind : d.kind? d.root with
  | none =>
    rw [hkind] at htrees
    cases htrees
  | some kind =>
    rw [hkind] at htrees
    cases kind with
    | element e =>
      cases htrees
      exact ⟨rfl, rfl⟩
    | document | text | comment => cases htrees

/-- A document that is read from trees with an element around them holds this element at the top,
and in it the trees that a reader makes of what was written. -/
theorem trees_of_enclosed (h : ReadableAll us) (hnamed : allWellNamed [] us)
    (hread : Document.read (enclosed us) = .ok d) :
    d.tree top = .document [.element "root" [] (rereadAll [] [] us)] ∧
      d.inRoot = rereadAll [] [] us := by
  obtain ⟨htop, -, hchildren⟩ := trees_of_root (readTree_enclosed h hnamed) hread
  exact ⟨htop, hchildren⟩

end Document

end PatchScript.Xml
