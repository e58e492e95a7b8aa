import PatchScript.Proofs.Xml.Demands
import PatchScript.Proofs.Xml.Joining

/-!
# Documents that stay what they are

A document is settled if each of its elements has the name and the attributes that a reader would
make of them, and each run of texts is read as it is.  What is written for a document that was
read is the same when it has been read and is written once more, if and only if the document is
well-named and settled (`Document.reload_is_stable_iff`).  So it is with a well-named document
that has no namespaces and no carriage returns (`Document.settled_of_plain`).

There are documents that are not settled.  A text keeps its carriage returns when it is written,
and a reader makes line feeds of them.  And a declaration that an element shares with the elements
around it is not written again, which can put another one first that stands for the same address
(`Document.reload_is_unstable`).
-/

namespace PatchScript.Xml

/-! ## Settled trees -/

mutual

/-- Does each element have the name and the attributes that it is read with, and is each run of
texts read as it is?  `outer` is the scope around the tree. -/
def Tree.settled (outer : Scope) : Tree → Bool
  | .element name attributes children =>
    let tag := tagOf name attributes
    tag.resolvedName outer == name && tag.resolvedAttributes outer == attributes
      && allSettled (tag.scope outer) [] children
  | .document _ | .text _ | .comment _ => true

/-- Are the trees settled, and the characters of texts that stand before them? -/
def allSettled (outer : Scope) (pending : List Char) : List Tree → Bool
  | [] => asRead pending == String.ofList pending
  | .text content :: ts => allSettled outer (pending ++ content.toList) ts
  | t :: ts =>
    asRead pending == String.ofList pending && t.settled outer && allSettled outer [] ts

end

variable {t : Tree} {ts ts' : List Tree} {pending : List Char} {outer : Scope}

theorem allSettled_cons (ht : t.isText = false) (outer : Scope) (pending : List Char)
    (ts : List Tree) : allSettled outer pending (t :: ts) =
      (asRead pending == String.ofList pending && t.settled outer && allSettled outer [] ts) := by
  cases t with
  | text => cases ht
  | document | comment | element => rfl

/-- A run of texts is kept if it is read as it is. -/
theorem textsRead_append_eq_iff (hrun : IsRun pending) :
    textsRead pending ++ ts = textTrees pending ++ ts' ↔
      asRead pending = String.ofList pending ∧ ts = ts' := by
  rcases hrun with rfl | hblank
  · have hempty : asRead [] = String.ofList [] := rfl
    simp [textsRead, textTrees, hempty, isBlankText]
  · have hne : pending ≠ [] := by
      rintro rfl
      cases hblank
    simp [textsRead, textTrees, isBlankText_asRead hblank, hne]

mutual

/-- A tree is read with no change but that texts are joined if and only if it is settled. -/
theorem Tree.reread_eq_joined_iff : ∀ {t : Tree} {outer : Scope}, t.Clean →
    (t.reread outer = t.joined ↔ t.settled outer)
  | .document _, _, h => h.elim
  | .text _, _, _ => ⟨fun _ => rfl, fun _ => rfl⟩
  | .comment _, _, _ => ⟨fun _ => rfl, fun _ => rfl⟩
  | .element name attributes children, outer, h => by
    rw [Tree.reread, Tree.joined, Tree.settled]
    simp only [Tree.element.injEq, Bool.and_eq_true, beq_iff_eq, and_assoc]
    rw [rereadAll_eq_joinAll_iff (.inl rfl) h.2]

theorem rereadAll_eq_joinAll_iff : ∀ {ts : List Tree} {pending : List Char} {outer : Scope},
    IsRun pending → AllClean ts →
    (rereadAll outer pending ts = joinAll pending ts ↔ allSettled outer pending ts)
  | [], pending, outer, hrun, _ => by
    rw [rereadAll, joinAll, allSettled, beq_iff_eq, ← List.append_nil (textsRead pending),
      ← List.append_nil (textTrees pending), textsRead_append_eq_iff hrun]
    exact and_iff_left rfl
  | t :: ts, pending, outer, hrun, h => by
    cases ht : t.isText with
    | true =>
      obtain ⟨content, rfl⟩ := exists_of_isText ht
      rw [rereadAll, joinAll, allSettled]
      exact rereadAll_eq_joinAll_iff (.append pending h.1) h.2
    | false =>
      rw [rereadAll_cons ht, joinAll_cons ht, allSettled_cons ht, textsRead_append_eq_iff hrun]
      simp only [List.cons.injEq, Bool.and_eq_true, beq_iff_eq, and_assoc]
      rw [Tree.reread_eq_joined_iff h.1, rereadAll_eq_joinAll_iff (.inl rfl) h.2]

end

/-! ## Texts that are joined -/

theorem rereadAll_textTrees (outer : Scope) (cs : List Char) (ts : List Tree) :
    rereadAll outer [] (textTrees cs ++ ts) = rereadAll outer cs ts := by
  cases cs with
  | nil => rfl
  | cons c cs =>
    show rereadAll outer [] (.text (String.ofList (c :: cs)) :: ts) = _
    rw [rereadAll, String.toList_ofList, List.nil_append]

mutual

theorem Tree.reread_joined (outer : Scope) : ∀ t : Tree, t.joined.reread outer = t.reread outer
  | .document _ | .text _ | .comment _ => rfl
  | .element name attributes children => by
    rw [Tree.joined, Tree.reread, Tree.reread, rereadAll_joinAll]

/-- A reader joins texts that stand next to each other, so it does not matter whether they have
been joined before. -/
theorem rereadAll_joinAll (outer : Scope) (pending : List Char) : ∀ ts : List Tree,
    rereadAll outer [] (joinAll pending ts) = rereadAll outer pending ts
  | [] => by
    rw [joinAll, ← List.append_nil (textTrees pending), rereadAll_textTrees]
  | t :: ts => by
    cases ht : t.isText with
    | false =>
      have htext : t.joined.isText = false := by rwa [isText_joined]
      rw [joinAll_cons ht, rereadAll_textTrees, rereadAll_cons htext, rereadAll_cons ht,
        Tree.reread_joined outer t, rereadAll_joinAll outer [] ts]
    | true =>
      obtain ⟨content, rfl⟩ := exists_of_isText ht
      rw [joinAll, rereadAll_joinAll, rereadAll]

end

/-! ## Documents without namespaces -/

mutual

/-- Has no name a qualifier, is no namespace declared, and does no text hold a carriage return? -/
def Tree.plain : Tree → Bool
  | .element name attributes children =>
    !name.toList.contains ':'
      && attributes.all (fun a => !a.1.toList.contains ':' && a.1 != "xmlns")
      && allPlain children
  | .text content => !content.toList.contains '\r'
  | .document _ | .comment _ => true

@[inherit_doc Tree.plain]
def allPlain : List Tree → Bool
  | [] => true
  | t :: ts => t.plain && allPlain ts

end

theorem readName_of_notMem {name : String} (hname : isQName name) (hcolon : ':' ∉ name.toList) :
    readName name = ⟨"", name⟩ := by
  have hparts := qname_parts (qname_of_isQName hname)
  dsimp only at hparts
  have hrun : name.toList.takeWhile isTagNamePart = name.toList :=
    List.takeWhile_eq_self_iff.mpr (all_isTagNamePart hname)
  have hplain : ¬name.toList.contains ':' = true := by simpa using hcolon
  rw [hparts, hrun, if_neg hplain, String.ofList_toList]

section

variable {name : String} {attributes : Attributes}

/-- Where no attribute has a qualifier or declares a namespace, none is taken for a declaration. -/
theorem own_others_of_plain (hqs : ∀ a ∈ attributes, isQName a.1)
    (hplain : ∀ a ∈ attributes, ':' ∉ a.1.toList ∧ a.1 ≠ "xmlns") :
    (tagOf name attributes).own = [] ∧
      (tagOf name attributes).others = attributes.map fun a => (⟨"", a.1⟩, a.2) := by
  have hread : (tagOf name attributes).attributes = attributes.map fun a => (⟨"", a.1⟩, a.2) :=
    List.map_congr_left fun a ha => by rw [readName_of_notMem (hqs a ha) (hplain a ha).1]
  have hnone : ∀ a ∈ (tagOf name attributes).attributes, a.1.isDeclaration = false := by
    rw [hread, List.forall_mem_map]
    intro a ha
    simp [QName.isDeclaration, (hplain a ha).2]
  have hfilter : (tagOf name attributes).attributes.filter (·.1.isDeclaration) = [] :=
    List.filter_eq_nil_iff.mpr fun a ha => by simp [hnone a ha]
  constructor
  · rw [Tag.own, ownDeclarations, hfilter]
    rfl
  · rw [Tag.others, otherAttributes, ← hread]
    exact List.filter_eq_self.mpr fun a ha => by simp [hnone a ha]

/-- A tag without qualifiers and declarations is read with the name and the attributes it has. -/
theorem resolved_of_plain (hname : isQName name) (hcolon : ':' ∉ name.toList)
    (hqs : ∀ a ∈ attributes, isQName a.1)
    (hplain : ∀ a ∈ attributes, ':' ∉ a.1.toList ∧ a.1 ≠ "xmlns")
    (hnodup : attributes.names.Nodup) :
    (tagOf name attributes).scope [] = [] ∧ (tagOf name attributes).resolvedName [] = name ∧
      (tagOf name attributes).resolvedAttributes [] = attributes := by
  obtain ⟨hown, hothers⟩ := own_others_of_plain hqs hplain
  have hscope : (tagOf name attributes).scope [] = [] := by
    rw [Tag.scope, hown]
    rfl
  refine ⟨hscope, ?_, ?_⟩
  · rw [Tag.resolvedName, hscope]
    show qualify [] false (expandedElement [] (readName name)) = name
    rw [readName_of_notMem hname hcolon]
    rfl
  · rw [Tag.resolvedAttributes, hscope, hothers, List.map_map]
    have hsame : attributes.map ((fun a : QName × String =>
        (qualify [] true (expandedAttribute [] a.1), a.2)) ∘ fun a => (⟨"", a.1⟩, a.2)) =
          attributes := List.map_id attributes
    rw [hsame]
    exact Attributes.putAll_eq hnodup

theorem nodup_names_of_plain (hqs : ∀ a ∈ attributes, isQName a.1)
    (hplain : ∀ a ∈ attributes, ':' ∉ a.1.toList ∧ a.1 ≠ "xmlns")
    (h : (tagOf name attributes).Resolves []) : attributes.names.Nodup := by
  obtain ⟨-, hothers⟩ := @own_others_of_plain name attributes hqs hplain
  have hdifferent := h.different
  rw [hothers, List.map_map] at hdifferent
  have hnames : attributes.map ((fun a : QName × String =>
      expandedAttribute ((tagOf name attributes).scope []) a.1) ∘ fun a => (⟨"", a.1⟩, a.2)) =
        attributes.names.map fun n =>
          expandedAttribute ((tagOf name attributes).scope []) ⟨"", n⟩ := by
    rw [Attributes.names, List.map_map]
    rfl
  rw [hnames] at hdifferent
  exact hdifferent.of_map

end

mutual

/-- Where there are no namespaces and no carriage returns, well-named trees are settled. -/
theorem Tree.settled_of_plain : ∀ {t : Tree}, t.Clean → t.wellNamed [] → t.plain → t.settled []
  | .document _, h, _, _ => h.elim
  | .text _, _, _, _ => rfl
  | .comment _, _, _, _ => rfl
  | .element name attributes children, hclean, hnamed, hplain => by
    simp only [Tree.wellNamed, Bool.and_eq_true, List.all_eq_true] at hnamed
    obtain ⟨⟨⟨hname, hqs⟩, -⟩, hchildren⟩ := hnamed
    simp only [Tree.plain, Bool.and_eq_true, List.all_eq_true, Bool.not_eq_true', bne_iff_ne,
      List.contains_eq_mem, decide_eq_false_iff_not] at hplain
    obtain ⟨⟨hcolon, hattributes⟩, hplains⟩ := hplain
    obtain ⟨hscope, hresolved, hset⟩ :=
      resolved_of_plain hname hcolon (fun a ha => (hqs a ha).1) hattributes hclean.1
    rw [hscope] at hchildren
    simp only [Tree.settled, hscope, hresolved, hset, beq_self_eq_true, Bool.true_and]
    exact allSettled_of_plain List.not_mem_nil hclean.2 hchildren hplains

theorem allSettled_of_plain : ∀ {ts : List Tree} {pending : List Char}, '\r' ∉ pending →
    AllClean ts → allWellNamed [] ts → allPlain ts → allSettled [] pending ts
  | [], pending, hpending, _, _, _ => by
    rw [allSettled, asRead_eq hpending, beq_self_eq_true]
  | t :: ts, pending, hpending, hclean, hnamed, hplain => by
    rw [allWellNamed, Bool.and_eq_true] at hnamed
    rw [allPlain, Bool.and_eq_true] at hplain
    cases ht : t.isText with
    | true =>
      obtain ⟨content, rfl⟩ := exists_of_isText ht
      have hcontent : '\r' ∉ content.toList := by simpa [Tree.plain] using hplain.1
      have hboth : '\r' ∉ pending ++ content.toList := by simp [hpending, hcontent]
      rw [allSettled]
      exact allSettled_of_plain hboth hclean.2 hnamed.2 hplain.2
    | false =>
      rw [allSettled_cons ht, asRead_eq hpending, beq_self_eq_true, Bool.true_and,
        Bool.and_eq_true]
      exact ⟨Tree.settled_of_plain hclean.1 hnamed.1 hplain.1,
        allSettled_of_plain List.not_mem_nil hclean.2 hnamed.2 hplain.2⟩

end

mutual

/-- In well-named trees without namespaces, no attribute is there twice. -/
theorem Tree.clean_of_plain : ∀ {t : Tree}, t.Normal → t.wellNamed [] → t.plain → t.Clean
  | .document _, h, _, _ => h
  | .text _, h, _, _ => h
  | .comment _, _, _, _ => trivial
  | .element name attributes children, hnormal, hnamed, hplain => by
    simp only [Tree.wellNamed, Bool.and_eq_true, List.all_eq_true, decide_eq_true_eq] at hnamed
    obtain ⟨⟨⟨hname, hqs⟩, hresolves⟩, hchildren⟩ := hnamed
    simp only [Tree.plain, Bool.and_eq_true, List.all_eq_true, Bool.not_eq_true', bne_iff_ne,
      List.contains_eq_mem, decide_eq_false_iff_not] at hplain
    obtain ⟨⟨hcolon, hattributes⟩, hplains⟩ := hplain
    have hnodup := nodup_names_of_plain (fun a ha => (hqs a ha).1) hattributes hresolves
    obtain ⟨hscope, -⟩ :=
      resolved_of_plain hname hcolon (fun a ha => (hqs a ha).1) hattributes hnodup
    rw [hscope] at hchildren
    exact ⟨hnodup, allClean_of_plain hnormal.2.2.2 hchildren hplains⟩

theorem allClean_of_plain : ∀ {ts : List Tree}, AllNormal ts → allWellNamed [] ts →
    allPlain ts → AllClean ts
  | [], _, _, _ => trivial
  | t :: ts, hnormal, hnamed, hplain => by
    rw [allWellNamed, Bool.and_eq_true] at hnamed
    rw [allPlain, Bool.and_eq_true] at hplain
    exact ⟨Tree.clean_of_plain hnormal.1 hnamed.1 hplain.1,
      allClean_of_plain hnormal.2 hnamed.2 hplain.2⟩

end

/-- A well-named tree in normal form without namespaces and carriage returns is read as it is. -/
theorem Tree.reread_of_plain (hnormal : t.Normal) (hnamed : t.wellNamed []) (hplain : t.plain) :
    t.reread [] = t := by
  have hclean := Tree.clean_of_plain hnormal hnamed hplain
  have hsettled := Tree.settled_of_plain hclean hnamed hplain
  rw [(Tree.reread_eq_joined_iff hclean).mpr hsettled, Tree.joined_eq hnormal]

/-! ## Normal form -/

theorem textsRead_cases (cs : List Char) :
    textsRead cs = [] ∨ ∃ content, textsRead cs = [.text content] := by
  rw [textsRead]
  split
  · exact .inl rfl
  · exact .inr ⟨_, rfl⟩

theorem allNormal_textsRead (cs : List Char) : AllNormal (textsRead cs) := by
  rw [textsRead]
  split
  · trivial
  · rename_i hblank
    exact ⟨Bool.eq_false_iff.mpr hblank, trivial⟩

theorem apart_rereadAll : ∀ (ts : List Tree) (pending : List Char) (outer : Scope),
    Apart (rereadAll outer pending ts)
  | [], pending, outer => by
    rw [rereadAll]
    rcases textsRead_cases pending with h | ⟨content, h⟩ <;> rw [h]
    · exact .nil
    · exact .singleton _
  | t :: ts, pending, outer => by
    cases ht : t.isText with
    | false =>
      rw [rereadAll_cons ht]
      exact .append_cons (textsRead_cases pending) (by rwa [isText_reread])
        (apart_rereadAll ts [] outer)
    | true =>
      obtain ⟨content, rfl⟩ := exists_of_isText ht
      exact apart_rereadAll ts _ outer

mutual

/-- What is read again is in normal form, texts apart. -/
theorem Tree.normal_reread_markup : ∀ {t : Tree} {outer : Scope}, t.Unbroken → t.isText = false →
    (t.reread outer).HasValidNames → (t.reread outer).Normal
  | .document _, _, h, _, _ => h.elim
  | .text _, _, _, h, _ => nomatch h
  | .comment _, _, h, _, _ => h
  | .element _ _ _, _, hwhole, _, hnames =>
    ⟨hnames.1, hnames.2.1, apart_rereadAll _ [] _, allNormal_rereadAll hwhole hnames.2.2⟩

theorem allNormal_rereadAll : ∀ {ts : List Tree} {pending : List Char} {outer : Scope},
    AllUnbroken ts → HaveValidNames (rereadAll outer pending ts) →
    AllNormal (rereadAll outer pending ts)
  | [], pending, _, _, _ => allNormal_textsRead pending
  | t :: ts, pending, outer, hwhole, hnames => by
    cases ht : t.isText with
    | false =>
      rw [rereadAll_cons ht] at hnames ⊢
      obtain ⟨-, hfirst, hrest⟩ := haveValidNames_append.mp hnames
      exact allNormal_append.mpr ⟨allNormal_textsRead pending,
        Tree.normal_reread_markup hwhole.1 ht hfirst, allNormal_rereadAll hwhole.2 hrest⟩
    | true =>
      obtain ⟨content, rfl⟩ := exists_of_isText ht
      rw [rereadAll] at hnames ⊢
      exact allNormal_rereadAll hwhole.2 hnames

end

/-- A tree that is read again is in normal form. -/
theorem Tree.normal_reread (hclean : t.Clean) (hsound : t.Sound)
    (hnames : (t.reread outer).HasValidNames) : (t.reread outer).Normal := by
  cases ht : t.isText with
  | false => exact Tree.normal_reread_markup hsound.unbroken ht hnames
  | true =>
    obtain ⟨content, rfl⟩ := exists_of_isText ht
    exact hclean

/-! ## Documents -/

namespace Document

variable {source : String} {d d' : Document}

/-- Is there one tree at the top, which is settled? -/
def settled (d : Document) : Bool :=
  match (d.children top).map d.tree with
  | [t] => t.settled []
  | _ => false

/-- A document that is read holds one element. -/
theorem exists_root_of_read (h : Document.read source = .ok d) :
    ∃ name attributes children, (d.children top).map d.tree = [.element name attributes children] ∧
      readTree source = .ok (.document [.element name attributes children]) := by
  obtain ⟨t, ht, -⟩ := bind_eq_ok h
  obtain ⟨name, attributes, children, rfl⟩ := exists_of_readTree ht
  exact ⟨name, attributes, children, trees_of_read ht h, ht⟩

/-- A document without namespaces and carriage returns is settled. -/
theorem settled_of_plain (h : Document.read source = .ok d) (hnamed : d.wellNamed)
    (hplain : ∀ t ∈ (d.children top).map d.tree, t.plain) : d.settled := by
  obtain ⟨name, attributes, children, htrees, hread⟩ := exists_root_of_read h
  rw [wellNamed, htrees] at hnamed
  rw [htrees, List.forall_mem_singleton] at hplain
  rw [settled, htrees]
  exact Tree.settled_of_plain (clean_of_readTree hread).1 hnamed hplain

/-- What is written for a well-named element that was read is read as `Tree.reread` says. -/
theorem readTree_write {name : String} {attributes : Attributes} {children : List Tree}
    (hsound : (Tree.element name attributes children).Sound)
    (hnamed : (Tree.element name attributes children).wellNamed []) :
    readTree (writeTop [.element name attributes children]) =
      .ok (.document [(Tree.element name attributes children).reread []]) := by
  have hreadable := hsound.readable [] _ hnamed
  have hall : ReadableAll [.element name attributes children] := ⟨hreadable, trivial⟩
  rw [readTree, pieces_write hall, ok_bind, nest_stretches hreadable, ok_bind,
    Tree.resolve_raw 0 false hnamed rfl]
  rfl

theorem toList_write {t : Tree} (h : (d.children top).map d.tree = [t]) :
    d.write.toList = t.write 0 false := by
  rw [write, h, toList_writeTop, writeLines, List.append_nil]

/-- What is written for a document that was read is read again and written as it was, if and only
if the document is well-named and settled. -/
theorem reload_is_stable_iff (h : Document.read source = .ok d) :
    (∃ d', Document.read d.write = .ok d' ∧ d'.write = d.write) ↔ d.wellNamed ∧ d.settled := by
  have hregular := regular_of_read h
  obtain ⟨name, attributes, children, htrees, hread⟩ := exists_root_of_read h
  let t : Tree := .element name attributes children
  have hclean : t.Clean := (clean_of_readTree hread).1
  obtain ⟨-, hsound, hvalid⟩ := hregular.roots t (by rw [htrees]; exact List.mem_singleton_self t)
  have hsettled : d.settled = t.settled [] := by rw [settled, htrees]
  have hnamed : d.wellNamed = t.wellNamed [] := by rw [wellNamed, htrees]
  -- The document that is read again holds what `Tree.reread` says.
  have hreread {d'} (hnamed : t.wellNamed []) (h' : Document.read d.write = .ok d') :
      (d'.children top).map d'.tree = [t.reread []] := by
    rw [write, htrees] at h'
    exact trees_of_read (readTree_write hsound hnamed) h'
  have hjoined : t.joined.write 0 false = d.write.toList := by
    rw [toList_write htrees, Tree.write_joined 0 false hclean]
  rw [hsettled, ← Tree.reread_eq_joined_iff hclean]
  constructor
  · rintro ⟨d', h', hsame⟩
    have hwell := wellNamed_of_canRead hregular ⟨d', h'⟩
    have htrees' := hreread (hnamed ▸ hwell) h'
    have hvalid' : (t.reread []).HasValidNames := Tree.hasValidNames_reread (hnamed ▸ hwell)
    have hwritten : (t.reread []).write 0 false ++ [] = t.joined.write 0 false ++ [] := by
      rw [hjoined, ← toList_write htrees', hsame]
    exact ⟨hwell, (Tree.write_inj 0 false (Tree.normal_reread hclean hsound hvalid')
      (Tree.normal_joined hclean hsound hvalid) rfl rfl hwritten).1⟩
  · rintro ⟨hwell, heq⟩
    obtain ⟨d', h'⟩ := (canRead_write_iff hregular).mpr hwell
    have htrees' := hreread (hnamed ▸ hwell) h'
    refine ⟨d', h', ?_⟩
    rw [← String.toList_inj, toList_write htrees', heq, hjoined]

/-- An element with a qualifier, two texts with an instruction between them, and a comment. -/
theorem reload_is_stable_of_mixed_content :
    let source := "<r xmlns:p=\"u\"><p:a b=\"1&#13;\">x &lt;<?i?>\r\ny</p:a><!--c--></r>"
    let d : Document := ⟨#[⟨.document, none, [1]⟩,
      ⟨.element ⟨"r", [("xmlns:p", "u")]⟩, some 0, [2, 5]⟩,
      ⟨.element ⟨"p:a", [("b", "1\r")]⟩, some 1, [3, 4]⟩, ⟨.text "x <", some 2, []⟩,
      ⟨.text "\ny", some 2, []⟩, ⟨.comment "c", some 1, []⟩], 1⟩
    Document.read source = .ok d ∧ d.wellNamed ∧ d.settled ∧
      ∃ d', Document.read d.write = .ok d' ∧ d'.write = d.write := by
  intro source d
  have hread : Document.read source = .ok d := by decide +kernel
  have hwell : d.wellNamed := by decide +kernel
  have hsettled : d.settled := by decide +kernel
  exact ⟨hread, hwell, hsettled, (reload_is_stable_iff hread).mpr ⟨hwell, hsettled⟩⟩

/-- A carriage return in a text is a line feed when the text is read again.  And where an element
declares for names without qualifier what a qualifier stands for around it, and declares that one
again, the qualifier of its name is left out when it is read again. -/
theorem reload_is_unstable :
    (∃ d d', Document.read "<root>a&#13;b</root>" = .ok d ∧ d.write = "<root>a\rb</root>" ∧
      Document.read d.write = .ok d' ∧ d'.write = "<root>a\nb</root>") ∧
    (∃ d d', Document.read "<r xmlns:p=\"u\"><p:a xmlns:p=\"u\" xmlns=\"u\"></p:a></r>" = .ok d ∧
      d.write = "<r xmlns:p=\"u\">\n  <p:a xmlns=\"u\" />\n</r>" ∧
      Document.read d.write = .ok d' ∧ d'.write = "<r xmlns:p=\"u\">\n  <a xmlns=\"u\" />\n</r>") ∧
    ¬∀ source d, Document.read source = .ok d →
      ∃ d', Document.read d.write = .ok d' ∧ d'.write = d.write := by
  let text (s : String) : Document :=
    ⟨#[⟨.document, none, [1]⟩, ⟨.element ⟨"root", []⟩, some 0, [2]⟩, ⟨.text s, some 1, []⟩], 1⟩
  let inner (name : String) : Document := ⟨#[⟨.document, none, [1]⟩,
    ⟨.element ⟨"r", [("xmlns:p", "u")]⟩, some 0, [2]⟩,
    ⟨.element ⟨name, [("xmlns", "u")]⟩, some 1, []⟩], 1⟩
  have hread : Document.read "<root>a&#13;b</root>" = .ok (text "a\rb") := by decide +kernel
  have hreread : Document.read (text "a\rb").write = .ok (text "a\nb") := by decide +kernel
  have hread' : Document.read "<r xmlns:p=\"u\"><p:a xmlns:p=\"u\" xmlns=\"u\"></p:a></r>" =
    .ok (inner "p:a") := by decide +kernel
  have hreread' : Document.read (inner "p:a").write = .ok (inner "a") := by decide +kernel
  refine ⟨⟨_, _, hread, by decide +kernel, hreread, by decide +kernel⟩,
    ⟨_, _, hread', by decide +kernel, hreread', by decide +kernel⟩, fun hstable => ?_⟩
  obtain ⟨d', h', hsame⟩ := hstable _ _ hread
  rw [hreread] at h'
  cases h'
  revert hsame
  decide +kernel

end Document

end PatchScript.Xml
