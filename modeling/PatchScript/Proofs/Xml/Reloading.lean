import PatchScript.Proofs.Xml.Attributes
import PatchScript.Proofs.Xml.Resolving

/-!
# What is written for a well-named tree is read again

What is written for a tree need not be read as the same tree.  Texts that stand side by side are
joined, their line ends are changed, and they are left out if they are blank.  And names are made
again from the declarations in scope, so a name can get another qualifier.

Apart from that, a reader gets back what was written: `Tree.reread` says what it makes of a tree
whose names resolve (`Tree.resolve_raw`).  The names that it makes are valid, so a document that
is well-named can be read again (`Document.canRead_write`).
-/

namespace PatchScript.Xml

/-! ## Tags -/

/-- The declarations of an element stand first in its scope, and what follows them holds around
it. -/
theorem Scope.inherit_eq_append (own outer : Scope) :
    ∃ inherited, Scope.inherit own outer = own ++ inherited ∧ ∀ d ∈ inherited, d ∈ outer := by
  have step : ∀ outer s : Scope, ∃ inherited,
      outer.foldl (fun s d => if s.declares d.qualifier then s else s ++ [d]) s = s ++ inherited ∧
        ∀ d ∈ inherited, d ∈ outer := by
    intro outer
    induction outer with
    | nil => exact fun s => ⟨[], (List.append_nil s).symm, fun _ hd => hd⟩
    | cons b outer ih =>
      intro s
      rw [List.foldl_cons]
      split
      · obtain ⟨inherited, heq, hall⟩ := ih s
        exact ⟨inherited, heq, fun d hd => List.mem_cons_of_mem _ (hall d hd)⟩
      · obtain ⟨inherited, heq, hall⟩ := ih (s ++ [b])
        refine ⟨b :: inherited, heq.trans (List.append_cons s b inherited).symm, ?_⟩
        exact List.forall_mem_cons.mpr
          ⟨List.mem_cons_self, fun d hd => List.mem_cons_of_mem _ (hall d hd)⟩
  rw [Scope.inherit]
  split
  · rename_i hown
    exact ⟨outer, by rw [List.isEmpty_iff.mp hown, List.nil_append], fun _ hd => hd⟩
  · exact step outer own

/-- A declaration in scope is one of the element or of those around it. -/
theorem Scope.mem_inherit {d : Declaration} {own outer : Scope} (h : d ∈ Scope.inherit own outer) :
    d ∈ own ∨ d ∈ outer := by
  obtain ⟨inherited, heq, hall⟩ := Scope.inherit_eq_append own outer
  rw [heq] at h
  exact (List.mem_append.mp h).imp_right (hall d)

namespace Tag

/-- The name that the element of a tag is read with. -/
def resolvedName (outer : Scope) (tag : Tag) : String :=
  qualify (tag.scope outer) false (expandedElement (tag.scope outer) tag.name)

/-- The attributes that the element of a tag is read with: the declarations that are new, and the
other attributes. -/
def resolvedAttributes (outer : Scope) (tag : Tag) : Attributes :=
  Attributes.putAll
    (((tag.scope outer).filter fun d => !outer.contains d).map Declaration.attribute ++
      tag.others.map fun a =>
        (qualify (tag.scope outer) true (expandedAttribute (tag.scope outer) a.1), a.2)) []

/-- A tag whose names resolve is read with its resolved name and attributes. -/
theorem Resolves.resolve_eq {outer : Scope} {tag : Tag} (h : tag.Resolves outer) {rs : List Raw}
    {ts : List Tree} (hrs : resolveAll (tag.scope outer) rs = .ok ts) :
    resolve outer (.element tag rs) =
      .ok [.element (tag.resolvedName outer) (tag.resolvedAttributes outer) ts] := by
  have hsplit : splitDeclarations [] tag.attributes = .ok (tag.own, tag.others) :=
    splitDeclarations_eq tag.attributes [] h.allowed List.not_mem_nil h.distinct
  have hexpand := expandAttributes_eq tag.others [] h.attributes h.different
    fun _ _ => List.not_mem_nil
  rw [resolve, hsplit, ok_bind]
  dsimp only
  rw [show Scope.inherit tag.own outer = tag.scope outer from rfl]
  rw [expandElement_eq h.element, ok_bind, hexpand, ok_bind, hrs, ok_bind, List.map_map]
  rfl

/-- The names that are made from those of a tag that resolve are valid. -/
theorem Resolves.isValidName_resolved {outer : Scope} {tag : Tag} (h : tag.Resolves outer) :
    ∀ a ∈ tag.resolvedAttributes outer, isValidName a.1 := by
  refine (Attributes.forall_mem_putAll (isValidName ·)).mpr
    (List.forall_mem_append.mpr ⟨List.forall_mem_map.mpr fun d hd => ?_,
      List.forall_mem_map.mpr h.attributeNames⟩)
  obtain ⟨hscope, hnew⟩ := List.mem_filter.mp hd
  rcases Scope.mem_inherit hscope with hown | houter
  · exact h.declarationNames d hown
  · have hold : outer.contains d = true := by simpa using houter
    rw [hold] at hnew
    cases hnew

end Tag

/-! ## Trees -/

/-- What a reader keeps of the characters of texts. -/
def textsRead (cs : List Char) : List Tree :=
  if isBlankText (asRead cs) then [] else [.text (asRead cs)]

mutual

/-- What a reader makes of what is written for a tree.  `outer` is the scope around it. -/
def Tree.reread (outer : Scope) : Tree → Tree
  | .element name attributes children =>
    let tag := tagOf name attributes
    .element (tag.resolvedName outer) (tag.resolvedAttributes outer)
      (rereadAll (tag.scope outer) [] children)
  | .document children => .document children
  | .text content => .text content
  | .comment content => .comment content

/-- What a reader makes of what is written for trees, and of the characters of texts that stand
before them. -/
def rereadAll (outer : Scope) (pending : List Char) : List Tree → List Tree
  | [] => textsRead pending
  | .text content :: ts => rereadAll outer (pending ++ content.toList) ts
  | t :: ts => textsRead pending ++ t.reread outer :: rereadAll outer [] ts

end

variable {t : Tree} {ts : List Tree} {pending : List Char} {outer : Scope}

theorem rereadAll_cons (ht : t.isText = false) (outer : Scope) (pending : List Char)
    (ts : List Tree) : rereadAll outer pending (t :: ts) =
      textsRead pending ++ t.reread outer :: rereadAll outer [] ts := by
  cases t with
  | text => cases ht
  | document | comment | element => rfl

@[simp] theorem isText_reread (outer : Scope) (t : Tree) : (t.reread outer).isText = t.isText := by
  cases t <;> rfl

theorem resolveAll_textRaw {rs : List Raw} (cs : List Char) (h : resolveAll outer rs = .ok ts) :
    resolveAll outer (textRaw cs ++ rs) = .ok (textsRead cs ++ ts) := by
  cases cs with
  | nil => exact h
  | cons c cs =>
    show resolveAll outer (.text (asRead (c :: cs)) :: rs) = _
    rw [resolveAll, resolve, ok_bind, h]
    rfl

theorem haveValidNames_textsRead (cs : List Char) : HaveValidNames (textsRead cs) := by
  rw [textsRead]
  split
  · trivial
  · exact ⟨trivial, trivial⟩

/-- The blanks between lines are not kept. -/
theorem textsRead_margin (depth : Nat) (inline : Bool) :
    textsRead ('\n' :: margin depth inline) = [] := by
  have hreturn : '\r' ∉ '\n' :: margin depth inline := by
    simp only [List.mem_cons, not_or]
    exact ⟨by decide, fun h => absurd (eq_of_mem_margin h) (by decide)⟩
  rw [textsRead, asRead_eq hreturn, if_pos (isBlankText_margin depth inline)]

mutual

/-- What is written for a well-named tree is read as `reread` says. -/
theorem Tree.resolve_raw (depth : Nat) (inline : Bool) : ∀ {t : Tree} {outer : Scope},
    t.wellNamed outer → t.isText = false →
    resolve outer (t.raw depth inline) = .ok [t.reread outer]
  | .document _, _, h, _ => by cases h
  | .text _, _, _, h => by cases h
  | .comment content, _, _, _ => rfl
  | .element name attributes children, outer, h, _ => by
    simp only [Tree.wellNamed, Bool.and_eq_true, decide_eq_true_eq] at h
    obtain ⟨⟨-, hresolves⟩, hchildren⟩ := h
    rw [Tree.raw, Tree.reread]
    refine hresolves.resolve_eq ?_
    split
    · rename_i hempty
      rw [List.isEmpty_iff.mp hempty]
      rfl
    · split
      · exact resolveAll_inlineRaws [] hchildren
      · rename_i hlines
        rw [Bool.not_eq_true, Bool.or_eq_false_iff] at hlines
        exact resolveAll_lineRaws (depth + 1) (textsRead_margin depth inline) hchildren hlines.2

theorem resolveAll_inlineRaws (pending : List Char) : ∀ {ts : List Tree} {outer : Scope},
    allWellNamed outer ts →
    resolveAll outer (inlineRaws pending ts) = .ok (rereadAll outer pending ts)
  | [], outer, _ => by
    have hnil : resolveAll outer [] = .ok [] := rfl
    have htext := resolveAll_textRaw pending hnil
    rwa [List.append_nil, List.append_nil] at htext
  | t :: ts, outer, h => by
    rw [allWellNamed, Bool.and_eq_true] at h
    cases ht : t.isText with
    | true =>
      obtain ⟨content, rfl⟩ := exists_of_isText ht
      exact resolveAll_inlineRaws (pending ++ content.toList) h.2
    | false =>
      rw [inlineRaws_cons ht, rereadAll_cons ht]
      refine resolveAll_textRaw pending ?_
      rw [resolveAll, Tree.resolve_raw 0 true h.1 ht, ok_bind, resolveAll_inlineRaws [] h.2]
      rfl

theorem resolveAll_lineRaws (depth : Nat) {behind : List Char} (hbehind : textsRead behind = []) :
    ∀ {ts : List Tree} {outer : Scope}, allWellNamed outer ts → ts.any Tree.isText = false →
    resolveAll outer (lineRaws depth ts ++ textRaw behind) = .ok (rereadAll outer [] ts)
  | [], outer, _, _ => by
    have hnil : resolveAll outer [] = .ok [] := rfl
    have htext := resolveAll_textRaw behind hnil
    rw [hbehind] at htext
    rwa [List.append_nil] at htext
  | t :: ts, outer, h, hlines => by
    rw [allWellNamed, Bool.and_eq_true] at h
    rw [List.any_cons, Bool.or_eq_false_iff] at hlines
    have hrest : resolveAll outer (t.raw depth false :: (lineRaws depth ts ++ textRaw behind)) =
        .ok (rereadAll outer [] (t :: ts)) := by
      rw [rereadAll_cons hlines.1, resolveAll, Tree.resolve_raw depth false h.1 hlines.1, ok_bind,
        resolveAll_lineRaws depth hbehind h.2 hlines.2]
      rfl
    have htext := resolveAll_textRaw ('\n' :: margin depth false) hrest
    rw [textsRead_margin] at htext
    rw [lineRaws, List.append_assoc]
    exact htext

end

/-! ## Valid names -/

mutual

/-- What a reader makes of a well-named tree has valid names. -/
theorem Tree.hasValidNames_reread : ∀ {t : Tree} {outer : Scope}, t.wellNamed outer →
    (t.reread outer).HasValidNames
  | .document _, _, h => by cases h
  | .text _, _, _ => trivial
  | .comment _, _, _ => trivial
  | .element _ _ _, _, h => by
    simp only [Tree.wellNamed, Bool.and_eq_true, decide_eq_true_eq] at h
    obtain ⟨⟨-, hresolves⟩, hchildren⟩ := h
    exact ⟨hresolves.elementName, hresolves.isValidName_resolved,
      haveValidNames_rereadAll [] hchildren⟩

theorem haveValidNames_rereadAll (pending : List Char) : ∀ {ts : List Tree} {outer : Scope},
    allWellNamed outer ts → HaveValidNames (rereadAll outer pending ts)
  | [], _, _ => haveValidNames_textsRead pending
  | t :: ts, outer, h => by
    rw [allWellNamed, Bool.and_eq_true] at h
    cases ht : t.isText with
    | true =>
      obtain ⟨content, rfl⟩ := exists_of_isText ht
      exact haveValidNames_rereadAll (pending ++ content.toList) h.2
    | false =>
      rw [rereadAll_cons ht]
      exact haveValidNames_append.mpr ⟨haveValidNames_textsRead pending,
        Tree.hasValidNames_reread h.1, haveValidNames_rereadAll [] h.2⟩

end

/-! ## Reading -/

theorem checkName_ok {name : String} (h : isValidName name) : checkName name = .ok () := by
  rw [checkName, if_pos h]

theorem setAttributes_ok (id : NodeId) : ∀ (attributes : Attributes) (d : Document),
    (∀ a ∈ attributes, isValidName a.1) →
    ∃ d', attributes.foldlM (fun d a => d.setAttribute id a.1 a.2) d = .ok d' := by
  intro attributes
  induction attributes with
  | nil => exact fun d _ => ⟨d, rfl⟩
  | cons a attributes ih =>
    intro d h
    obtain ⟨ha, hrest⟩ := List.forall_mem_cons.mp h
    rw [List.foldlM_cons, Document.setAttribute, checkName_ok ha]
    exact ih _ hrest

mutual

theorem append_ok : ∀ (t : Tree), t.HasValidNames → ∀ (d : Document) (parent : NodeId),
    ∃ d', d.append parent t = .ok d'
  | .document children, h, d, parent => appendAll_ok children h d parent
  | .text content, _, d, parent => ⟨_, rfl⟩
  | .comment content, _, d, parent => ⟨_, rfl⟩
  | .element name attributes children, h, d, parent => by
    obtain ⟨hname, hattributes, hchildren⟩ := h
    obtain ⟨d', hd'⟩ := setAttributes_ok d.next attributes
      (d.push parent (.element ⟨name, []⟩)) hattributes
    obtain ⟨d'', hd''⟩ := appendAll_ok children hchildren d' d.next
    refine ⟨d'', ?_⟩
    have happend : d.appendElement parent name =
        .ok (d.push parent (.element ⟨name, []⟩), d.next) := by
      rw [Document.appendElement, checkName_ok hname]
      rfl
    rw [Document.append, happend, ok_bind]
    dsimp only
    rw [hd', ok_bind, hd'']

/-- Trees with valid names can be added to every document. -/
theorem appendAll_ok : ∀ (ts : List Tree), HaveValidNames ts → ∀ (d : Document) (parent : NodeId),
    ∃ d', d.appendAll parent ts = .ok d'
  | [], _, d, _ => ⟨d, rfl⟩
  | t :: ts, h, d, parent => by
    obtain ⟨d', hd'⟩ := append_ok t h.1 d parent
    obtain ⟨d'', hd''⟩ := appendAll_ok ts h.2 d' parent
    refine ⟨d'', ?_⟩
    rw [Document.appendAll, hd', ok_bind, hd'']

end

namespace Document

/-- Is there one root element, in which all names resolve? -/
def wellNamed (d : Document) : Bool :=
  match (d.children top).map d.tree with
  | [.element name attributes children] => (Tree.element name attributes children).wellNamed []
  | _ => false

/-- A text can be read as a document. -/
def CanRead (source : String) : Prop := ∃ d, Document.read source = .ok d

theorem canRead_iff {source : String} : CanRead source ↔ (Document.read source).isOk := by
  cases h : Document.read source with
  | ok d => exact ⟨fun _ => rfl, fun _ => ⟨d, h⟩⟩
  | error e =>
    refine ⟨fun ⟨d, hd⟩ => ?_, nofun⟩
    rw [h] at hd
    cases hd

instance (source : String) : Decidable (CanRead source) :=
  decidable_of_iff ((Document.read source).isOk = true) canRead_iff.symm

/-- What is written for a document that is well-named can be read. -/
theorem canRead_write {d : Document} (h : d.wellNamed)
    (hsound : ∀ t ∈ (d.children top).map d.tree, t.Sound) : CanRead d.write := by
  rw [wellNamed] at h
  split at h
  · rename_i name attributes children htree
    have hreadable : (Tree.element name attributes children).Readable := by
      refine Tree.Sound.readable [] _ (hsound _ ?_) h
      rw [htree]
      exact List.mem_singleton_self _
    obtain ⟨d', hd'⟩ :=
      appendAll_ok [_] ⟨Tree.hasValidNames_reread h, trivial⟩ empty top
    refine ⟨d', ?_⟩
    have hall : ReadableAll [Tree.element name attributes children] := ⟨hreadable, trivial⟩
    rw [read, readTree, write, htree, pieces_write hall, ok_bind, nest_stretches hreadable,
      ok_bind, Tree.resolve_raw 0 false h rfl]
    exact hd'
  · cases h

end Document

end PatchScript.Xml
