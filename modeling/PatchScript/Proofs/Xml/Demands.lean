import PatchScript.Proofs.Xml.Refusing
import PatchScript.Proofs.Xml.Reloading
import PatchScript.Proofs.Xml.Shape

/-!
# What reading demands of names

If what is written for a document can be read, the names of the document resolve: each thing that
a reader checks is one of the conditions of `Tag.Resolves`.  So the documents whose texts can be
read are those that are well-named, and no others (`Document.canRead_write_iff`).
-/

namespace PatchScript.Xml

/-! ## Declarations -/

/-- A declaration that can be split off is allowed, and its qualifier is not declared already. -/
theorem splitDeclarations_cons_demands {name : QName} {value : String}
    {attributes : List (QName × String)} {found : Scope} {r : Scope × List (QName × String)}
    (hfound : found.qualifiers.Nodup)
    (h : splitDeclarations found ((name, value) :: attributes) = .ok r) :
    (name.isDeclaration → IsAllowed (name, value)) ∧
      (found ++ ownDeclarations [(name, value)]).qualifiers.Nodup ∧
      ∃ r', splitDeclarations (found ++ ownDeclarations [(name, value)]) attributes = .ok r' := by
  have hfound' : (found.qualifiers ++ []).Nodup := by rwa [List.append_nil]
  rw [Scope.qualifiers_append, IsAllowed]
  rw [splitDeclarations] at h
  split at h
  · rename_i hname
    rw [if_pos hname, ownDeclarations_qualified hname]
    split at h
    · cases h
    · rename_i hreserved
      split at h
      · cases h
      · rename_i hkept
        rw [bne_iff_ne, not_not, Bool.eq_iff_iff, beq_iff_eq, beq_iff_eq] at hkept
        refine ⟨fun _ => ⟨hreserved, hkept⟩, ?_⟩
        split at h
        · cases h
        · rename_i hnew
          rw [Scope.declares_iff] at hnew
          split at h
          · rename_i haddress
            rw [if_pos haddress, List.append_nil]
            exact ⟨hfound', r, h⟩
          · rename_i haddress
            rw [if_neg haddress]
            refine ⟨List.nodup_append.mpr ⟨hfound, List.nodup_singleton _, ?_⟩, r, h⟩
            intro b hb c hc hbc
            cases List.mem_singleton.mp hc
            exact hnew (hbc ▸ hb)
  · rename_i hname
    rw [if_neg hname]
    split at h
    · rename_i hlocal
      split at h
      · cases h
      · rename_i haddress
        rw [not_or] at haddress
        rw [ownDeclarations_default hname hlocal haddress.1]
        exact ⟨fun _ => haddress, hfound', r, h⟩
    · rename_i hlocal
      have hdeclaration : name.isDeclaration = false := by
        simp [QName.isDeclaration, hname, hlocal]
      obtain ⟨r', hr', -⟩ := bind_eq_ok h
      rw [ownDeclarations_other hdeclaration, List.append_nil]
      refine ⟨fun hdeclares => ?_, hfound', r', hr'⟩
      rw [hdeclaration] at hdeclares
      cases hdeclares

/-- Declarations that can be split off are allowed, and no qualifier is declared twice. -/
theorem splitDeclarations_demands : ∀ {attributes : List (QName × String)} {found : Scope}
    {r : Scope × List (QName × String)}, found.qualifiers.Nodup →
    splitDeclarations found attributes = .ok r →
    (∀ a ∈ attributes, a.1.isDeclaration → IsAllowed a) ∧
      (found ++ ownDeclarations attributes).qualifiers.Nodup := by
  intro attributes
  induction attributes with
  | nil =>
    intro found r hfound _
    refine ⟨fun _ ha => absurd ha List.not_mem_nil, ?_⟩
    rwa [show ownDeclarations [] = [] from rfl, List.append_nil]
  | cons a attributes ih =>
    intro found r hfound h
    obtain ⟨hallowed, hnodup, r', h⟩ := splitDeclarations_cons_demands hfound h
    obtain ⟨hrest, hall⟩ := ih hnodup h
    rw [ownDeclarations_cons, ← List.append_assoc]
    exact ⟨List.forall_mem_cons.mpr ⟨hallowed, hrest⟩, hall⟩

/-! ## Expanded names -/

theorem Scope.declares_of_address? {s : Scope} {qualifier : Option String} {address : String}
    (h : s.address? qualifier = some address) : s.declares qualifier := by
  obtain ⟨d, hd, -⟩ := Option.map_eq_some_iff.mp h
  have hqualifier := List.find?_some hd
  exact List.any_eq_true.mpr ⟨d, List.mem_of_find?_eq_some hd, hqualifier⟩

theorem declares_of_expand {s : Scope} {qualifier : Option String} {localName : String}
    {n : ExpandedName} (h : expand s qualifier localName = .ok n) :
    qualifier = none ∨ s.declares qualifier := by
  unfold expand at h
  split at h
  · rename_i haddress
    exact .inr (Scope.declares_of_address? haddress)
  · exact .inl rfl
  · cases h

/-- The qualifier of an element that can be expanded is declared. -/
theorem knows_of_expandElement {s : Scope} {name : QName} {n : ExpandedName}
    (h : expandElement s name = .ok n) : s.KnowsElement name := by
  rw [expandElement] at h
  split at h
  · cases h
  · rename_i hreserved
    refine ⟨hreserved, ?_⟩
    by_cases hempty : name.qualifier = ""
    · exact .inl hempty
    · rw [if_neg hempty] at h
      exact .inr ((declares_of_expand h).resolve_left (Option.some_ne_none _))

/-- The qualifier of an attribute that can be expanded is declared. -/
theorem knows_of_expandAttribute {s : Scope} {name : QName} {n : ExpandedName}
    (h : expandAttribute s name = .ok n) : s.KnowsAttribute name := by
  rw [expandAttribute] at h
  split at h
  · rename_i hxml
    exact .inr (.inl hxml)
  · split at h
    · rename_i hempty
      exact .inl hempty
    · exact .inr (.inr ((declares_of_expand h).resolve_left (Option.some_ne_none _)))

/-- Attributes that can be expanded have qualifiers that are declared and different names. -/
theorem expandAttributes_demands {s : Scope} : ∀ {attributes : List (QName × String)}
    {before : List ExpandedName} {r : List (ExpandedName × String)},
    expandAttributes s before attributes = .ok r →
    (∀ a ∈ attributes, s.KnowsAttribute a.1) ∧
      (attributes.map fun a => expandedAttribute s a.1).Nodup ∧
      ∀ a ∈ attributes, expandedAttribute s a.1 ∉ before := by
  intro attributes
  induction attributes with
  | nil =>
    exact fun _ => ⟨fun _ ha => absurd ha List.not_mem_nil, List.nodup_nil,
      fun _ ha => absurd ha List.not_mem_nil⟩
  | cons a attributes ih =>
    intro before r h
    obtain ⟨name, value⟩ := a
    obtain ⟨n, hn, h⟩ := bind_eq_ok h
    have hknown := knows_of_expandAttribute hn
    rw [expandAttribute_eq hknown] at hn
    cases hn
    dsimp only at h
    split at h
    · cases h
    · rename_i hnew
      obtain ⟨rest, hrest, h⟩ := bind_eq_ok h
      obtain ⟨hknowns, hnodup, hlater⟩ := ih hrest
      have hfirst : expandedAttribute s name ∉ before := by simpa using hnew
      refine ⟨List.forall_mem_cons.mpr ⟨hknown, hknowns⟩, ?_, List.forall_mem_cons.mpr ⟨hfirst, ?_⟩⟩
      · rw [List.map_cons, List.nodup_cons]
        refine ⟨fun hmem => ?_, hnodup⟩
        obtain ⟨b, hb, hsame⟩ := List.mem_map.mp hmem
        exact hlater b hb (hsame ▸ List.mem_cons_self)
      · exact fun b hb hmem => hlater b hb (List.mem_cons_of_mem _ hmem)

/-! ## Tags -/

/-- The content resolves to trees with valid names. -/
def ResolvesAll (outer : Scope) (rs : List Raw) : Prop :=
  ∃ ts, resolveAll outer rs = .ok ts ∧ HaveValidNames ts

/-- What it takes to read a tag as an element.  Of `Tag.Resolves`, this is all that is not about the
names which are made. -/
structure Tag.Expands (outer : Scope) (tag : Tag) : Prop where
  /-- No namespace is declared that may not be. -/
  allowed : ∀ a ∈ tag.attributes, a.1.isDeclaration → IsAllowed a
  /-- No qualifier is declared twice. -/
  distinct : tag.own.qualifiers.Nodup
  /-- The qualifier of the element is declared. -/
  element : (tag.scope outer).KnowsElement tag.name
  /-- The qualifiers of the attributes are declared. -/
  attributes : ∀ a ∈ tag.others, (tag.scope outer).KnowsAttribute a.1
  /-- No two attributes have the same expanded name. -/
  different : (tag.others.map fun a => expandedAttribute (tag.scope outer) a.1).Nodup

/-- What is read for a tag and the content behind it is one element, with the resolved name and
attributes of the tag. -/
theorem Tag.expands_of_element {outer : Scope} {tag : Tag} {rs : List Raw} {ts : List Tree}
    (h : resolve outer (.element tag rs) = .ok ts) :
    tag.Expands outer ∧ ∃ children, resolveAll (tag.scope outer) rs = .ok children ∧
      ts = [.element (tag.resolvedName outer) (tag.resolvedAttributes outer) children] := by
  rw [resolve] at h
  obtain ⟨⟨own, others⟩, hsplit, h⟩ := bind_eq_ok h
  have hnone : (Scope.qualifiers []).Nodup := List.nodup_nil
  obtain ⟨hallowed, hdistinct⟩ := splitDeclarations_demands hnone hsplit
  rw [splitDeclarations_eq tag.attributes [] hallowed List.not_mem_nil hdistinct] at hsplit
  cases hsplit
  dsimp only at h
  have hscope : Scope.inherit ([] ++ ownDeclarations tag.attributes) outer = tag.scope outer := rfl
  rw [hscope] at h
  obtain ⟨name, hname, h⟩ := bind_eq_ok h
  have helement := knows_of_expandElement hname
  rw [expandElement_eq helement] at hname
  cases hname
  obtain ⟨attributes, hattributes, h⟩ := bind_eq_ok h
  obtain ⟨hknown, hdifferent, -⟩ := expandAttributes_demands hattributes
  rw [expandAttributes_eq _ [] hknown hdifferent fun _ _ => List.not_mem_nil] at hattributes
  cases hattributes
  obtain ⟨children, hchildren, h⟩ := bind_eq_ok h
  rw [List.map_map] at h
  cases h
  exact ⟨⟨hallowed, hdistinct, helement, hknown, hdifferent⟩, children, hchildren, rfl⟩

/-- A tag resolves if it is read as an element with valid names, and so does what is in it. -/
theorem Tag.resolves_of_element {outer : Scope} {tag : Tag} {rs : List Raw} {ts : List Tree}
    (h : resolve outer (.element tag rs) = .ok ts) (hvalid : HaveValidNames ts)
    (hdeclarations : ∀ d ∈ tag.own, isValidName d.attribute.1) :
    tag.Resolves outer ∧ ResolvesAll (tag.scope outer) rs := by
  obtain ⟨hexpands, children, hchildren, rfl⟩ := expands_of_element h
  obtain ⟨⟨helementName, hnames, hvalids⟩, -⟩ := hvalid
  obtain ⟨-, hothers⟩ := List.forall_mem_append.mp
    ((Attributes.forall_mem_putAll (isValidName ·)).mp hnames)
  exact ⟨⟨hexpands.allowed, hexpands.distinct, hexpands.element, hexpands.attributes,
    hexpands.different, helementName, List.forall_mem_map.mp hothers, hdeclarations⟩,
    children, hchildren, hvalids⟩

/-! ## The names of declarations -/

/-- What is read at the front is what stands before the first colon and what stands behind it. -/
theorem qname_parts {cs rest : List Char} {q : QName} (h : qname cs = .ok (q, rest)) :
    let run := cs.takeWhile isTagNamePart
    q = if run.contains ':' then ⟨String.ofList (run.takeWhile (· != ':')),
        String.ofList ((run.dropWhile (· != ':')).drop 1)⟩
      else ⟨"", String.ofList run⟩ := by
  intro run
  rw [qname] at h
  have hrun : cs.takeWhile isTagNamePart = run := rfl
  rw [hrun] at h
  dsimp only at h
  generalize hparts : (if run.contains ':' then
    (run.takeWhile (· != ':'), (run.dropWhile (· != ':')).drop 1) else ([], run)) = parts at h
  have hq : q = ⟨String.ofList parts.1, String.ofList parts.2⟩ := by
    obtain ⟨qualifier, localName⟩ := parts
    dsimp only at h ⊢
    split at h
    · cases h
    · split at h
      · split at h
        · cases h
        · split at h
          · cases h
            rfl
          · cases h
      · cases h
  rw [hq, ← hparts]
  split <;> rfl

/-- A name with a qualifier is the qualifier, a colon and the rest. -/
theorem qname_qualified {cs rest : List Char} {q : QName} (h : qname cs = .ok (q, rest))
    (hq : q.qualifier ≠ "") :
    cs.takeWhile isTagNamePart = q.qualifier.toList ++ ':' :: q.localName.toList := by
  have hparts := qname_parts h
  dsimp only at hparts
  generalize cs.takeWhile isTagNamePart = run at hparts ⊢
  split at hparts
  · rename_i hcolon
    have hmem : ':' ∈ run := by simpa using hcolon
    cases hdrop : run.dropWhile (· != ':') with
    | nil => exact absurd (List.dropWhile_eq_nil_iff.mp hdrop ':' hmem) (by decide)
    | cons c tail =>
      have hc : c = ':' := by
        have hhead := List.head?_dropWhile_not (· != ':') run
        rw [hdrop] at hhead
        simpa using hhead
      subst hc
      rw [hparts, String.toList_ofList, String.toList_ofList, hdrop, List.drop_succ_cons,
        List.drop_zero, ← hdrop, List.takeWhile_append_dropWhile]
  · rw [hparts] at hq
    exact absurd rfl hq

/-- The name that a declaration is read with is valid, since the one that it had was. -/
theorem isValidName_declaration {name value : String} (hq : isQName name)
    (hvalid : isValidName name) :
    isValidName (declarationOf (readName name, value)).attribute.1 := by
  rw [declarationOf]
  split
  · rename_i hqualifier
    have hne : (readName name).qualifier ≠ "" := by
      rw [hqualifier]
      decide
    have hrun := qname_qualified (qname_of_isQName hq) hne
    rw [List.takeWhile_eq_self_iff.mpr (all_isTagNamePart hq), hqualifier] at hrun
    have hname : "xmlns:" ++ (readName name).localName = name := by
      rw [← String.toList_inj, hrun, String.toList_append]
      rfl
    show isValidName ("xmlns:" ++ (readName name).localName) = true
    rw [hname]
    exact hvalid
  · show isValidName "xmlns" = true
    decide

theorem declarationNames {name : String} {attributes : Attributes}
    (hqs : ∀ a ∈ attributes, isQName a.1) (hvalid : ∀ a ∈ attributes, isValidName a.1) :
    ∀ d ∈ (tagOf name attributes).own, isValidName d.attribute.1 := by
  intro d hd
  obtain ⟨b, hb, rfl⟩ := List.mem_map.mp (List.mem_filter.mp hd).1
  obtain ⟨a, ha, rfl⟩ := List.mem_map.mp (List.mem_filter.mp hb).1
  exact isValidName_declaration (hqs a ha) (hvalid a ha)

/-! ## Trees -/

theorem ResolvesAll.of_cons {outer : Scope} {r : Raw} {rs : List Raw}
    (h : ResolvesAll outer (r :: rs)) :
    (∃ ts, resolve outer r = .ok ts ∧ HaveValidNames ts) ∧ ResolvesAll outer rs := by
  obtain ⟨ts, hts, hvalid⟩ := h
  rw [resolveAll] at hts
  obtain ⟨ts₁, h₁, hts⟩ := bind_eq_ok hts
  obtain ⟨ts₂, h₂, hts⟩ := bind_eq_ok hts
  cases hts
  obtain ⟨hfirst, hrest⟩ := haveValidNames_append.mp hvalid
  exact ⟨⟨ts₁, h₁, hfirst⟩, ts₂, h₂, hrest⟩

theorem ResolvesAll.of_text {outer : Scope} {cs : List Char} {rs : List Raw}
    (h : ResolvesAll outer (textRaw cs ++ rs)) : ResolvesAll outer rs := by
  cases cs with
  | nil => exact h
  | cons c cs => exact h.of_cons.2

mutual

theorem Tree.wellNamed_of_resolve (outer : Scope) (depth : Nat) (inline : Bool) : ∀ t : Tree,
    t.Readable → t.HasValidNames → t.isText = false →
    (∃ ts, resolve outer (t.raw depth inline) = .ok ts ∧ HaveValidNames ts) → t.wellNamed outer
  | .document _, h, _, _, _ => h.elim
  | .text _, _, _, h, _ => by cases h
  | .comment _, _, _, _, _ => rfl
  | .element name attributes children, h, hnames, _, hresolve => by
    obtain ⟨hname, hattributes, hchildren⟩ := h
    obtain ⟨-, hvalid, hvalids⟩ := hnames
    obtain ⟨ts, hts, hts'⟩ := hresolve
    rw [Tree.raw] at hts
    obtain ⟨hresolves, hcontent⟩ := Tag.resolves_of_element hts hts'
      (declarationNames (fun a ha => (hattributes a ha).1) hvalid)
    have hinside : allWellNamed ((tagOf name attributes).scope outer) children := by
      split at hcontent
      · rename_i hempty
        rw [List.isEmpty_iff.mp hempty]
        rfl
      · split at hcontent
        · exact allWellNamed_of_inline _ children hchildren hvalids [] hcontent
        · rename_i hlines
          rw [Bool.not_eq_true, Bool.or_eq_false_iff] at hlines
          exact allWellNamed_of_lines _ (depth + 1) children hchildren hvalids hlines.2 _ hcontent
    simp only [Tree.wellNamed, Bool.and_eq_true, List.all_eq_true, decide_eq_true_eq]
    exact ⟨⟨⟨hname, fun a ha => ⟨(hattributes a ha).1, List.all_eq_true.mp (hattributes a ha).2⟩⟩,
      hresolves⟩, hinside⟩

theorem allWellNamed_of_inline (outer : Scope) : ∀ ts : List Tree, ReadableAll ts →
    HaveValidNames ts → ∀ pending : List Char, ResolvesAll outer (inlineRaws pending ts) →
    allWellNamed outer ts
  | [], _, _, _, _ => rfl
  | t :: ts, h, hnames, pending, hresolve => by
    rw [allWellNamed, Bool.and_eq_true]
    cases ht : t.isText with
    | true =>
      obtain ⟨content, rfl⟩ := exists_of_isText ht
      exact ⟨rfl,
        allWellNamed_of_inline outer ts h.2 hnames.2 (pending ++ content.toList) hresolve⟩
    | false =>
      rw [inlineRaws_cons ht] at hresolve
      obtain ⟨hfirst, hrest⟩ := hresolve.of_text.of_cons
      exact ⟨Tree.wellNamed_of_resolve outer 0 true t h.1 hnames.1 ht hfirst,
        allWellNamed_of_inline outer ts h.2 hnames.2 [] hrest⟩

theorem allWellNamed_of_lines (outer : Scope) (depth : Nat) : ∀ ts : List Tree, ReadableAll ts →
    HaveValidNames ts → ts.any Tree.isText = false → ∀ behind : List Char,
    ResolvesAll outer (lineRaws depth ts ++ textRaw behind) → allWellNamed outer ts
  | [], _, _, _, _, _ => rfl
  | t :: ts, h, hnames, hlines, behind, hresolve => by
    rw [List.any_cons, Bool.or_eq_false_iff] at hlines
    rw [lineRaws, List.append_assoc] at hresolve
    obtain ⟨hfirst, hrest⟩ := hresolve.of_text.of_cons
    rw [allWellNamed, Bool.and_eq_true]
    exact ⟨Tree.wellNamed_of_resolve outer depth false t h.1 hnames.1 hlines.1 hfirst,
      allWellNamed_of_lines outer depth ts h.2 hnames.2 hlines.2 behind hrest⟩

end

/-! ## Reading -/

theorem isValidName_of_setAttributes {id : NodeId} : ∀ {attributes : Attributes}
    {d d' : Document}, attributes.foldlM (fun d a => d.setAttribute id a.1 a.2) d = .ok d' →
    ∀ a ∈ attributes, isValidName a.1 := by
  intro attributes
  induction attributes with
  | nil => exact fun _ _ ha => absurd ha List.not_mem_nil
  | cons a attributes ih =>
    intro d d' h
    rw [List.foldlM_cons] at h
    obtain ⟨d₁, hset, h⟩ := bind_eq_ok h
    obtain ⟨u, hname, -⟩ := bind_eq_ok hset
    exact List.forall_mem_cons.mpr ⟨Document.isValidName_of_checkName hname, ih h⟩

mutual

theorem hasValidNames_of_append : ∀ (t : Tree) {d d' : Document} {parent : NodeId},
    d.append parent t = .ok d' → t.HasValidNames
  | .document children, _, _, _, h => haveValidNames_of_appendAll children h
  | .text _, _, _, _, _ => trivial
  | .comment _, _, _, _, _ => trivial
  | .element name attributes children, _, _, _, h => by
    rw [Document.append] at h
    obtain ⟨⟨d₁, id⟩, happend, h⟩ := bind_eq_ok h
    obtain ⟨d₂, hset, h⟩ := bind_eq_ok h
    obtain ⟨u, hname, -⟩ := bind_eq_ok happend
    exact ⟨Document.isValidName_of_checkName hname, isValidName_of_setAttributes hset,
      haveValidNames_of_appendAll children h⟩

/-- Trees that can be added to a document have valid names. -/
theorem haveValidNames_of_appendAll : ∀ (ts : List Tree) {d d' : Document} {parent : NodeId},
    d.appendAll parent ts = .ok d' → HaveValidNames ts
  | [], _, _, _, _ => trivial
  | t :: ts, _, _, _, h => by
    rw [Document.appendAll] at h
    obtain ⟨d₁, happend, h⟩ := bind_eq_ok h
    exact ⟨hasValidNames_of_append t happend, haveValidNames_of_appendAll ts h⟩

end

/-- If what is written for trees is cut into pieces, the first of them being an element, the trees
are readable. -/
theorem readable_of_pieces {name : String} {attributes : Attributes} {children ts : List Tree}
    {ps : List Piece} (hwhole : AllUnbroken (.element name attributes children :: ts))
    (hnames : HaveValidNames (.element name attributes children :: ts))
    (h : pieces (writeTop (.element name attributes children :: ts)).toList = .ok ps) :
    ReadableAll (.element name attributes children :: ts) := by
  have hall := isXmlChar_of_pieces h
  obtain ⟨c, cs, hname, hstart, -⟩ := exists_cons_of_isValidName hnames.1.1
  rw [pieces_of_element hname (ne_of_isNameStart hstart).2.1 hall, ← chars_topStretches] at h
  rw [← chars_topStretches] at hall
  have hhonest : ∀ s ∈ topStretches (.element name attributes children :: ts), s.IsHonest := by
    rw [topStretches, List.forall_mem_append]
    exact ⟨Tree.isHonest 0 false _ hwhole.1 hnames.1, isHonest_lines 0 ts hwhole.2 hnames.2⟩
  have hread := isReadable_of_piecesFrom hhonest hall [] (Nat.le_refl _) h
  rw [topStretches, List.forall_mem_append] at hread
  exact ⟨Tree.readable_of_stretches 0 false _ hwhole.1 hnames.1 hread.1,
    readable_of_lines 0 ts hwhole.2 hnames.2 hread.2⟩

/-- Behind a root element there cannot be another one. -/
theorem nestFrom_second_root {root : Raw} {t : Tree} (ht : t.IsElement) (ts : List Tree) {r : Raw} :
    nestFrom (some root) [] (piecesOf [] (lineStretches 0 (t :: ts))) ≠ .ok r := by
  cases t with
  | document | text | comment => cases ht
  | element name attributes children =>
    have hpieces : ∃ closed ps,
        piecesOf [] (lineStretches 0 (.element name attributes children :: ts)) =
          .text ['\n'] :: .openTag (tagOf name attributes) closed :: ps := by
      rw [lineStretches, Tree.stretches]
      split <;> exact ⟨_, _, rfl⟩
    obtain ⟨closed, ps, hps⟩ := hpieces
    have htext : nestPiece (some root) [] (.text ['\n']) = .ok (some root, []) := rfl
    have htag : ∃ e,
        nestPiece (some root) [] (.openTag (tagOf name attributes) closed) = .error e := by
      cases closed <;> exact ⟨_, rfl⟩
    obtain ⟨e, he⟩ := htag
    rw [hps, nestFrom_cons, htext, ok_bind]
    dsimp only
    rw [nestFrom_cons, he]
    exact nofun

namespace Document

/-- If what is written for a document can be read, there is one root element, in which all names
resolve. -/
theorem wellNamed_of_canRead {d : Document} (hd : d.Regular) (h : CanRead d.write) :
    d.wellNamed := by
  obtain ⟨d', h⟩ := h
  obtain ⟨t, hread, happend⟩ := bind_eq_ok h
  obtain ⟨ps, hps, hread⟩ := bind_eq_ok hread
  obtain ⟨r, hr, hread⟩ := bind_eq_ok hread
  obtain ⟨ts, hts, hread⟩ := bind_eq_ok hread
  cases hread
  have hroots := hd.roots
  rw [write] at hps
  rw [wellNamed]
  cases htrees : (d.children top).map d.tree with
  | nil =>
    rw [htrees] at hps
    cases hps
    cases hr
  | cons t ts' =>
    rw [htrees] at hps hroots
    obtain ⟨⟨helement, hfirst, hnames⟩, hrest⟩ := List.forall_mem_cons.mp hroots
    cases t with
    | document | text | comment => cases helement
    | element name attributes children =>
      let trees := Tree.element name attributes children :: ts'
      have hwhole : AllUnbroken trees :=
        AllSound.unbroken trees ⟨hfirst, allSound_iff.mpr fun t ht => (hrest t ht).2.1⟩
      have hvalids : HaveValidNames trees :=
        ⟨hnames, haveValidNames_iff.mpr fun t ht => (hrest t ht).2.2⟩
      have hreadable := readable_of_pieces hwhole hvalids hps
      rw [pieces_write hreadable] at hps
      cases hps
      rw [nest, topStretches, nestFrom_root hreadable.1] at hr
      cases ts' with
      | cons t' ts' =>
        exact absurd hr (nestFrom_second_root (hrest t' List.mem_cons_self).1 ts')
      | nil =>
        cases hr
        exact Tree.wellNamed_of_resolve [] 0 false _ hreadable.1 hnames rfl
          ⟨ts, hts, haveValidNames_of_appendAll ts happend⟩

/-- What is written for a document that was read and changed can be read if and only if the
document is well-named. -/
theorem canRead_write_iff {d : Document} (hd : d.Regular) : CanRead d.write ↔ d.wellNamed :=
  ⟨wellNamed_of_canRead hd, fun h => canRead_write h fun t ht => (hd.roots t ht).2.1⟩

end Document

end PatchScript.Xml
