import PatchScript.Proofs.Xml.Stability

/-!
# Names and their qualifiers

A reader looks up the qualifier of a name and goes on with the address that it stands for.  The
tree holds qualified names again, and the qualifier is found the other way round: it is that of the
first declaration in scope for the address.  So a name keeps its local name, and it keeps its
qualifier too, unless another one that stands for the same address is declared before it.  Then it
gets that one (`Document.names_survive_unless_outranked`).  What is written is told from the names
that stand in the tags (`written_of_qname`).

The declarations of an element come first, in the order in which they stand in its tag, and then
those around it.  For attributes only the declarations of qualifiers count, since no attribute gets
a namespace without one.
-/

namespace PatchScript.Xml

/-! ## Names as they are written -/

/-- A local name behind a qualifier, or alone. -/
def spelled (qualifier : Option String) (localName : String) : String :=
  match qualifier with
  | some qualifier => qualifier ++ ":" ++ localName
  | none => localName

theorem spelled_inj {qualifier qualifier' : Option String} {localName : String} :
    spelled qualifier localName = spelled qualifier' localName ↔ qualifier = qualifier' := by
  refine ⟨fun h => ?_, fun h => by rw [h]⟩
  have hlength := congrArg String.length h
  rw [← String.toList_inj] at h
  cases qualifier <;> cases qualifier' <;> simp_all [spelled, String.toList_inj]

namespace QName

/-- The qualifier of a name, if it has one. -/
def qualifier? (name : QName) : Option String :=
  if name.qualifier = "" then none else some name.qualifier

/-- The name as it is written. -/
def written (name : QName) : String := spelled name.qualifier? name.localName

end QName

/-- What is read as a name is written there, but for a colon that nothing stands before. -/
theorem written_of_qname {cs rest : List Char} {name : QName} (h : qname cs = .ok (name, rest)) :
    cs = name.written.toList ++ rest ∨ cs = ':' :: name.written.toList ++ rest := by
  have hrest := qname_rest h
  have hcs : cs = cs.takeWhile isTagNamePart ++ rest := by
    rw [hrest, List.takeWhile_append_dropWhile]
  rw [QName.written, QName.qualifier?]
  by_cases hq : name.qualifier = ""
  · rw [if_pos hq]
    have hparts := qname_parts h
    dsimp only at hparts
    generalize cs.takeWhile isTagNamePart = run at hcs hparts
    subst hcs
    split at hparts
    · rename_i hcolon
      cases run with
      | nil => cases hcolon
      | cons c run =>
        have hnone : (c :: run).takeWhile (· != ':') = [] := by simpa [hparts] using hq
        have hc : c = ':' := by simpa [List.takeWhile_cons] using hnone
        subst hc
        exact .inr (by rw [hparts, spelled, String.toList_ofList]; rfl)
    · rw [hparts]
      exact .inl (by rw [spelled, String.toList_ofList])
  · rw [if_neg hq, spelled, String.toList_append, String.toList_append, List.append_assoc]
    refine .inl (hcs.trans ?_)
    rw [qname_qualified h hq]
    simp

/-! ## Qualifiers for one address -/

namespace Scope

/-- The declarations of qualifiers. -/
def qualified (s : Scope) : Scope := s.filter (·.qualifier.isSome)

/-- The declarations that stand before that of the qualifier. -/
def before (s : Scope) (qualifier : Option String) : Scope := s.takeWhile (·.qualifier != qualifier)

/-- Is the address that the qualifier stands for declared for another one before it? -/
def Outranked (s : Scope) (qualifier : Option String) : Prop :=
  ∃ d ∈ s.before qualifier, s.address? qualifier = some d.address

/-- `read` is the name that the tree gets for `name`.  It is the one that is written, unless the
qualifier is outranked.  Then another qualifier stands in it, which is declared for the same
address. -/
structure Names (s : Scope) (name : QName) (read : String) : Prop where
  /-- The name is kept, or the qualifier is outranked. -/
  kept_iff : read = name.written ↔ ¬s.Outranked name.qualifier?
  /-- A qualifier that is outranked gives way to another one for the address. -/
  changed : s.Outranked name.qualifier? → ∃ d ∈ s.before name.qualifier?,
    s.address? name.qualifier? = some d.address ∧ read = spelled d.qualifier name.localName

variable {s : Scope} {qualifier : Option String} {address : String} {name : QName}

theorem not_outranked_of_address? (h : s.address? qualifier = none) : ¬s.Outranked qualifier := by
  rintro ⟨d, -, hd⟩
  rw [h] at hd
  cases hd

/-- The first declaration for the address of a qualifier is that of the qualifier, or it stands
before that one. -/
theorem first_of_address? (h : s.address? qualifier = some address) :
    (¬s.Outranked qualifier ∧ (s.find? (·.address == address)).bind (·.qualifier) = qualifier) ∨
      ∃ d ∈ s.before qualifier, d.address = address ∧
        (s.find? (·.address == address)).bind (·.qualifier) = d.qualifier := by
  obtain ⟨d, hd, rfl⟩ := Option.map_eq_some_iff.mp h
  obtain ⟨hqualifier, earlier, later, rfl, hearlier⟩ := List.find?_eq_some_iff_append.mp hd
  have hbefore : before (earlier ++ d :: later) qualifier = earlier := by
    rw [before, List.takeWhile_append_of_pos fun e he => by simpa using hearlier e he]
    simp [eq_of_beq hqualifier]
  rw [Outranked, hbefore, h, List.find?_append]
  cases hfirst : earlier.find? (·.address == d.address) with
  | some e =>
    have haddress := List.find?_some hfirst
    exact .inr ⟨e, List.mem_of_find?_eq_some hfirst, eq_of_beq haddress, rfl⟩
  | none =>
    refine .inl ⟨?_, ?_⟩
    · rintro ⟨e, he, heq⟩
      have hne := List.find?_eq_none.mp hfirst e he
      exact hne (beq_iff_eq.mpr (Option.some.inj heq).symm)
    · simpa using hqualifier

/-- A qualifier that is not outranked is kept. -/
theorem Names.of_written (h : ¬s.Outranked name.qualifier?) : s.Names name name.written :=
  ⟨iff_of_true rfl h, fun houtranked => absurd houtranked h⟩

/-- A name gets the qualifier that is declared first for the address of its own one. -/
theorem Names.of_address? (h : s.address? name.qualifier? = some address) : s.Names name
    (spelled ((s.find? (·.address == address)).bind (·.qualifier)) name.localName) := by
  rcases first_of_address? h with ⟨hfirst, hsame⟩ | ⟨d, hd, rfl, hsame⟩
  · rw [hsame]
    exact .of_written hfirst
  · have houtranked : s.Outranked name.qualifier? := ⟨d, hd, h⟩
    have hother : d.qualifier ≠ name.qualifier? := by
      simpa using List.mem_takeWhile_imp hd
    rw [hsame]
    refine ⟨iff_of_false (fun hkept => hother (spelled_inj.mp hkept)) (not_not_intro houtranked),
      fun _ => ⟨d, hd, h, rfl⟩⟩

/-! ## Names that are read -/

/-- Neither the qualifier `xml` nor its address is declared. -/
def LacksXml (s : Scope) : Prop :=
  ∀ d ∈ s, d.qualifier ≠ some "xml" ∧ d.address ≠ xmlAddress

theorem LacksXml.ne_of_address? (hs : s.LacksXml) (h : s.address? qualifier = some address) :
    address ≠ xmlAddress := by
  obtain ⟨d, hd, rfl⟩ := Option.map_eq_some_iff.mp h
  exact (hs d (List.mem_of_find?_eq_some hd)).2

theorem LacksXml.address?_xml (hs : s.LacksXml) : s.address? (some "xml") = none := by
  rw [address?, Option.map_eq_none_iff, List.find?_eq_none]
  exact fun d hd hxml => (hs d hd).1 (eq_of_beq hxml)

theorem LacksXml.qualified (hs : s.LacksXml) : s.qualified.LacksXml :=
  fun d hd => hs d (List.mem_of_mem_filter hd)

theorem address?_qualified (s : Scope) (q : String) :
    s.qualified.address? (some q) = s.address? (some q) := by
  rw [address?, address?, qualified, List.find?_filter]
  congr 2
  funext d
  rw [Bool.eq_iff_iff]
  cases d.qualifier <;> simp

theorem address?_qualified_none (s : Scope) : s.qualified.address? none = none := by
  rw [address?, qualified, List.find?_filter, Option.map_eq_none_iff, List.find?_eq_none]
  intro d _
  cases d.qualifier <;> simp

theorem qualify_eq (s : Scope) (ofAttribute : Bool) (name : ExpandedName) :
    qualify s ofAttribute name =
      spelled (name.address.bind (qualifierFor? s ofAttribute)) name.localName := rfl

theorem qualifierFor?_element (h : address ≠ xmlAddress) :
    qualifierFor? s false address = (s.find? (·.address == address)).bind (·.qualifier) := by
  rw [qualifierFor?, if_neg h]
  simp

theorem qualifierFor?_attribute (h : address ≠ xmlAddress) : qualifierFor? s true address =
    (s.qualified.find? (·.address == address)).bind (·.qualifier) := by
  rw [qualifierFor?, if_neg h, qualified, List.find?_filter]
  congr 2
  funext d
  rw [Bool.eq_iff_iff]
  simp [and_comm]

theorem KnowsElement.qualifier?_eq_none (h : s.KnowsElement name)
    (haddress : s.address? name.qualifier? = none) : name.qualifier? = none := by
  rw [QName.qualifier?] at haddress ⊢
  rcases h.2 with hempty | hdeclared
  · exact if_pos hempty
  · split at haddress
    · exact if_pos ‹_›
    · obtain ⟨address, hsome⟩ := exists_address hdeclared
      rw [hsome] at haddress
      cases haddress

/-- An element gets the name that it is written with, unless the qualifier is outranked. -/
theorem Names.element (hs : s.LacksXml) (h : s.KnowsElement name) :
    s.Names name (qualify s false (expandedElement s name)) := by
  have hexpanded : expandedElement s name = ⟨s.address? name.qualifier?, name.localName⟩ := rfl
  rw [hexpanded, qualify_eq]
  dsimp only
  cases haddress : s.address? name.qualifier? with
  | none =>
    rw [Option.bind_none, ← h.qualifier?_eq_none haddress]
    exact .of_written (not_outranked_of_address? haddress)
  | some address =>
    rw [Option.bind_some, qualifierFor?_element (hs.ne_of_address? haddress)]
    exact .of_address? haddress

/-- An attribute gets the name that it is written with, unless the qualifier is outranked among
qualifiers. -/
theorem Names.attribute (hs : s.LacksXml) (h : s.KnowsAttribute name) :
    s.qualified.Names name (qualify s true (expandedAttribute s name)) := by
  rw [expandedAttribute, qualify_eq]
  dsimp only
  by_cases hxml : name.qualifier = "xml"
  · have hqualifier : name.qualifier? = some "xml" := by simp [QName.qualifier?, hxml]
    rw [if_pos hxml, Option.bind_some, qualifierFor?, if_pos rfl, ← hqualifier]
    refine .of_written (not_outranked_of_address? ?_)
    rw [hqualifier]
    exact hs.qualified.address?_xml
  · rw [if_neg hxml]
    by_cases hempty : name.qualifier = ""
    · have hqualifier : name.qualifier? = none := if_pos hempty
      rw [if_pos hempty, Option.bind_none, ← hqualifier]
      refine .of_written (not_outranked_of_address? ?_)
      rw [hqualifier]
      exact s.address?_qualified_none
    · have hqualifier : name.qualifier? = some name.qualifier := if_neg hempty
      obtain ⟨address, haddress⟩ :=
        exists_address ((h.resolve_left hempty).resolve_left hxml)
      rw [if_neg hempty, haddress, Option.bind_some,
        qualifierFor?_attribute (hs.ne_of_address? haddress)]
      refine .of_address? ?_
      rwa [hqualifier, address?_qualified]

end Scope

/-! ## Tags -/

namespace Tag

variable {outer : Scope} {tag : Tag}

/-- The declarations of a tag that do not hold around it. -/
def introduced (outer : Scope) (tag : Tag) : List (QName × String) :=
  tag.attributes.filter fun a =>
    a.1.isDeclaration && a.2 ≠ xmlAddress && !outer.contains (declarationOf a)

/-- The attribute that a declaration in a tag becomes.  One for names without qualifier can have a
qualifier itself, which is lost. -/
def declared (a : QName × String) : String × String :=
  (if a.1.qualifier = "xmlns" then a.1.written else "xmlns", a.2)

/-- `name` and `attributes` are those that the element of a tag gets.  Of the attributes, the
declarations that do not hold around the element are set first, one after the other, and then the
others. -/
structure Loads (outer : Scope) (tag : Tag) (name : String) (attributes : Attributes) : Prop where
  /-- The name is kept, or its qualifier is outranked. -/
  name : (tag.scope outer).Names tag.name name
  /-- So are those of the attributes that are no declarations, and they keep their values. -/
  attributes : ∃ others : Attributes,
    attributes = Attributes.putAll ((tag.introduced outer).map declared ++ others) [] ∧
    List.Forall₂ (fun a b => (tag.scope outer).qualified.Names a.1 b.1 ∧ b.2 = a.2)
      tag.others others

theorem lacksXml_own (h : ∀ a ∈ tag.attributes, a.1.isDeclaration → IsAllowed a) :
    tag.own.LacksXml := by
  intro d hd
  obtain ⟨hdeclared, haddress⟩ := List.mem_filter.mp hd
  obtain ⟨a, ha, rfl⟩ := List.mem_map.mp hdeclared
  obtain ⟨hmem, hdeclaration⟩ := List.mem_filter.mp ha
  have hne : a.2 ≠ xmlAddress := of_decide_eq_true haddress
  have hallowed := h a hmem hdeclaration
  refine ⟨fun hxml => ?_, hne⟩
  rw [declarationOf] at hxml
  split at hxml
  · rename_i hqualifier
    rw [IsAllowed, if_pos hqualifier] at hallowed
    exact hne (hallowed.2.mpr (Option.some.inj hxml))
  · cases hxml

theorem lacksXml_scope (h : tag.Expands outer) (houter : outer.LacksXml) :
    (tag.scope outer).LacksXml :=
  fun d hd => (Scope.mem_inherit hd).elim (lacksXml_own h.allowed d) (houter d)

/-- The declarations in scope that do not hold around an element are those that its tag
introduces. -/
theorem filter_scope (outer : Scope) (tag : Tag) :
    (tag.scope outer).filter (fun d => !outer.contains d) =
      (tag.introduced outer).map declarationOf := by
  obtain ⟨inherited, hscope, hall⟩ := Scope.inherit_eq_append tag.own outer
  have hnone : inherited.filter (fun d => !outer.contains d) = [] :=
    List.filter_eq_nil_iff.mpr fun d hd => by simpa using hall d hd
  rw [scope, hscope, List.filter_append, hnone, List.append_nil, own, ownDeclarations, introduced]
  rw [List.filter_map, List.filter_map, List.filter_filter, List.filter_filter]
  congr 2
  funext a
  have hdeclaration : (declarationOf a).address = a.2 := rfl
  simp only [Function.comp_apply, hdeclaration, Bool.and_comm, Bool.and_assoc]
  exact Bool.and_left_comm _ _ _

/-- A declaration is written as it stands in a tag, if it is one of a qualifier. -/
theorem attribute_declarationOf (a : QName × String) :
    (declarationOf a).attribute = declared a := by
  obtain ⟨⟨qualifier, localName⟩, value⟩ := a
  rw [declarationOf, declared]
  by_cases hqualifier : qualifier = "xmlns"
  · subst hqualifier
    rfl
  · rw [if_neg hqualifier, if_neg hqualifier]
    rfl

/-- A tag that can be read gives its names to the element, unless they are outranked. -/
theorem Expands.loads (h : tag.Expands outer) (houter : outer.LacksXml) :
    tag.Loads outer (tag.resolvedName outer) (tag.resolvedAttributes outer) := by
  have hlacks := lacksXml_scope h houter
  have hdeclared : ((tag.scope outer).filter fun d => !outer.contains d).map Declaration.attribute =
      (tag.introduced outer).map declared := by
    rw [filter_scope, List.map_map]
    exact List.map_congr_left fun a _ => attribute_declarationOf a
  refine ⟨.element hlacks h.element, tag.others.map fun a =>
    (qualify (tag.scope outer) true (expandedAttribute (tag.scope outer) a.1), a.2), ?_, ?_⟩
  · rw [resolvedAttributes, hdeclared]
  · rw [List.forall₂_map_right_iff, List.forall₂_same]
    exact fun a ha => ⟨.attribute hlacks (h.attributes a ha), rfl⟩

/-- The element of a tag and all its attributes have names that are written in the tag. -/
def KeepsNames (_outer : Scope) (tag : Tag) (name : String) (attributes : Attributes) : Prop :=
  name = tag.name.written ∧ ∀ a ∈ attributes, a.1 ∈ tag.attributes.map (·.1.written)

end Tag

/-! ## Trees -/

mutual

/-- The trees are those that are read from the content.  `R` tells which name and which attributes
the element of a tag gets, with the scope around it. -/
inductive Raw.ReadAs (R : Scope → Tag → String → Attributes → Prop) : Scope → Raw → List Tree → Prop
  | element {outer : Scope} {tag : Tag} {rs : List Raw} {name : String} {attributes : Attributes}
      {children : List Tree} : R outer tag name attributes →
      AllReadAs R (tag.scope outer) rs children →
      Raw.ReadAs R outer (.element tag rs) [.element name attributes children]
  | blank {outer : Scope} {content : String} : isBlankText content →
      Raw.ReadAs R outer (.text content) []
  | text {outer : Scope} {content : String} : isBlankText content = false →
      Raw.ReadAs R outer (.text content) [.text content]
  | comment {outer : Scope} {content : String} :
      Raw.ReadAs R outer (.comment content) [.comment content]
  | instruction {outer : Scope} : Raw.ReadAs R outer .instruction []

@[inherit_doc Raw.ReadAs]
inductive AllReadAs (R : Scope → Tag → String → Attributes → Prop) :
    Scope → List Raw → List Tree → Prop
  | nil {outer : Scope} : AllReadAs R outer [] []
  | cons {outer : Scope} {r : Raw} {rs : List Raw} {ts ts' : List Tree} : Raw.ReadAs R outer r ts →
      AllReadAs R outer rs ts' → AllReadAs R outer (r :: rs) (ts ++ ts')

end

mutual

theorem readAs_of_resolve : ∀ (r : Raw) {outer : Scope} {ts : List Tree}, outer.LacksXml →
    resolve outer r = .ok ts → r.ReadAs Tag.Loads outer ts
  | .element tag rs, outer, ts, houter, h => by
    obtain ⟨hexpands, children, hchildren, rfl⟩ := Tag.expands_of_element h
    exact .element (hexpands.loads houter)
      (allReadAs_of_resolveAll rs (Tag.lacksXml_scope hexpands houter) hchildren)
  | .text content, outer, ts, _, h => by
    rw [resolve] at h
    cases h
    split
    · exact .blank ‹_›
    · exact .text (Bool.eq_false_iff.mpr ‹_›)
  | .comment content, outer, ts, _, h => by
    cases h
    exact .comment
  | .instruction, outer, ts, _, h => by
    cases h
    exact .instruction

/-- The names in content that resolves are kept, unless they are outranked. -/
theorem allReadAs_of_resolveAll : ∀ (rs : List Raw) {outer : Scope} {ts : List Tree},
    outer.LacksXml → resolveAll outer rs = .ok ts → AllReadAs Tag.Loads outer rs ts
  | [], outer, ts, _, h => by
    cases h
    exact .nil
  | r :: rs, outer, ts, houter, h => by
    rw [resolveAll] at h
    obtain ⟨ts₁, h₁, h⟩ := bind_eq_ok h
    obtain ⟨ts₂, h₂, h⟩ := bind_eq_ok h
    cases h
    exact .cons (readAs_of_resolve r houter h₁) (allReadAs_of_resolveAll rs houter h₂)

end

/-- The element that a text holds, with the names that stand in it. -/
def Raw.StandsIn (source : String) (root : Raw) : Prop :=
  ∃ ps, pieces source.toList = .ok ps ∧ nest ps = .ok root

namespace Document

variable {source : String} {d : Document}

/-- When a document is read, all names keep their local names.  The name of an element is read as
it is written if and only if its address is not declared for another qualifier before its own.  So
are the names of attributes, for which only the declarations of qualifiers count. -/
theorem names_survive_unless_outranked (h : Document.read source = .ok d) :
    ∃ root : Raw, root.StandsIn source ∧
      root.ReadAs Tag.Loads [] ((d.children top).map d.tree) := by
  obtain ⟨t, ht, -⟩ := bind_eq_ok h
  obtain ⟨ps, hps, ht'⟩ := bind_eq_ok ht
  obtain ⟨root, hroot, ht'⟩ := bind_eq_ok ht'
  obtain ⟨ts, hts, ht'⟩ := bind_eq_ok ht'
  cases ht'
  refine ⟨root, ⟨ps, hps, hroot⟩, ?_⟩
  rw [trees_of_read ht h]
  exact readAs_of_resolve root (fun _ hd => absurd hd List.not_mem_nil) hts

/-- Of two declarations for one address, one has no qualifier and stands first: elements lose the
qualifier of the other, and attributes keep it. -/
theorem names_survive_where_default_is_first :
    let source := "<r xmlns=\"u\" xmlns:p=\"u\" p:a=\"1\"><p:x/></r>"
    let d : Document := ⟨#[⟨.document, none, [1]⟩,
      ⟨.element ⟨"r", [("xmlns", "u"), ("xmlns:p", "u"), ("p:a", "1")]⟩, some 0, [2]⟩,
      ⟨.element ⟨"x", []⟩, some 1, []⟩], 1⟩
    Document.read source = .ok d ∧ ∃ root : Raw, root.StandsIn source ∧
      root.ReadAs Tag.Loads [] ((d.children top).map d.tree) := by
  intro source d
  have hread : Document.read source = .ok d := by decide +kernel
  exact ⟨hread, names_survive_unless_outranked hread⟩

/-- Where two qualifiers are declared for one address, names get the first one. -/
theorem names_change :
    (∃ d, Document.read "<b:r xmlns:a=\"u\" xmlns:b=\"u\" b:c=\"1\"/>" = .ok d ∧
      d.write = "<a:r xmlns:a=\"u\" xmlns:b=\"u\" a:c=\"1\" />") ∧
    ¬∀ source d, Document.read source = .ok d → ∃ root : Raw, root.StandsIn source ∧
      root.ReadAs Tag.KeepsNames [] ((d.children top).map d.tree) := by
  let d : Document := ⟨#[⟨.document, none, [1]⟩,
    ⟨.element ⟨"a:r", [("xmlns:a", "u"), ("xmlns:b", "u"), ("a:c", "1")]⟩, some 0, []⟩], 1⟩
  have hread : Document.read "<b:r xmlns:a=\"u\" xmlns:b=\"u\" b:c=\"1\"/>" = .ok d := by
    decide +kernel
  have hpieces : pieces "<b:r xmlns:a=\"u\" xmlns:b=\"u\" b:c=\"1\"/>".toList = .ok [.openTag
    ⟨⟨"b", "r"⟩, [(⟨"xmlns", "a"⟩, "u"), (⟨"xmlns", "b"⟩, "u"), (⟨"b", "c"⟩, "1")]⟩ true] := by rfl
  refine ⟨⟨d, hread, by decide +kernel⟩, fun hkeeps => ?_⟩
  obtain ⟨root, ⟨ps, hps, hroot⟩, hnames⟩ := hkeeps _ d hread
  rw [hpieces] at hps
  cases hps
  cases hroot
  cases hnames with
  | element h _ => exact absurd h.1 (by decide)

end Document

end PatchScript.Xml
