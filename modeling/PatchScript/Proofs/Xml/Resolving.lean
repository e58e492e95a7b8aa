import PatchScript.Proofs.Xml.Naming

/-!
# Well-named trees

A tree is well-named if the names of all its elements resolve, in the scopes that the
declarations on them make.  It can be written in a way that a reader can follow, if nothing else
in it is out of place: its texts consist of characters of XML, and its comments can stand in a
document (`Tree.Sound.readable`).
-/

namespace PatchScript.Xml

/-! ## Tags -/

namespace Tag

/-- The declarations of a tag. -/
def own (tag : Tag) : Scope := ownDeclarations tag.attributes

/-- The attributes of a tag that are no declarations. -/
def others (tag : Tag) : List (QName × String) := otherAttributes tag.attributes

/-- The declarations in scope behind a tag. -/
def scope (outer : Scope) (tag : Tag) : Scope := Scope.inherit tag.own outer

/-- The names of a tag resolve, and the names that are made from them are valid. -/
structure Resolves (outer : Scope) (tag : Tag) : Prop where
  /-- No namespace is declared that may not be. -/
  allowed : ∀ a ∈ tag.attributes, a.1.isDeclaration → IsAllowed a
  /-- No qualifier is declared twice. -/
  distinct : tag.own.qualifiers.Nodup
  /-- The qualifier of the element is declared. -/
  element : (tag.scope outer).KnowsElement tag.name
  /-- The qualifiers of the attributes are declared. -/
  attributes : ∀ a ∈ tag.others, (tag.scope outer).KnowsAttribute a.1
  /-- No two attributes have the same expanded name. -/
  different : (tag.others.map fun a => expandedAttribute (tag.scope outer) a.1).Nodup
  /-- The name that the element is read with is valid. -/
  elementName : isValidName
    (qualify (tag.scope outer) false (expandedElement (tag.scope outer) tag.name))
  /-- The names that the attributes are read with are valid. -/
  attributeNames : ∀ a ∈ tag.others, isValidName
    (qualify (tag.scope outer) true (expandedAttribute (tag.scope outer) a.1))
  /-- The names that the declarations are read with are valid. -/
  declarationNames : ∀ d ∈ tag.own, isValidName d.attribute.1

instance (s : Scope) (name : QName) : Decidable (s.KnowsElement name) :=
  inferInstanceAs (Decidable (_ ∧ _))

instance (s : Scope) (name : QName) : Decidable (s.KnowsAttribute name) :=
  inferInstanceAs (Decidable (_ ∨ _))

instance (outer : Scope) (tag : Tag) : Decidable (tag.Resolves outer) :=
  decidable_of_iff
    ((∀ a ∈ tag.attributes, a.1.isDeclaration → IsAllowed a) ∧ tag.own.qualifiers.Nodup ∧
      (tag.scope outer).KnowsElement tag.name ∧
      (∀ a ∈ tag.others, (tag.scope outer).KnowsAttribute a.1) ∧
      (tag.others.map fun a => expandedAttribute (tag.scope outer) a.1).Nodup ∧
      isValidName (qualify (tag.scope outer) false (expandedElement (tag.scope outer) tag.name)) ∧
      (∀ a ∈ tag.others, isValidName
        (qualify (tag.scope outer) true (expandedAttribute (tag.scope outer) a.1))) ∧
      ∀ d ∈ tag.own, isValidName d.attribute.1)
    ⟨fun ⟨h₁, h₂, h₃, h₄, h₅, h₆, h₇, h₈⟩ => ⟨h₁, h₂, h₃, h₄, h₅, h₆, h₇, h₈⟩,
      fun ⟨h₁, h₂, h₃, h₄, h₅, h₆, h₇, h₈⟩ => ⟨h₁, h₂, h₃, h₄, h₅, h₆, h₇, h₈⟩⟩

end Tag

/-! ## Well-named trees -/

mutual

/-- Are the names of the elements names of XML that resolve, and do their values consist of
characters of XML?  `outer` is the scope around the tree. -/
def Tree.wellNamed (outer : Scope) : Tree → Bool
  | .document _ => false
  | .text _ | .comment _ => true
  | .element name attributes children =>
    isQName name && attributes.all (fun a => isQName a.1 && a.2.toList.all isXmlChar)
      && decide ((tagOf name attributes).Resolves outer)
      && allWellNamed ((tagOf name attributes).scope outer) children

@[inherit_doc Tree.wellNamed]
def allWellNamed (outer : Scope) : List Tree → Bool
  | [] => true
  | t :: ts => t.wellNamed outer && allWellNamed outer ts

end

mutual

/-- Do the texts consist of characters of XML, and can the comments stand in a document?  No
document stands inside of another. -/
def Tree.Sound : Tree → Prop
  | .document _ => False
  | .text content => content.toList.all isXmlChar
  | .comment content => isCommentText content.toList
  | .element _ _ children => AllSound children

@[inherit_doc Tree.Sound]
def AllSound : List Tree → Prop
  | [] => True
  | t :: ts => t.Sound ∧ AllSound ts

end

mutual

/-- No document stands inside of the tree, and no comment has two hyphens in it. -/
def Tree.Unbroken : Tree → Prop
  | .document _ => False
  | .text _ => True
  | .comment content => Text.containsList ['-', '-'] content.toList = false
  | .element _ _ children => AllUnbroken children

@[inherit_doc Tree.Unbroken]
def AllUnbroken : List Tree → Prop
  | [] => True
  | t :: ts => t.Unbroken ∧ AllUnbroken ts

end

theorem containsList_of_isCommentText {cs : List Char} (h : isCommentText cs) :
    Text.containsList ['-', '-'] cs = false := by
  simp only [isCommentText, Bool.and_eq_true, Bool.not_eq_true'] at h
  exact h.1.2

mutual

theorem Tree.Sound.unbroken : ∀ t : Tree, t.Sound → t.Unbroken
  | .document _, h => h
  | .text _, _ => trivial
  | .comment _, h => containsList_of_isCommentText h
  | .element _ _ children, h => AllSound.unbroken children h

/-- What is sound is unbroken. -/
theorem AllSound.unbroken : ∀ ts : List Tree, AllSound ts → AllUnbroken ts
  | [], _ => trivial
  | t :: ts, h => ⟨Tree.Sound.unbroken t h.1, AllSound.unbroken ts h.2⟩

end

mutual

theorem Tree.Sound.readable (outer : Scope) : ∀ t : Tree, t.Sound → t.wellNamed outer → t.Readable
  | .document _, _, h => by cases h
  | .text _, hsound, _ => hsound
  | .comment _, hsound, _ => hsound
  | .element name attributes children, hsound, h => by
    simp only [Tree.wellNamed, Bool.and_eq_true, List.all_eq_true] at h
    obtain ⟨⟨⟨hname, hattributes⟩, -⟩, hchildren⟩ := h
    exact ⟨hname, fun a ha => (hattributes a ha).imp_right List.all_eq_true.mpr,
      AllSound.readable _ children hsound hchildren⟩

theorem AllSound.readable (outer : Scope) : ∀ ts : List Tree, AllSound ts →
    allWellNamed outer ts → ReadableAll ts
  | [], _, _ => trivial
  | t :: ts, hsound, h => by
    rw [allWellNamed, Bool.and_eq_true] at h
    exact ⟨Tree.Sound.readable outer t hsound.1 h.1, AllSound.readable outer ts hsound.2 h.2⟩

end

/-! ## Valid names -/

mutual

/-- Are all names valid? -/
def Tree.HasValidNames : Tree → Prop
  | .text _ | .comment _ => True
  | .document children => HaveValidNames children
  | .element name attributes children =>
    isValidName name ∧ (∀ a ∈ attributes, isValidName a.1) ∧ HaveValidNames children

@[inherit_doc Tree.HasValidNames]
def HaveValidNames : List Tree → Prop
  | [] => True
  | t :: ts => t.HasValidNames ∧ HaveValidNames ts

end

theorem haveValidNames_iff {ts : List Tree} :
    HaveValidNames ts ↔ ∀ t ∈ ts, t.HasValidNames := by
  induction ts with
  | nil => exact ⟨fun _ _ ht => absurd ht List.not_mem_nil, fun _ => trivial⟩
  | cons t ts ih => rw [HaveValidNames, List.forall_mem_cons, ih]

theorem haveValidNames_append {ts ts' : List Tree} :
    HaveValidNames (ts ++ ts') ↔ HaveValidNames ts ∧ HaveValidNames ts' := by
  simp only [haveValidNames_iff, List.forall_mem_append]

end PatchScript.Xml
