import PatchScript.Proofs.Xml.Nesting

/-!
# Names that resolve

Of the attributes of a tag, some declare a namespace.  The names of a tag resolve if these
declarations are allowed, if all qualifiers are declared and if no two attributes have the
same expanded name.  A tree that is read has qualified names again, which are made from the
expanded names, and they have to be valid too: this is not so of every name of XML.
-/

namespace PatchScript.Xml

/-! ## Declarations -/

/-- Does an attribute of the name declare a namespace? -/
def QName.isDeclaration (name : QName) : Bool :=
  name.qualifier == "xmlns" || name.localName == "xmlns"

/-- The declaration that an attribute is. -/
def declarationOf (a : QName × String) : Declaration :=
  ⟨if a.1.qualifier = "xmlns" then some a.1.localName else none, a.2⟩

/-- May the namespace be declared?  Two addresses are reserved. -/
def IsAllowed (a : QName × String) : Prop :=
  if a.1.qualifier = "xmlns" then
    a.2 ≠ xmlnsAddress ∧ (a.2 = xmlAddress ↔ a.1.localName = "xml")
  else a.2 ≠ xmlAddress ∧ a.2 ≠ xmlnsAddress

instance (a : QName × String) : Decidable (IsAllowed a) := by
  unfold IsAllowed
  infer_instance

/-- The declarations among attributes, that of the qualifier which is always declared left
out. -/
def ownDeclarations (attributes : List (QName × String)) : Scope :=
  ((attributes.filter (·.1.isDeclaration)).map declarationOf).filter (·.address ≠ xmlAddress)

/-- The attributes that are no declarations. -/
def otherAttributes (attributes : List (QName × String)) : List (QName × String) :=
  attributes.filter (!·.1.isDeclaration)

namespace Scope

/-- The qualifiers that are declared. -/
def qualifiers (s : Scope) : List String := s.filterMap (·.qualifier)

theorem qualifiers_append (s s' : Scope) :
    qualifiers (s ++ s') = s.qualifiers ++ s'.qualifiers := List.filterMap_append

theorem qualifiers_cons_some (s : Scope) (qualifier address : String) :
    qualifiers (⟨some qualifier, address⟩ :: s) = qualifier :: s.qualifiers := rfl

theorem declares_iff {s : Scope} {qualifier : String} :
    s.declares (some qualifier) ↔ qualifier ∈ s.qualifiers := by
  simp only [declares, qualifiers, List.any_eq_true, beq_iff_eq, List.mem_filterMap]

end Scope

theorem ownDeclarations_cons (a : QName × String) (attributes : List (QName × String)) :
    ownDeclarations (a :: attributes) = ownDeclarations [a] ++ ownDeclarations attributes := by
  rw [← List.singleton_append, ownDeclarations, List.filter_append, List.map_append,
    List.filter_append]
  rfl

section

variable {name : QName} {value : String} {attributes : List (QName × String)} {found : Scope}

theorem ownDeclarations_qualified (hname : name.qualifier = "xmlns") :
    ownDeclarations [(name, value)] =
      if value = xmlAddress then [] else [⟨some name.localName, value⟩] := by
  by_cases haddress : value = xmlAddress <;>
    simp [ownDeclarations, declarationOf, QName.isDeclaration, hname, haddress]

theorem ownDeclarations_default (hname : name.qualifier ≠ "xmlns")
    (hlocal : name.localName = "xmlns") (haddress : value ≠ xmlAddress) :
    ownDeclarations [(name, value)] = [⟨none, value⟩] := by
  simp [ownDeclarations, declarationOf, QName.isDeclaration, hname, hlocal, haddress]

theorem ownDeclarations_other (h : name.isDeclaration = false) :
    ownDeclarations [(name, value)] = [] := by
  simp [ownDeclarations, h]

theorem otherAttributes_declaration (h : name.isDeclaration) :
    otherAttributes ((name, value) :: attributes) = otherAttributes attributes := by
  simp [otherAttributes, h]

theorem otherAttributes_other (h : name.isDeclaration = false) :
    otherAttributes ((name, value) :: attributes) =
      (name, value) :: otherAttributes attributes := by
  simp [otherAttributes, h]

/-- A declaration of a qualifier that is allowed is added to those found, unless it is that
of the qualifier which is always declared. -/
theorem splitDeclarations_qualified (hname : name.qualifier = "xmlns")
    (hallowed : IsAllowed (name, value)) (hfound : name.localName ∉ found.qualifiers) :
    splitDeclarations found ((name, value) :: attributes) =
      splitDeclarations (found ++ ownDeclarations [(name, value)]) attributes := by
  rw [IsAllowed, if_pos hname] at hallowed
  obtain ⟨hreserved, hkept⟩ := hallowed
  have hsame : (value == xmlAddress) = (name.localName == "xml") := by
    rw [Bool.eq_iff_iff, beq_iff_eq, beq_iff_eq]
    exact hkept
  have hundeclared : ¬found.declares (some name.localName) = true := by
    rwa [Scope.declares_iff]
  rw [splitDeclarations, if_pos hname, if_neg hreserved, hsame, bne_self_eq_false,
    if_neg Bool.false_ne_true, if_neg hundeclared, ownDeclarations_qualified hname]
  split
  · rw [List.append_nil]
  · rfl

/-- A declaration for names without qualifier that is allowed is added to those found. -/
theorem splitDeclarations_default (hname : name.qualifier ≠ "xmlns")
    (hlocal : name.localName = "xmlns") (hallowed : IsAllowed (name, value)) :
    splitDeclarations found ((name, value) :: attributes) =
      splitDeclarations (found ++ ownDeclarations [(name, value)]) attributes := by
  rw [IsAllowed, if_neg hname] at hallowed
  rw [splitDeclarations, if_neg hname, if_pos hlocal,
    if_neg (not_or.mpr ⟨hallowed.1, hallowed.2⟩),
    ownDeclarations_default hname hlocal hallowed.1]

/-- A declaration that is allowed is split off, if its qualifier is not declared already. -/
theorem splitDeclarations_declaration (attributes : List (QName × String))
    (hdeclaration : name.isDeclaration) (hallowed : IsAllowed (name, value))
    (hxml : "xml" ∉ found.qualifiers)
    (hnodup : (found ++ ownDeclarations [(name, value)]).qualifiers.Nodup) :
    splitDeclarations found ((name, value) :: attributes) =
        splitDeclarations (found ++ ownDeclarations [(name, value)]) attributes ∧
      "xml" ∉ (found ++ ownDeclarations [(name, value)]).qualifiers := by
  rw [Scope.qualifiers_append] at hnodup ⊢
  by_cases hname : name.qualifier = "xmlns"
  · have hkept : value = xmlAddress ↔ name.localName = "xml" := by
      rw [IsAllowed, if_pos hname] at hallowed
      exact hallowed.2
    have hown : ownDeclarations [(name, value)] =
        if value = xmlAddress then [] else [⟨some name.localName, value⟩] :=
      ownDeclarations_qualified hname
    by_cases haddress : value = xmlAddress
    · have hfound : name.localName ∉ found.qualifiers := by rwa [hkept.mp haddress]
      refine ⟨splitDeclarations_qualified hname hallowed hfound, ?_⟩
      rw [hown, if_pos haddress]
      exact (List.append_nil found.qualifiers).symm ▸ hxml
    · rw [hown, if_neg haddress, Scope.qualifiers_cons_some] at hnodup
      have hfound : name.localName ∉ found.qualifiers := fun hmem =>
        (List.nodup_append.mp hnodup).2.2 _ hmem _ List.mem_cons_self rfl
      refine ⟨splitDeclarations_qualified hname hallowed hfound, ?_⟩
      rw [hown, if_neg haddress, Scope.qualifiers_cons_some, List.mem_append, not_or]
      exact ⟨hxml, fun hmem => haddress (hkept.mpr (List.mem_singleton.mp hmem).symm)⟩
  · have hlocal : name.localName = "xmlns" := by
      simpa [QName.isDeclaration, hname] using hdeclaration
    have haddress : value ≠ xmlAddress := by
      rw [IsAllowed, if_neg hname] at hallowed
      exact hallowed.1
    refine ⟨splitDeclarations_default hname hlocal hallowed, ?_⟩
    rw [ownDeclarations_default hname hlocal haddress]
    exact (List.append_nil found.qualifiers).symm ▸ hxml

end

/-- Declarations that are allowed are split off, if no qualifier is declared twice. -/
theorem splitDeclarations_eq : ∀ (attributes : List (QName × String)) (found : Scope),
    (∀ a ∈ attributes, a.1.isDeclaration → IsAllowed a) → "xml" ∉ found.qualifiers →
    (found ++ ownDeclarations attributes).qualifiers.Nodup →
    splitDeclarations found attributes =
      .ok (found ++ ownDeclarations attributes, otherAttributes attributes) := by
  intro attributes
  induction attributes with
  | nil =>
    intro found _ _ _
    rw [ownDeclarations, otherAttributes]
    exact congrArg (fun s => Except.ok (s, _)) (List.append_nil found).symm
  | cons a attributes ih =>
    intro found hallowed hxml hnodup
    obtain ⟨ha, hrest⟩ := List.forall_mem_cons.mp hallowed
    obtain ⟨name, value⟩ := a
    rw [ownDeclarations_cons, ← List.append_assoc] at hnodup ⊢
    cases hdeclaration : name.isDeclaration with
    | true =>
      have hnodup' := hnodup
      rw [Scope.qualifiers_append] at hnodup'
      obtain ⟨hsplit, hxml'⟩ := splitDeclarations_declaration attributes hdeclaration
        (ha hdeclaration) hxml (List.nodup_append.mp hnodup').1
      rw [hsplit, otherAttributes_declaration hdeclaration]
      exact ih _ hrest hxml' hnodup
    | false =>
      rw [ownDeclarations_other hdeclaration, List.append_nil] at hnodup ⊢
      have hname : name.qualifier ≠ "xmlns" ∧ name.localName ≠ "xmlns" := by
        simpa [QName.isDeclaration] using hdeclaration
      rw [splitDeclarations, if_neg hname.1, if_neg hname.2, ih found hrest hxml hnodup,
        otherAttributes_other hdeclaration]
      rfl

/-! ## Expanded names -/

/-- The expanded name of an element whose qualifier is declared. -/
def expandedElement (s : Scope) (name : QName) : ExpandedName :=
  ⟨s.address? (if name.qualifier = "" then none else some name.qualifier), name.localName⟩

/-- The expanded name of an attribute whose qualifier is declared. -/
def expandedAttribute (s : Scope) (name : QName) : ExpandedName :=
  ⟨if name.qualifier = "xml" then some xmlAddress
    else if name.qualifier = "" then none else s.address? (some name.qualifier), name.localName⟩

/-- Is the qualifier of an element declared, if it has one? -/
def Scope.KnowsElement (s : Scope) (name : QName) : Prop :=
  name.qualifier ≠ "xmlns" ∧ (name.qualifier = "" ∨ s.declares (some name.qualifier))

/-- Is the qualifier of an attribute declared, if it has one? -/
def Scope.KnowsAttribute (s : Scope) (name : QName) : Prop :=
  name.qualifier = "" ∨ name.qualifier = "xml" ∨ s.declares (some name.qualifier)

theorem Scope.exists_address {s : Scope} {qualifier : Option String}
    (h : s.declares qualifier) : ∃ address, s.address? qualifier = some address := by
  obtain ⟨d, hd, hqualifier⟩ := List.any_eq_true.mp h
  rw [Scope.address?]
  cases hfind : s.find? (·.qualifier == qualifier) with
  | none => exact absurd hqualifier (List.find?_eq_none.mp hfind d hd)
  | some d' => exact ⟨d'.address, rfl⟩

theorem expand_of_declares {s : Scope} {qualifier : Option String} {localName : String}
    (h : qualifier = none ∨ s.declares qualifier) :
    expand s qualifier localName = .ok ⟨s.address? qualifier, localName⟩ := by
  unfold expand
  rcases h with rfl | h
  · cases s.address? none <;> rfl
  · obtain ⟨address, haddress⟩ := Scope.exists_address h
    rw [haddress]

theorem expandElement_eq {s : Scope} {name : QName} (h : s.KnowsElement name) :
    expandElement s name = .ok (expandedElement s name) := by
  obtain ⟨hreserved, hknown⟩ := h
  rw [expandElement, if_neg hreserved, expandedElement]
  refine expand_of_declares ?_
  rcases hknown with hempty | hdeclared
  · exact .inl (if_pos hempty)
  · by_cases hempty : name.qualifier = ""
    · exact .inl (if_pos hempty)
    · rw [if_neg hempty]
      exact .inr hdeclared

theorem expandAttribute_eq {s : Scope} {name : QName} (h : s.KnowsAttribute name) :
    expandAttribute s name = .ok (expandedAttribute s name) := by
  rw [expandAttribute, expandedAttribute]
  by_cases hxml : name.qualifier = "xml"
  · rw [if_pos hxml, if_pos hxml]
  · by_cases hempty : name.qualifier = ""
    · rw [if_neg hxml, if_pos hempty, if_neg hxml, if_pos hempty]
    · rw [if_neg hxml, if_neg hempty, if_neg hxml, if_neg hempty]
      exact expand_of_declares (.inr ((h.resolve_left hempty).resolve_left hxml))

/-- Attributes whose qualifiers are declared are expanded, if all names are different. -/
theorem expandAttributes_eq {s : Scope} : ∀ (attributes : List (QName × String))
    (before : List ExpandedName), (∀ a ∈ attributes, s.KnowsAttribute a.1) →
    (attributes.map fun a => expandedAttribute s a.1).Nodup →
    (∀ a ∈ attributes, expandedAttribute s a.1 ∉ before) →
    expandAttributes s before attributes =
      .ok (attributes.map fun a => (expandedAttribute s a.1, a.2)) := by
  intro attributes
  induction attributes with
  | nil => exact fun _ _ _ _ => rfl
  | cons a attributes ih =>
    intro before hknown hnodup hbefore
    obtain ⟨ha, hrest⟩ := List.forall_mem_cons.mp hknown
    obtain ⟨hnew, hlater⟩ := List.forall_mem_cons.mp hbefore
    rw [List.map_cons, List.nodup_cons] at hnodup
    have hlater' : ∀ b ∈ attributes,
        expandedAttribute s b.1 ∉ expandedAttribute s a.1 :: before := by
      intro b hb hmem
      rcases List.mem_cons.mp hmem with hsame | hmem
      · exact hnodup.1 (List.mem_map.mpr ⟨b, hb, hsame⟩)
      · exact hlater b hb hmem
    have hfirst : ¬before.contains (expandedAttribute s a.1) = true := by simpa using hnew
    obtain ⟨name, value⟩ := a
    rw [expandAttributes, expandAttribute_eq ha, ok_bind, if_neg hfirst]
    rw [ih _ hrest hnodup.2 hlater']
    rfl

end PatchScript.Xml
