import PatchScript.Xml.Markup

/-!
# Namespaces

A name in a tag stands for an *expanded name*: the address of a namespace and
the local name.  The declarations in scope at an element say which qualifier
stands for which address: those of the element itself first, then those of the
element around it that are not hidden.

A tree holds qualified names again.  They are made from the expanded names: the
qualifier is that of the first declaration in scope for the address.  When two
qualifiers stand for one address, this is not always the one that was written.
-/

namespace PatchScript.Xml

/-! ## Declarations -/

/-- The address that the qualifier `xml` always stands for. -/
def xmlAddress : String := "http://www.w3.org/XML/1998/namespace"

/-- The address of namespace declarations themselves, which nothing may be bound
to. -/
def xmlnsAddress : String := "http://www.w3.org/2000/xmlns/"

/-- A namespace declaration: a qualifier, or none for names without one, and the
address it stands for. -/
structure Declaration where
  /-- The qualifier. -/
  qualifier : Option String
  /-- The address. -/
  address : String
deriving DecidableEq

/-- The declarations in scope at some element, in the order they are looked
through. -/
abbrev Scope := List Declaration

namespace Scope

/-- Is the qualifier declared? -/
def declares (s : Scope) (qualifier : Option String) : Bool :=
  s.any (·.qualifier == qualifier)

/-- The address that a qualifier stands for. -/
def address? (s : Scope) (qualifier : Option String) : Option String :=
  (s.find? (·.qualifier == qualifier)).map (·.address)

/-- The declarations of an element followed by those around it that they do not
hide. -/
def inherit (own outer : Scope) : Scope :=
  if own.isEmpty then outer
  else outer.foldl (fun s d => if s.declares d.qualifier then s else s ++ [d]) own

end Scope

/-- The declarations among the attributes of a tag, added to those already found,
and the attributes that are none. -/
def splitDeclarations : (found : Scope) → List (QName × String) →
    Reading (Scope × List (QName × String))
  | found, [] => .ok (found, [])
  | found, (name, value) :: rest =>
    if name.qualifier = "xmlns" then
      if value = xmlnsAddress then .error (.malformed "an address is reserved")
      else if (value == xmlAddress) != (name.localName == "xml") then
        .error (.malformed "a qualifier and an address are kept for each other")
      else if found.declares (some name.localName) then
        .error (.malformed "a qualifier is declared twice")
      else if value = xmlAddress then splitDeclarations found rest
      else splitDeclarations (found ++ [⟨some name.localName, value⟩]) rest
    else if name.localName = "xmlns" then
      if value = xmlAddress ∨ value = xmlnsAddress then
        .error (.malformed "an address is reserved")
      else splitDeclarations (found ++ [⟨none, value⟩]) rest
    else do
      let (found, others) ← splitDeclarations found rest
      return (found, (name, value) :: others)

/-! ## Expanded names -/

/-- A name with the address of its namespace, if it is in one. -/
structure ExpandedName where
  /-- The address. -/
  address : Option String
  /-- The local name. -/
  localName : String
deriving DecidableEq

/-- The expanded name of a name whose qualifier is looked up. -/
def expand (s : Scope) (qualifier : Option String) (localName : String) : Reading ExpandedName :=
  match s.address? qualifier, qualifier with
  | some address, _ => .ok ⟨some address, localName⟩
  | none, none => .ok ⟨none, localName⟩
  | none, some _ => .error (.malformed "a qualifier is not declared")

/-- The expanded name of an element. -/
def expandElement (s : Scope) (name : QName) : Reading ExpandedName :=
  if name.qualifier = "xmlns" then .error (.malformed "a qualifier is reserved")
  else expand s (if name.qualifier = "" then none else some name.qualifier) name.localName

/-- The expanded name of an attribute.  Without a qualifier it is in no
namespace. -/
def expandAttribute (s : Scope) (name : QName) : Reading ExpandedName :=
  if name.qualifier = "xml" then .ok ⟨some xmlAddress, name.localName⟩
  else if name.qualifier = "" then .ok ⟨none, name.localName⟩
  else expand s (some name.qualifier) name.localName

/-! ## Qualified names -/

/-- The qualifier that stands for an address, one of an attribute or not. -/
def qualifierFor? (s : Scope) (ofAttribute : Bool) (address : String) : Option String :=
  if address = xmlAddress then some "xml"
  else
    (s.find? fun d => d.address == address && (!ofAttribute || d.qualifier.isSome)).bind
      (·.qualifier)

/-- The name with the qualifier that stands for its address. -/
def qualify (s : Scope) (ofAttribute : Bool) (name : ExpandedName) : String :=
  match name.address.bind (qualifierFor? s ofAttribute) with
  | some qualifier => qualifier ++ ":" ++ name.localName
  | none => name.localName

/-- The attribute that a declaration is written as. -/
def Declaration.attribute (d : Declaration) : String × String :=
  (match d.qualifier with
    | some qualifier => "xmlns:" ++ qualifier
    | none => "xmlns", d.address)

end PatchScript.Xml
