import PatchScript.Xml.Namespace

/-!
# Reading XML

The second half of reading: the pieces of a text are nested, and the names are
resolved.  `nest` goes through the pieces with the stack of the elements that
are open and gives the element that the text holds.  `resolve` turns it into a
tree.  Texts of white space alone are left out of the tree, and so are
processing instructions; comments inside the element are kept.
-/

namespace PatchScript.Xml

/-! ## Nesting -/

/-- The content of an element as it stands, names not yet resolved. -/
inductive Raw where
  /-- An element. -/
  | element (tag : Tag) (children : List Raw)
  /-- A text. -/
  | text (content : String)
  /-- A comment. -/
  | comment (content : String)
  /-- A processing instruction. -/
  | instruction

/-- An element that is open: its tag and the children so far, last one first. -/
structure OpenElement where
  /-- The tag. -/
  tag : Tag
  /-- The children so far. -/
  children : List Raw

/-- The element with one more child.  A text right behind a text becomes one with
it. -/
def OpenElement.add (e : OpenElement) (child : Raw) : OpenElement :=
  match child, e.children with
  | .text s, .text before :: rest => { e with children := .text (before ++ s) :: rest }
  | _, children => { e with children := child :: children }

/-- The element, closed. -/
def OpenElement.close (e : OpenElement) : Raw := .element e.tag e.children.reverse

/-- An element that is complete is handed to the element around it, or becomes the
root. -/
def handOver (root : Option Raw) (stack : List OpenElement) (e : Raw) :
    Reading (Option Raw × List OpenElement) :=
  match stack, root with
  | outer :: rest, _ => .ok (root, outer.add e :: rest)
  | [], none => .ok (some e, [])
  | [], some _ => .error (.malformed "there are two root elements")

/-- One more piece, with the root so far and the open elements, the innermost
first. -/
def nestPiece (root : Option Raw) (stack : List OpenElement) (p : Piece) :
    Reading (Option Raw × List OpenElement) :=
  match p, stack with
  | .openTag tag true, _ => handOver root stack (.element tag [])
  | .openTag tag false, _ =>
    if stack.isEmpty && root.isSome then .error (.malformed "there are two root elements")
    else .ok (root, ⟨tag, []⟩ :: stack)
  | .closeTag name, e :: rest =>
    if name = e.tag.name then handOver root rest e.close
    else .error (.malformed "a closing tag has another name")
  | .closeTag _, [] => .error (.malformed "a closing tag closes nothing")
  | .text raw, e :: rest => do
    let s ← textOf raw
    return (root, e.add (.text s) :: rest)
  | .text raw, [] =>
    if raw.all isSpace then .ok (root, [])
    else .error (.malformed "a text stands outside the root element")
  | .cdata raw, e :: rest => .ok (root, e.add (.text (cdataOf raw)) :: rest)
  | .cdata _, [] => .error (.malformed "a section stands outside the root element")
  | .comment s, e :: rest => .ok (root, e.add (.comment s) :: rest)
  | .comment _, [] => .ok (root, [])
  | .instruction, e :: rest => .ok (root, e.add .instruction :: rest)
  | .instruction, [] => .ok (root, [])

/-- The root element that the pieces make, with the root so far and the open
elements. -/
def nestFrom : (root : Option Raw) → (stack : List OpenElement) → List Piece → Reading Raw
  | some root, [], [] => .ok root
  | none, [], [] => .error (.malformed "there is no root element")
  | _, _ :: _, [] => .error (.malformed "an element is not closed")
  | root, stack, p :: ps => do
    let (root, stack) ← nestPiece root stack p
    nestFrom root stack ps

/-- The root element that the pieces of a document make. -/
def nest (ps : List Piece) : Reading Raw := nestFrom none [] ps

/-! ## Resolving -/

/-- The attributes of a tag with their expanded names, no two of which are
equal. -/
def expandAttributes (s : Scope) : (before : List ExpandedName) → List (QName × String) →
    Reading (List (ExpandedName × String))
  | _, [] => .ok []
  | before, (name, value) :: rest => do
    let expanded ← expandAttribute s name
    if before.contains expanded then
      throw (.malformed "an attribute stands twice")
    let rest ← expandAttributes s (expanded :: before) rest
    return (expanded, value) :: rest

/-- Does the text consist of white space? -/
def isBlankText (s : String) : Bool := s.toList.all Text.isBlank

mutual

/-- The tree of an element, and of other content what is kept of it.  `outer` is
the scope around it. -/
def resolve (outer : Scope) : Raw → Reading (List Tree)
  | .element tag children => do
    let (own, others) ← splitDeclarations [] tag.attributes
    let scope := Scope.inherit own outer
    let name ← expandElement scope tag.name
    let attributes ← expandAttributes scope [] others
    let declared := scope.filter fun d => !outer.contains d
    let written := declared.map Declaration.attribute
      ++ attributes.map fun a => (qualify scope true a.1, a.2)
    let children ← resolveAll scope children
    return [.element (qualify scope false name)
      (written.foldl (fun as a => Attributes.put a.1 a.2 as) []) children]
  | .text s => .ok (if isBlankText s then [] else [.text s])
  | .comment s => .ok [.comment s]
  | .instruction => .ok []

/-- The trees of a list of content. -/
def resolveAll (outer : Scope) : List Raw → Reading (List Tree)
  | [] => .ok []
  | r :: rs => do
    let t ← resolve outer r
    let ts ← resolveAll outer rs
    return t ++ ts

end

/-- The tree of the root element that a text holds. -/
def readTree (source : String) : Reading Tree := do
  let root ← nest (← pieces source.toList)
  return .document (← resolve [] root)

/-- The document that a text holds. -/
def Document.read (source : String) : Except Error Document := do
  Document.ofTree (← readTree source)

end PatchScript.Xml
