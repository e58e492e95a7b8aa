import PatchScript.Xml.Writer

/-!
# Documents

A document under change is an arena: a list of nodes that only grows, in which a
node is known by its number.  A node knows its parent and its children.  A node
that is detached stays in the arena and keeps what is below it, but no longer
has a parent.

Nodes get their numbers in the order they are made, and a node is made under its
parent, so a child has a greater number than its parent.  The walks through the
arena need a bound on their length; the number of nodes is one.
-/

namespace PatchScript.Xml

/-- The number of a node. -/
abbrev NodeId := Nat

/-- What an element is, apart from what is in it. -/
structure Element where
  /-- The name. -/
  name : String
  /-- The attributes. -/
  attributes : Attributes
deriving DecidableEq, Inhabited

/-- What a node is. -/
inductive NodeKind where
  | document
  | element (e : Element)
  | text (content : String)
  | comment (content : String)
deriving DecidableEq, Inhabited

/-- A node: what it is and where it is. -/
structure Node where
  /-- What the node is. -/
  kind : NodeKind
  /-- The node it is a child of. -/
  parent : Option NodeId
  /-- Its children, in order. -/
  children : List NodeId
deriving DecidableEq, Inhabited

/-- A document: its nodes, of which the first stands for the document itself, and
the number of the element it started with. -/
structure Document where
  /-- The nodes. -/
  nodes : Array Node
  /-- The root element. -/
  root : NodeId
deriving DecidableEq

/-- Why a document cannot be made or changed. -/
inductive Error where
  /-- The name is none that an element or an attribute can have. -/
  | invalidName (name : String)
  /-- The text is not well-formed. -/
  | malformed (reason : String)
deriving DecidableEq

/-- What is told about the failure. -/
def Error.report : Error → Report
  | .invalidName name => ⟨"XML_INVALID_NAME", "\"" ++ name ++ "\" is not a valid XML name", none⟩
  | .malformed reason => ⟨"XML_PARSE_ERROR", reason, none⟩

/-- Fails on a name that is not valid. -/
def checkName (name : String) : Except Error Unit :=
  if isValidName name then .ok () else .error (.invalidName name)

namespace Document

/-! ## Looking -/

/-- The node that stands for the document. -/
def top : NodeId := 0

/-- What a node is. -/
def kind? (d : Document) (id : NodeId) : Option NodeKind := d.nodes[id]?.map (·.kind)

/-- The node that a node is a child of. -/
def parent? (d : Document) (id : NodeId) : Option NodeId := d.nodes[id]?.bind (·.parent)

/-- The children of a node. -/
def children (d : Document) (id : NodeId) : List NodeId := (d.nodes[id]?.map (·.children)).getD []

/-- The element that a node is. -/
def element? (d : Document) (id : NodeId) : Option Element :=
  match d.kind? id with
  | some (.element e) => some e
  | _ => none

/-- Is the node an element? -/
def isElement (d : Document) (id : NodeId) : Bool := (d.element? id).isSome

/-- The name of an element. -/
def name? (d : Document) (id : NodeId) : Option String := (d.element? id).map (·.name)

/-- The attributes of an element. -/
def attributes (d : Document) (id : NodeId) : Attributes :=
  ((d.element? id).map (·.attributes)).getD []

/-- The value of an attribute. -/
def attribute? (d : Document) (id : NodeId) (name : String) : Option String :=
  (d.attributes id).get? name

/-- The children that are elements. -/
def elementChildren (d : Document) (id : NodeId) : List NodeId := (d.children id).filter d.isElement

/-- The `n`-th of the child elements of a name, counted from 1. -/
def nthChild? (d : Document) (id : NodeId) (name : String) (n : Nat) : Option NodeId :=
  if n = 0 then none
  else ((d.elementChildren id).filter fun c => d.name? c == some name)[n - 1]?

/-! ## Changing -/

/-- The arena with a new node at the end, the last child of `parent`. -/
def push (d : Document) (parent : NodeId) (kind : NodeKind) : Document :=
  let id := d.nodes.size
  { d with
    nodes := (d.nodes.push ⟨kind, some parent, []⟩).modify parent fun n =>
      { n with children := n.children ++ [id] } }

/-- The number that the next new node gets. -/
def next (d : Document) : NodeId := d.nodes.size

/-- The document with the attributes of an element changed. -/
def modifyAttributes (d : Document) (id : NodeId) (f : Attributes → Attributes) : Document :=
  { d with
    nodes := d.nodes.modify id fun n =>
      match n.kind with
      | .element e => { n with kind := .element { e with attributes := f e.attributes } }
      | _ => n }

/-- The document with an attribute set. -/
def setAttribute (d : Document) (id : NodeId) (name value : String) : Except Error Document := do
  checkName name
  return d.modifyAttributes id (·.put name value)

/-- The document without an attribute. -/
def removeAttribute (d : Document) (id : NodeId) (name : String) : Document :=
  d.modifyAttributes id (·.erase name)

/-- The document with a new element at the end of `parent`, and its number. -/
def appendElement (d : Document) (parent : NodeId) (name : String) :
    Except Error (Document × NodeId) := do
  checkName name
  return (d.push parent (.element ⟨name, []⟩), d.next)

/-- The document with a new text at the end of `parent`, and its number. -/
def appendText (d : Document) (parent : NodeId) (content : String) : Document × NodeId :=
  (d.push parent (.text content), d.next)

/-- The document with a new comment at the end of `parent`, and its number. -/
def appendComment (d : Document) (parent : NodeId) (content : String) : Document × NodeId :=
  (d.push parent (.comment content), d.next)

/-- The document with a node taken from its parent, if it has one. -/
def detach (d : Document) (id : NodeId) : Document :=
  match d.parent? id with
  | none => d
  | some p =>
    { d with
      nodes := (d.nodes.modify id fun n => { n with parent := none }).modify p fun n =>
        { n with children := n.children.filter (· != id) } }

/-- The document without children of its own. -/
def empty : Document := ⟨#[⟨.document, none, []⟩], 1⟩

/-- The document that holds an element without attributes and children. -/
def ofName (name : String) : Except Error Document := do
  let (d, root) ← empty.appendElement top name
  return { d with root }

/-! ## Walking -/

/-- The nodes on a stack and all below them, an element before its children.
`found` holds what was found, last node first, and `steps` bounds the number of
nodes. -/
def walk (d : Document) :
    (steps : Nat) → (found : List NodeId) → (stack : List NodeId) → List NodeId
  | 0, found, _ => found.reverse
  | _ + 1, found, [] => found.reverse
  | n + 1, found, id :: stack => walk d n (id :: found) (d.children id ++ stack)

/-- A node and all below it, an element before its children. -/
def descendants (d : Document) (id : NodeId) : List NodeId := d.walk d.nodes.size [] [id]

/-- The nodes above a node, the nearest first, at most `steps` of them. -/
def ancestorsFrom (d : Document) : (steps : Nat) → NodeId → List NodeId
  | 0, _ => []
  | n + 1, id =>
    match d.parent? id with
    | none => []
    | some p => p :: ancestorsFrom d n p

/-- The nodes above a node, the nearest first. -/
def ancestors (d : Document) (id : NodeId) : List NodeId := d.ancestorsFrom d.nodes.size id

/-- The topmost node of the tree that a node is in. -/
def topOf (d : Document) (id : NodeId) : NodeId := (d.ancestors id).getLastD id

/-- The text that a node is or, for an element or the document, all texts below
it. -/
def stringValue (d : Document) (id : NodeId) : String :=
  match d.kind? id with
  | some (.text s) | some (.comment s) => s
  | _ => String.join ((d.descendants id).filterMap fun n =>
      match d.kind? n with
      | some (.text s) => some s
      | _ => none)

/-! ## Trees -/

/-- The tree below a node, down to a number of levels. -/
def treeFrom (d : Document) : (levels : Nat) → NodeId → Tree
  | 0, _ => .document []
  | n + 1, id =>
    match d.kind? id with
    | some (.element e) => .element e.name e.attributes ((d.children id).map (treeFrom d n))
    | some (.text s) => .text s
    | some (.comment s) => .comment s
    | some .document | none => .document ((d.children id).map (treeFrom d n))

/-- The tree below a node. -/
def tree (d : Document) (id : NodeId) : Tree := d.treeFrom d.nodes.size id

/-- A node as it is written. -/
def writeNode (d : Document) (id : NodeId) : String := String.ofList ((d.tree id).write 0 false)

/-- A document as it is written. -/
def write (d : Document) : String := writeTop ((d.children top).map d.tree)

mutual

/-- The document with a tree added at the end of `parent`. -/
def append (d : Document) (parent : NodeId) : Tree → Except Error Document
  | .document children => appendAll d parent children
  | .text content => .ok (d.appendText parent content).1
  | .comment content => .ok (d.appendComment parent content).1
  | .element name attributes children => do
    let (d, id) ← d.appendElement parent name
    let d ← attributes.foldlM (fun d a => d.setAttribute id a.1 a.2) d
    appendAll d id children

/-- The document with trees added at the end of `parent`. -/
def appendAll (d : Document) (parent : NodeId) : List Tree → Except Error Document
  | [] => .ok d
  | t :: ts => do
    let d ← append d parent t
    appendAll d parent ts

end

/-- The document of a tree, whose first element is the root. -/
def ofTree (t : Tree) : Except Error Document := empty.append top t

end Document

end PatchScript.Xml
