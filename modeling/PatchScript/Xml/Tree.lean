import PatchScript.Text.Location
import PatchScript.Text.Class

/-!
# Trees of XML

The content of a document, as a value: elements with a name, attributes in order
and children, and texts and comments.  Names are qualified names, a prefix with
a colon included, and namespace declarations are attributes like all others.
-/

namespace PatchScript.Xml

/-! ## Names -/

/-- Can a name start with the character? -/
def isNameStart (c : Char) : Bool := Text.isAlphabetic c || c == '_' || c == ':'

/-- Can the character stand in a name? -/
def isNamePart (c : Char) : Bool :=
  Text.isAlphanumeric c || c == '_' || c == ':' || c == '-' || c == '.'

/-- Can an element or an attribute have this name? -/
def isValidName (name : String) : Bool :=
  match name.toList with
  | [] => false
  | c :: cs => isNameStart c && cs.all isNamePart

/-! ## Attributes -/

/-- The attributes of an element, in the order they were first set. -/
abbrev Attributes := List (String × String)

namespace Attributes

/-- The value of an attribute. -/
def get? (name : String) : Attributes → Option String
  | [] => none
  | (n, v) :: rest => if n = name then some v else get? name rest

/-- The attributes with one of them set: in its place if it is there, else behind
the others. -/
def put (name value : String) : Attributes → Attributes
  | [] => [(name, value)]
  | (n, v) :: rest => if n = name then (name, value) :: rest else (n, v) :: put name value rest

/-- The attributes without the one of this name. -/
def erase (name : String) : Attributes → Attributes
  | [] => []
  | (n, v) :: rest => if n = name then rest else (n, v) :: erase name rest

end Attributes

/-! ## Trees -/

/-- A tree of XML. -/
inductive Tree where
  /-- What stands at the top of a document. -/
  | document (children : List Tree)
  /-- An element. -/
  | element (name : String) (attributes : Attributes) (children : List Tree)
  /-- A text. -/
  | text (content : String)
  /-- A comment. -/
  | comment (content : String)
deriving Inhabited

/-- Is the tree a text? -/
def Tree.isText : Tree → Bool
  | .text _ => true
  | _ => false

end PatchScript.Xml
