import PatchScript.Xml.Document
import PatchScript.XPath.Expr

/-!
# Values of XPath

An expression denotes a set of nodes, a text, a number or a truth value.  The
nodes of XPath are the nodes of a document and the attributes of its elements.

A set of nodes is a list in document order: a node stands before what is below
it, an element before its attributes and these before its children.  A `View` is
a document together with the place of every node in one of its trees, the tree
in which an expression is evaluated.  A node outside that tree would come behind
all nodes in it.
-/

namespace PatchScript.XPath

open Xml (Document NodeId)

/-! ## Nodes -/

/-- A node of XPath. -/
inductive Item where
  /-- A node of the document. -/
  | node (id : NodeId)
  /-- An attribute of an element, by its place among the attributes. -/
  | attribute (owner : NodeId) (index : Nat)
deriving DecidableEq, Inhabited

/-- The node of the document that a node is or belongs to. -/
def Item.id : Item → NodeId
  | .node id => id
  | .attribute owner _ => owner

/-- The place of a node among the node of the document it belongs to, which comes
first, and the attributes of that. -/
def Item.slot : Item → Nat
  | .node _ => 0
  | .attribute _ index => index + 1

/-- A document, seen from one of its trees. -/
structure View where
  /-- The document. -/
  document : Document
  /-- For each node of the document its place in the tree, if it is in it. -/
  places : Array (Option Nat)

namespace View

/-- The document, seen from the tree that a node is in. -/
def of (d : Document) (id : NodeId) : View where
  document := d
  places := (d.descendants (d.topOf id)).zipIdx.foldl
    (fun places (id, place) => places.setIfInBounds id (some place))
    (Array.replicate d.nodes.size none)

/-- The key of document order.  It is compared from left to right. -/
def key (v : View) (item : Item) : Nat × Nat × Nat :=
  match v.places[item.id]? with
  | some (some place) => (0, place, item.slot)
  | _ => (1, item.id, item.slot)

/-- Does one node stand before another in document order, or is it the same? -/
def precedes (v : View) (a b : Item) : Bool :=
  let (a₁, a₂, a₃) := v.key a
  let (b₁, b₂, b₃) := v.key b
  a₁ < b₁ || (a₁ == b₁ && (a₂ < b₂ || (a₂ == b₂ && a₃ ≤ b₃)))

/-- The nodes in document order, each of them once. -/
def inOrder (v : View) (items : List Item) : List Item :=
  (items.mergeSort v.precedes).eraseReps

/-- The attribute at a place. -/
def attributeAt? (v : View) (owner : NodeId) (index : Nat) : Option (String × String) :=
  (v.document.attributes owner)[index]?

/-- The text of a node. -/
def stringOf (v : View) : Item → String
  | .node id => v.document.stringValue id
  | .attribute owner index => ((v.attributeAt? owner index).map (·.2)).getD ""

/-- The name of a node, empty for nodes without one. -/
def nameOf (v : View) : Item → String
  | .node id => (v.document.name? id).getD ""
  | .attribute owner index => ((v.attributeAt? owner index).map (·.1)).getD ""

end View

/-! ## Values -/

/-- A value. -/
inductive Value where
  /-- A set of nodes, in document order. -/
  | nodes (items : List Item)
  /-- A text. -/
  | string (s : String)
  /-- A number. -/
  | number (x : Binary64)
  /-- A truth value. -/
  | boolean (b : Bool)
deriving DecidableEq, Inhabited

/-- A number as XPath writes it: both zeros are `0`. -/
def renderNumber (x : Binary64) : String := if x.isZero then "0" else x.render

/-- Do the characters denote a number of XPath: digits with at most one point, and
perhaps a minus sign before them? -/
def isNumeral (cs : List Char) : Bool :=
  let digits := match cs with
    | '-' :: ds => ds
    | ds => ds
  !digits.isEmpty && digits.all isNumberPart && digits.count '.' ≤ 1 && digits != ['.']

/-- The number that a text denotes, blanks around it aside. -/
def numberOfText (s : String) : Binary64 :=
  let cs := Text.trimList s.toList
  if isNumeral cs then (Decimal.number? cs).getD .nan else .nan

namespace Value

/-- The value as a text: of nodes, that of the first. -/
def toText (v : View) : Value → String
  | .nodes items => (items.head?.map v.stringOf).getD ""
  | .string s => s
  | .number x => renderNumber x
  | .boolean b => if b then "true" else "false"

/-- The value as a number. -/
def toNumber (v : View) : Value → Binary64
  | .number x => x
  | .boolean b => .ofNat (if b then 1 else 0)
  | other => numberOfText (other.toText v)

/-- The value as a truth value. -/
def toBool : Value → Bool
  | .nodes items => !items.isEmpty
  | .string s => s != ""
  | .number x => !x.isZero && !x.isNaN
  | .boolean b => b

/-! ## Comparison -/

/-- Is the value a truth value? -/
def isBoolean : Value → Bool
  | .boolean _ => true
  | _ => false

/-- Is the value a number? -/
def isNumber : Value → Bool
  | .number _ => true
  | _ => false

/-- Equality of values that are no nodes, by the kind that wins: truth values, then
numbers, then texts. -/
def equalAtoms (v : View) (l r : Value) : Bool :=
  if l.isBoolean || r.isBoolean then l.toBool == r.toBool
  else if l.isNumber || r.isNumber then (l.toNumber v).equal (r.toNumber v)
  else l.toText v == r.toText v

/-- Comparison of values that are no nodes. -/
def compareAtoms (v : View) (op : Comparison) (l r : Value) : Bool :=
  match op with
  | .equal => equalAtoms v l r
  | .notEqual => !equalAtoms v l r
  | .less => (l.toNumber v).less (r.toNumber v)
  | .lessOrEqual => (l.toNumber v).lessOrEqual (r.toNumber v)
  | .greater => (r.toNumber v).less (l.toNumber v)
  | .greaterOrEqual => (r.toNumber v).lessOrEqual (l.toNumber v)

/-- Comparison of values.  It holds of nodes if it holds of the text of one of
them, but against a truth value the nodes are one truth value. -/
def compare (v : View) (op : Comparison) (l r : Value) : Bool :=
  match l, r with
  | .nodes as, .nodes bs =>
    as.any fun a => bs.any fun b =>
      compareAtoms v op (.string (v.stringOf a)) (.string (v.stringOf b))
  | .nodes as, .boolean _ => compareAtoms v op (.boolean (!as.isEmpty)) r
  | .boolean _, .nodes bs => compareAtoms v op l (.boolean (!bs.isEmpty))
  | .nodes as, _ => as.any fun a => compareAtoms v op (.string (v.stringOf a)) r
  | _, .nodes bs => bs.any fun b => compareAtoms v op l (.string (v.stringOf b))
  | _, _ => compareAtoms v op l r

end Value

end PatchScript.XPath
