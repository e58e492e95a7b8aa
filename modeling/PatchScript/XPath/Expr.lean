import PatchScript.XPath.Token

/-!
# Expressions of XPath

The part of XPath 1.0 that selectors are written in.  A location path is a list
of steps; a step goes along an axis, keeps the nodes that pass a test and then,
one predicate after the other, those the predicate holds of.
-/

namespace PatchScript.XPath

/-- The directions a step can go. -/
inductive Axis where
  | child | descendant | descendantOrSelf | parent | ancestor | ancestorOrSelf
  | followingSibling | precedingSibling | self | attribute
deriving DecidableEq

/-- The axis of a name. -/
def Axis.ofName? (name : String) : Option Axis :=
  if name = "child" then some .child
  else if name = "descendant" then some .descendant
  else if name = "descendant-or-self" then some .descendantOrSelf
  else if name = "parent" then some .parent
  else if name = "ancestor" then some .ancestor
  else if name = "ancestor-or-self" then some .ancestorOrSelf
  else if name = "following-sibling" then some .followingSibling
  else if name = "preceding-sibling" then some .precedingSibling
  else if name = "self" then some .self
  else if name = "attribute" then some .attribute
  else none

/-- What a step asks of a node. -/
inductive NodeTest where
  /-- The node is an element or, on the axis of attributes, an attribute. -/
  | any
  /-- The node has this name. -/
  | name (s : String)
  /-- The node is a text. -/
  | text
  /-- The node is a comment. -/
  | comment
  /-- Nothing is asked. -/
  | node
deriving DecidableEq

/-- The comparisons. -/
inductive Comparison where
  | equal | notEqual | less | lessOrEqual | greater | greaterOrEqual
deriving DecidableEq

mutual

/-- An expression. -/
inductive Expr where
  | or (left right : Expr)
  | and (left right : Expr)
  | compare (op : Comparison) (left right : Expr)
  | add (left right : Expr)
  | subtract (left right : Expr)
  | negate (inner : Expr)
  /-- The nodes of either side. -/
  | union (left right : Expr)
  /-- A location path, from the top of the tree or from the current node. -/
  | path (absolute : Bool) (steps : List Step)
  /-- A value with predicates and steps behind it. -/
  | filter (primary : Expr) (predicates : List Expr) (steps : List Step)
  | literal (s : String)
  | number (x : Binary64)
  /-- A call of a function. -/
  | call (function : String) (args : List Expr)

/-- A step of a location path. -/
inductive Step where
  /-- A step along an axis to the nodes that pass a test and the predicates. -/
  | along (axis : Axis) (test : NodeTest) (predicates : List Expr)

end

/-- The step that two slashes stand for. -/
def Step.anywhere : Step := .along .descendantOrSelf .node []

end PatchScript.XPath
