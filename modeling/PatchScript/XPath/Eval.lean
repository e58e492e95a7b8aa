import PatchScript.XPath.Value
import PatchScript.XPath.Parser

/-!
# Evaluation of XPath

An expression is evaluated at a *focus*: a node, its position in a list and the
size of that list.  Evaluation follows the expression.  A path is evaluated step
by step on lists of nodes; between two steps the nodes are put in document order
and repeated ones are dropped.  Predicates see the nodes of one step in the
order of its axis, which runs away from the node it starts at.

`selectElements` and `evaluateString` are the two questions that scripts ask.
-/

namespace PatchScript.XPath

open Xml (Document NodeId NodeKind)

/-! ## What can go wrong -/

/-- Why an expression has no value. -/
inductive Error where
  /-- The text is no expression. -/
  | unreadable (expression : String) (fault : Fault)
  /-- A function is called with a wrong number of arguments. -/
  | arity (function : String) (expected : String)
  /-- There is no function of this name. -/
  | unknownFunction (function : String)
  /-- Nodes are needed. -/
  | notNodes (what : String)
  /-- The expression as a whole has to denote nodes. -/
  | notElements (expression : String)
deriving DecidableEq

/-- What is told about the failure. -/
def Error.report : Error → Report
  | .unreadable expression fault =>
    ⟨"XPATH_SYNTAX", "Invalid XPath \"" ++ expression ++ "\": " ++ fault.detail, none⟩
  | .arity function expected =>
    ⟨"XPATH_SYNTAX", "Function " ++ function ++ "() expects " ++ expected ++ " argument(s)", none⟩
  | .unknownFunction function =>
    ⟨"XPATH_SYNTAX", "Unknown XPath function " ++ function ++ "()", none⟩
  | .notNodes what => ⟨"XPATH_NOT_NODESET", what ++ " must evaluate to a node-set", none⟩
  | .notElements expression =>
    ⟨"XPATH_NOT_NODESET", "Expression \"" ++ expression ++ "\" does not select elements", none⟩

/-! ## Axes -/

/-- The siblings on one side of a node: those behind it in order, or those before
it from the nearest on. -/
def siblings (d : Document) (following : Bool) (id : NodeId) : List NodeId :=
  match d.parent? id with
  | none => []
  | some p =>
    let all := d.children p
    if all.contains id then
      if following then (all.dropWhile (· != id)).drop 1
      else (all.takeWhile (· != id)).reverse
    else []

/-- The nodes along an axis from a node of the document, in the order of the
axis. -/
def nodeAxis (d : Document) (id : NodeId) : Axis → List Item
  | .child => (d.children id).map .node
  | .descendant => ((d.descendants id).drop 1).map .node
  | .descendantOrSelf => (d.descendants id).map .node
  | .parent => ((d.parent? id).toList).map .node
  | .ancestor => (d.ancestors id).map .node
  | .ancestorOrSelf => (id :: d.ancestors id).map .node
  | .followingSibling => (siblings d true id).map .node
  | .precedingSibling => (siblings d false id).map .node
  | .self => [.node id]
  | .attribute => (List.range (d.attributes id).length).map (.attribute id)

/-- The nodes along an axis, in the order of the axis.  From an attribute only the
ways up lead anywhere. -/
def alongAxis (d : Document) (axis : Axis) : Item → List Item
  | .node id => nodeAxis d id axis
  | .attribute owner index =>
    match axis with
    | .self => [.attribute owner index]
    | .parent => [.node owner]
    | .ancestor => (owner :: d.ancestors owner).map .node
    | .ancestorOrSelf => .attribute owner index :: (owner :: d.ancestors owner).map .node
    | _ => []

/-- Does a node that was reached along an axis pass a node test? -/
def passes (v : View) (test : NodeTest) : Item → Bool
  | .attribute owner index =>
    match test with
    | .any | .node => true
    | .name s => v.nameOf (.attribute owner index) == s
    | .text | .comment => false
  | .node id =>
    match test, v.document.kind? id with
    | .node, _ => true
    | .text, some (.text _) => true
    | .comment, some (.comment _) => true
    | .any, some (.element _) => true
    | .name s, some (.element e) => e.name == s
    | _, _ => false

/-! ## Functions -/

/-- Where an expression is evaluated. -/
structure Focus where
  /-- The current node. -/
  item : Item
  /-- Its position in the current list, counted from 1. -/
  position : Nat
  /-- The size of the current list. -/
  size : Nat

/-- How many arguments a function takes, in words; none if there is no such
function. -/
def arityOf? (function : String) : Option String :=
  if function ∈ ["last", "position", "true", "false"] then some "0"
  else if function ∈ ["count", "boolean", "not"] then some "1"
  else if function ∈
      ["string", "number", "string-length", "normalize-space", "name", "local-name"] then
    some "0 or 1"
  else if function ∈ ["contains", "starts-with"] then some "2"
  else if function = "concat" then some "at least 2"
  else none

/-- Can the function be called with that many arguments? -/
def takes (function : String) (n : Nat) : Bool :=
  match arityOf? function with
  | some "0" => n == 0
  | some "1" => n == 1
  | some "0 or 1" => n ≤ 1
  | some "2" => n == 2
  | some _ => 2 ≤ n
  | none => false

/-- The value of a function that asks about the focus, or about truth itself. -/
def constantOf (f : Focus) (function : String) : Value :=
  if function = "last" then .number (.ofNat f.size)
  else if function = "position" then .number (.ofNat f.position)
  else .boolean (function == "true")

/-- The value of a function of one argument. -/
def unaryOf (v : View) (function : String) (arg : Value) : Except Error Value :=
  match function with
  | "count" =>
    match arg with
    | .nodes items => .ok (.number (.ofNat items.length))
    | _ => .error (.notNodes "Argument of count()")
  | "boolean" => .ok (.boolean arg.toBool)
  | "not" => .ok (.boolean (!arg.toBool))
  | "string" => .ok (.string (arg.toText v))
  | "number" => .ok (.number (arg.toNumber v))
  | "string-length" => .ok (.number (.ofNat (arg.toText v).length))
  | "normalize-space" => .ok (.string (" ".intercalate (Text.words (arg.toText v))))
  | _ =>
    match arg with
    | .nodes items =>
      let full := (items.head?.map v.nameOf).getD ""
      .ok (.string (if function = "local-name" then
        String.ofList (Text.afterLast ':' full.toList) else full))
    | _ => .error (.notNodes "Argument of name()")

/-- The value of a function. -/
def callOf (v : View) (f : Focus) (function : String) (args : List Value) :
    Except Error Value :=
  if takes function args.length then
    match arityOf? function, args with
    | some "0", _ => .ok (constantOf f function)
    | some "1", arg :: _ => unaryOf v function arg
    | some "0 or 1", [] => unaryOf v function (.nodes [f.item])
    | some "0 or 1", arg :: _ => unaryOf v function arg
    | some "2", a :: b :: _ =>
      let a := a.toText v
      let b := b.toText v
      .ok (.boolean (if function = "contains" then Text.contains a b else Text.startsWith a b))
    | _, args => .ok (.string (String.join (args.map (·.toText v))))
  else
    match arityOf? function with
    | some expected => .error (.arity function expected)
    | none => .error (.unknownFunction function)

/-! ## Evaluation -/

/-- The nodes of a value that has to be nodes. -/
def nodesOf (what : String) : Value → Except Error (List Item)
  | .nodes items => .ok items
  | _ => .error (.notNodes what)

/-- Does a predicate with this value keep the node at a position?  A number keeps
the node at that position. -/
def keeps (position : Nat) : Value → Bool
  | .number x => x.equal (.ofNat position)
  | other => other.toBool

/-- The nodes that a predicate keeps, from the one at position `before + 1` on, of
a list of `size`. -/
def keepFrom (predicate : Focus → Except Error Value) (size : Nat) :
    (before : Nat) → List Item → Except Error (List Item)
  | _, [] => .ok []
  | before, item :: items => do
    let value ← predicate ⟨item, before + 1, size⟩
    let rest ← keepFrom predicate size (before + 1) items
    return if keeps (before + 1) value then item :: rest else rest

mutual

/-- The value of an expression at a focus. -/
def Expr.eval (v : View) : Expr → Focus → Except Error Value
  | .or l r, f => do
    if (← l.eval v f).toBool then return .boolean true
    else return .boolean (← r.eval v f).toBool
  | .and l r, f => do
    if (← l.eval v f).toBool then return .boolean (← r.eval v f).toBool
    else return .boolean false
  | .compare op l r, f => do
    let left ← l.eval v f
    let right ← r.eval v f
    return .boolean (Value.compare v op left right)
  | .add l r, f => do
    let left ← l.eval v f
    let right ← r.eval v f
    return .number ((left.toNumber v).add (right.toNumber v))
  | .subtract l r, f => do
    let left ← l.eval v f
    let right ← r.eval v f
    return .number ((left.toNumber v).subtract (right.toNumber v))
  | .negate e, f => do
    let value ← e.eval v f
    return .number (value.toNumber v).negate
  | .union l r, f => do
    let left ← nodesOf "Union operand" (← l.eval v f)
    let right ← nodesOf "Union operand" (← r.eval v f)
    return .nodes (v.inOrder (left ++ right))
  | .path absolute steps, f => do
    let start := if absolute then .node (v.document.topOf f.item.id) else f.item
    return .nodes (← evalSteps v steps [start])
  | .filter primary predicates steps, f => do
    let value ← primary.eval v f
    if predicates.isEmpty && steps.isEmpty then return value
    let items ← nodesOf "Filtered expression" value
    let kept ← evalPredicates v predicates (v.inOrder items)
    return .nodes (← evalSteps v steps kept)
  | .literal s, _ => .ok (.string s)
  | .number x, _ => .ok (.number x)
  | .call function args, f => do callOf v f function (← evalArgs v args f)

/-- The nodes that steps lead to from a list of nodes. -/
def evalSteps (v : View) : List Step → List Item → Except Error (List Item)
  | [], items => .ok items
  | .along axis test predicates :: steps, items => do
    let reached ← items.mapM fun item =>
      evalPredicates v predicates ((alongAxis v.document axis item).filter (passes v test))
    evalSteps v steps (v.inOrder reached.flatten)

/-- The nodes of a list that predicates keep, one predicate after the other. -/
def evalPredicates (v : View) : List Expr → List Item → Except Error (List Item)
  | [], items => .ok items
  | p :: ps, items => do
    let kept ← keepFrom (p.eval v) items.length 0 items
    evalPredicates v ps kept

/-- The values of arguments. -/
def evalArgs (v : View) : List Expr → Focus → Except Error (List Value)
  | [], _ => .ok []
  | e :: es, f => do
    let value ← e.eval v f
    let values ← evalArgs v es f
    return value :: values

end

/-! ## Questions -/

/-- The value of an expression at a node that stands alone in its list. -/
def evaluate (d : Document) (context : NodeId) (expression : String) : Except Error Value := do
  let e ← (read expression).mapError (.unreadable expression)
  e.eval (View.of d context) ⟨.node context, 1, 1⟩

/-- The elements that an expression selects, in document order. -/
def selectElements (d : Document) (context : NodeId) (expression : String) :
    Except Error (List NodeId) := do
  match ← evaluate d context expression with
  | .nodes items =>
    return items.filterMap fun item =>
      match item with
      | .node id => if d.isElement id then some id else none
      | .attribute .. => none
  | _ => throw (.notElements expression)

/-- The first element that an expression selects. -/
def selectFirst? (d : Document) (context : NodeId) (expression : String) :
    Except Error (Option NodeId) := do
  return (← selectElements d context expression).head?

/-- The text that an expression denotes. -/
def evaluateString (d : Document) (context : NodeId) (expression : String) :
    Except Error String := do
  return (← evaluate d context expression).toText (View.of d context)

end PatchScript.XPath
