import PatchScript.Run.Session
import PatchScript.Run.Template

/-!
# What terms do

`eval` runs a term and gives the text it denotes, or nothing for a directive.  It
follows the term.  Two kinds of directives leave the term they stand in: a `use`
goes to the body of a preset, an `include` to another script.  What happens there
is the business of the `Ways` that `eval` is given.

`bodyAt` ties the knot for presets.  It counts down a number of levels, one per
preset that is entered.  A preset cannot run inside itself, so there are never
more levels than presets.
-/

namespace PatchScript.Run

open Xml (Document NodeId)
open Script (Term Literal)
open Eval

variable {σ : Type} [DocumentStore σ]

/-- The ways out of a term. -/
structure Ways (σ : Type) where
  /-- Runs the body of a preset. -/
  body : List (Term Nat) → Eval σ Unit
  /-- Runs the script of a name. -/
  script : String → Eval σ Unit

/-! ## Values -/

/-- The text of a literal, with its placeholders filled. -/
def evalLiteral : Literal → Eval σ String
  | .text s => do
    match fillPlaceholders (← context).const? s with
    | .ok value => return value
    | .error name => throw (.unresolved name)
  | other => return other.render

/-- The text with a minus sign before it, if there is one. -/
def withSign (negative : Bool) (s : String) : String := if negative then "-" ++ s else s

/-- The integer that a text denotes, cut at the point. -/
def integerOf? (s : String) : Option Int :=
  match Decimal.number? (Text.trimList s.toList) with
  | some x => if x.isFinite then some x.toInteger else none
  | none => none

/-- The position that a text denotes. -/
def positionOf (s : String) : Eval σ Int :=
  match integerOf? s with
  | some n => return n
  | none => throw (.invalidPosition s)

/-- The integer that a term is. -/
def integerOfTerm? : Term Nat → Option Int
  | .literal (.integer n) => some n
  | _ => none

/-! ## Calls -/

/-- The mark that makes a selector start at the top of the document. -/
def fromTop : Char := '~'

/-- Reads from the document what a selector denotes.  Without a selector or a
document this is nothing. -/
def callGet (selector : Option String) : Eval σ (Option String) := do
  match selector with
  | none => return none
  | some s =>
    let c ← context
    let start :=
      if s.toList.head? = some fromTop then some Document.top else c.element?
    match start with
    | none => return none
    | some id =>
      let expression := String.ofList (s.toList.filter (· != fromTop))
      ask (fun d => (XPath.evaluateString d id expression).map some) none

/-- Binds parameters to the values of arguments, from the one with this index on. -/
def bindParams (preset : String) : (index : Nat) → List String → List (Option String) →
    Eval σ Unit
  | _, [], _ => return
  | _, _, [] => return
  | index, p :: ps, v :: vs => do
    match v with
    | none => throw (.presetArgNull preset index)
    | some value => bindName p (.constant value)
    bindParams preset (index + 1) ps vs

/-- Runs a preset.  The last value has to be the sentinel; the others are those of
the arguments. -/
def callPreset (w : Ways σ) (p : Preset) (values : List (Option String)) : Eval σ Unit := do
  if values.getLast? ≠ some (some (← context).sentinel) then
    throw (.presetUseRequired p.name)
  let values := values.dropLast
  if values.length < p.params.length then
    throw (.presetMissingArgs p.name p.params.length values.length)
  inPreset p do
    bindParams p.name 0 p.params values
    w.body p.body

/-- Calls what a name is bound to.  `first` evaluates the first argument and `all`
evaluates all of them; how many are evaluated depends on what is called. -/
def callName (w : Ways σ) (name : String) (first : Eval σ (Option String))
    (all : Eval σ (List (Option String))) : Eval σ (Option String) := do
  match (← context).func? name with
  | none => return none
  | some .get => callGet (← first)
  | some (.template text) => return some (fillSlots text ((← all).map (·.getD "")))
  | some (.preset p) =>
    callPreset w p (← all)
    return none

/-! ## Directives -/

/-- The first element that a selector selects. -/
def selectOne (id : NodeId) (selector : String) : Eval σ (Option NodeId) :=
  ask (XPath.selectFirst? · id selector) none

/-- The elements that a selector selects. -/
def selectAll (id : NodeId) (selector : String) : Eval σ (List NodeId) :=
  ask (XPath.selectElements · id selector) []

/-- The child element of a name with a number, counted from 1. -/
def nthChild? (id : NodeId) (tag : String) (n : Int) : Eval σ (Option NodeId) := do
  if n < 1 then return none
  else return (← context).document.bind (·.nthChild? id tag n.toNat)

/-- Appends an element. -/
def appendElement (id : NodeId) (tag : String) : Eval σ (Option NodeId) :=
  change (·.appendElement id tag)

/-- Takes elements from their parents. -/
def detachAll (ids : List NodeId) : Eval σ Unit := do
  let _ ← change fun d => .ok (ids.foldl Document.detach d, ())

/-- Runs a step at an element, if there is one. -/
def atElement? (id : Option NodeId) (step : Eval σ Unit) : Eval σ Unit := do
  match id with
  | some id => atElement id step
  | none => return

/-- Opens the document at a path for a step, and writes it back if the step does
not fail. -/
def openFile (path : String) (step : Eval σ Unit) : Eval σ Unit := do
  match ← load path with
  | none => skip (.fileNotFound path)
  | some d =>
    match ← onDocument d step with
    | (_, some d) => persist path d
    | (_, none) => return

/-- Appends an element at a position and runs a step at it.  If the element there
exists, or the one before it does not, nothing is done. -/
def addAt (id : NodeId) (tag : String) (n : Int) (step : Eval σ Unit) : Eval σ Unit := do
  let before ← nthChild? id tag (n - 1)
  let there ← nthChild? id tag n
  if n < 1 ∨ (1 < n ∧ before.isNone) ∨ there.isSome then return
  atElement? (← appendElement id tag) step

/-- Runs a step at the element at a position, which is appended if it is missing
and the one before it is not. -/
def changeOrAddAt (id : NodeId) (tag : String) (n : Int) (step : Eval σ Unit) :
    Eval σ Unit := do
  if n < 1 then throw (.invalidPosition (toString n))
  let before ← nthChild? id tag (n - 1)
  if 1 < n ∧ before.isNone then
    skip (.predecessorMissing tag)
  else
    match ← nthChild? id tag n with
    | some there => atElement there step
    | none => atElement? (← appendElement id tag) step

/-! ## Terms -/

mutual

/-- Runs a term.  The result is the text it denotes, or nothing if it is a
directive. -/
def eval (w : Ways σ) : Term Nat → Eval σ (Option String)
  | .literal value => do return some (← evalLiteral value)
  | .name name negative => do
    return some (withSign negative (((← context).const? name).getD name))
  | .call name args negative => do
    let value ← callName w name (evalFirst w none args) (evalArgs w args)
    return some (withSign negative (value.getD name))
  | .block body => do
    evalBody w body
    return none
  | .const name value => do
    let text ← eval w value
    bindName name (.constant (text.getD ""))
    return none
  | .preset mark name params body => do
    bindName name (.callable (.preset ⟨mark, name, params, body⟩))
    return none
  | .use name args => do
    let c ← context
    if (c.func? name).isNone then skip (.presetNotFound name)
    else
      let _ ← callName w name (evalFirst w (some c.sentinel) args)
        (do return (← evalArgs w args) ++ [some c.sentinel])
    return none
  | .include name => do
    w.script name
    return none
  | .file path body => do
    if (← context).document.isSome then skip .fileNested
    else
      let path ← eval w path
      openFile (path.getD "") (evalBody w body)
    return none
  | .set attr value => do
    if let some id ← cursor? "set" then
      let name ← eval w attr
      let text ← eval w value
      let _ ← change fun d => do
        let d ← d.setAttribute id (name.getD "") (text.getD "")
        return (d, ())
    return none
  | .removeAttribute attr => do
    if let some id ← cursor? "remove" then
      let name ← eval w attr
      let _ ← change fun d => .ok (d.removeAttribute id (name.getD ""), ())
    return none
  | .removeElement selector => do
    if let some id ← cursor? "remove" then
      let s := (← eval w selector).getD ""
      match ← selectOne id s with
      | some target => detachAll [target]
      | none => skip (.elementNotFound s)
    return none
  | .removeAll selector => do
    if let some id ← cursor? "remove" then
      let s := (← eval w selector).getD ""
      match ← selectAll id s with
      | [] => skip (.elementsNotFound s)
      | targets => detachAll targets
    return none
  | .add tag body => do
    if let some id ← cursor? "add" then
      let name ← eval w tag
      atElement? (← appendElement id (name.getD "")) (evalBody w body)
    return none
  | .addAt tag position body => do
    if let some id ← cursor? "add" then
      let name ← eval w tag
      let n ← match integerOfTerm? position with
        | some n => pure n
        | none => do positionOf ((← eval w position).getD "")
      addAt id (name.getD "") n (evalBody w body)
    return none
  | .change selector body => do
    if let some id ← cursor? "change" then
      let s := (← eval w selector).getD ""
      match ← selectOne id s with
      | some target => atElement target (evalBody w body)
      | none => skip (.elementNotFound s)
    return none
  | .changeAll selector body => do
    if let some id ← cursor? "all" then
      let s := (← eval w selector).getD ""
      match ← selectAll id s with
      | [] => skip (.elementsNotFound s)
      | targets => targets.forM fun target => atElement target (evalBody w body)
    return none
  | .changeOrAdd tag body => do
    if let some id ← cursor? "change_add" then
      let name ← eval w tag
      changeOrAddAt id (name.getD "") 1 (evalBody w body)
    return none
  | .changeOrAddAt tag position body => do
    if let some id ← cursor? "change_add" then
      let name ← eval w tag
      let n ← match integerOfTerm? position with
        | some n => pure n
        | none => do positionOf ((← eval w position).getD "")
      changeOrAddAt id (name.getD "") n (evalBody w body)
    return none

/-- Runs terms one after the other. -/
def evalBody (w : Ways σ) : List (Term Nat) → Eval σ Unit
  | [] => return
  | t :: ts => do
    let _ ← eval w t
    evalBody w ts

/-- The value of the first argument; `none'` stands for it if there is no
argument. -/
def evalFirst (w : Ways σ) (none' : Option String) :
    List (Term Nat) → Eval σ (Option String)
  | [] => return none'
  | t :: _ => eval w t

/-- The values of arguments, evaluated in order. -/
def evalArgs (w : Ways σ) : List (Term Nat) → Eval σ (List (Option String))
  | [] => return []
  | t :: ts => do
    let v ← eval w t
    let vs ← evalArgs w ts
    return v :: vs

end

/-- Runs terms with presets nested down to a number of levels.  `script` runs the
script of a name. -/
def bodyAt (script : String → Eval σ Unit) :
    (levels : Nat) → List (Term Nat) → Eval σ Unit
  | 0, _ => throw .levels
  | n + 1, body => evalBody ⟨bodyAt script n, script⟩ body

end PatchScript.Run
