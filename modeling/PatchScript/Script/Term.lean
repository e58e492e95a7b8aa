import PatchScript.Number.Decimal

/-!
# The syntax of scripts

A script is a list of terms.  A term is a directive, which does something, or a
value, which denotes a text.  Every place that takes a value can hold any term,
so there is one type for both.

Preset declarations are told apart by a mark and not by their text: two
declarations that read alike are still two.  The type of the marks is a
parameter.  A script as it is read has the mark `()` on each declaration, and
`number` counts the declarations through.
-/

namespace PatchScript.Script

/-- A value that is written down. -/
inductive Literal where
  /-- A text.  It may hold placeholders, a name between braces each. -/
  | text (s : String)
  /-- A number. -/
  | number (x : Binary64)
  /-- An integer of 64 bits. -/
  | integer (n : Int)
  /-- A truth value. -/
  | boolean (b : Bool)
deriving DecidableEq

/-- A literal as a text, placeholders as they stand. -/
def Literal.render : Literal → String
  | .text s => s
  | .number x => x.render
  | .integer n => toString n
  | .boolean b => if b then "true" else "false"

/-- A term, whose preset declarations carry marks of the type `ι`. -/
inductive Term (ι : Type) where
  /-- A value that is written down. -/
  | literal (value : Literal)
  /-- A name that stands for its constant, with a minus sign in front or not. -/
  | name (name : String) (negative : Bool)
  /-- A name with arguments in parentheses, with a minus sign in front or not. -/
  | call (name : String) (args : List (Term ι)) (negative : Bool)
  /-- Terms one after the other. -/
  | block (body : List (Term ι))
  /-- Binds a constant. -/
  | const (name : String) (value : Term ι)
  /-- Declares a preset. -/
  | preset (mark : ι) (name : String) (params : List String) (body : List (Term ι))
  /-- Runs a preset. -/
  | use (name : String) (args : List (Term ι))
  /-- Runs another script. -/
  | include (name : String)
  /-- Opens a document for the body. -/
  | file (path : Term ι) (body : List (Term ι))
  /-- Sets an attribute of the current element. -/
  | set (attr value : Term ι)
  /-- Removes an attribute of the current element. -/
  | removeAttribute (attr : Term ι)
  /-- Removes the first element that is selected. -/
  | removeElement (selector : Term ι)
  /-- Removes every element that is selected. -/
  | removeAll (selector : Term ι)
  /-- Appends an element and works on it. -/
  | add (tag : Term ι) (body : List (Term ι))
  /-- Appends an element if it becomes the one with that number among those of its
  name, and works on it. -/
  | addAt (tag position : Term ι) (body : List (Term ι))
  /-- Works on the first element that is selected. -/
  | change (selector : Term ι) (body : List (Term ι))
  /-- Works on every element that is selected. -/
  | changeAll (selector : Term ι) (body : List (Term ι))
  /-- Works on the first element of the name, appended if there is none. -/
  | changeOrAdd (tag : Term ι) (body : List (Term ι))
  /-- Works on the element with that number among those of its name, appended if it
  is the next. -/
  | changeOrAddAt (tag position : Term ι) (body : List (Term ι))
deriving Inhabited

/-! ## Marks -/

mutual

/-- The term with its preset declarations numbered from `n` on, an outer one
before those inside it, and the first number not used. -/
def Term.number (n : Nat) : Term Unit → Term Nat × Nat
  | .literal value => (.literal value, n)
  | .name name negative => (.name name negative, n)
  | .call name args negative =>
    let (args, n) := numberAll n args
    (.call name args negative, n)
  | .block body =>
    let (body, n) := numberAll n body
    (.block body, n)
  | .const name value =>
    let (value, n) := value.number n
    (.const name value, n)
  | .preset _ name params body =>
    let (body, next) := numberAll (n + 1) body
    (.preset n name params body, next)
  | .use name args =>
    let (args, n) := numberAll n args
    (.use name args, n)
  | .include name => (.include name, n)
  | .file path body =>
    let (path, n) := path.number n
    let (body, n) := numberAll n body
    (.file path body, n)
  | .set attr value =>
    let (attr, n) := attr.number n
    let (value, n) := value.number n
    (.set attr value, n)
  | .removeAttribute attr =>
    let (attr, n) := attr.number n
    (.removeAttribute attr, n)
  | .removeElement selector =>
    let (selector, n) := selector.number n
    (.removeElement selector, n)
  | .removeAll selector =>
    let (selector, n) := selector.number n
    (.removeAll selector, n)
  | .add tag body =>
    let (tag, n) := tag.number n
    let (body, n) := numberAll n body
    (.add tag body, n)
  | .addAt tag position body =>
    let (tag, n) := tag.number n
    let (position, n) := position.number n
    let (body, n) := numberAll n body
    (.addAt tag position body, n)
  | .change selector body =>
    let (selector, n) := selector.number n
    let (body, n) := numberAll n body
    (.change selector body, n)
  | .changeAll selector body =>
    let (selector, n) := selector.number n
    let (body, n) := numberAll n body
    (.changeAll selector body, n)
  | .changeOrAdd tag body =>
    let (tag, n) := tag.number n
    let (body, n) := numberAll n body
    (.changeOrAdd tag body, n)
  | .changeOrAddAt tag position body =>
    let (tag, n) := tag.number n
    let (position, n) := position.number n
    let (body, n) := numberAll n body
    (.changeOrAddAt tag position body, n)

/-- Terms numbered one after the other. -/
def numberAll (n : Nat) : List (Term Unit) → List (Term Nat) × Nat
  | [] => ([], n)
  | t :: ts =>
    let (t, n) := t.number n
    let (ts, n) := numberAll n ts
    (t :: ts, n)

end

mutual

/-- How many presets a term declares, at any depth. -/
def Term.presets {ι : Type} : Term ι → Nat
  | .literal _ | .name .. | .include _ => 0
  | .call _ args _ | .use _ args => presetsOf args
  | .block body => presetsOf body
  | .const _ value => value.presets
  | .preset _ _ _ body => presetsOf body + 1
  | .set attr value => attr.presets + value.presets
  | .removeAttribute selector | .removeElement selector | .removeAll selector => selector.presets
  | .file head body | .add head body | .change head body | .changeAll head body
  | .changeOrAdd head body => head.presets + presetsOf body
  | .addAt tag position body | .changeOrAddAt tag position body =>
    tag.presets + position.presets + presetsOf body

/-- How many presets terms declare, at any depth. -/
def presetsOf {ι : Type} : List (Term ι) → Nat
  | [] => 0
  | t :: ts => t.presets + presetsOf ts

end

/-! ## Includes -/

mutual

/-- The names of the scripts that a term includes, at any depth. -/
def Term.includes {ι : Type} : Term ι → List String
  | .literal _ | .name .. => []
  | .include name => [name]
  | .call _ args _ | .use _ args => includesOf args
  | .block body | .preset _ _ _ body => includesOf body
  | .const _ value => value.includes
  | .set attr value => attr.includes ++ value.includes
  | .removeAttribute selector | .removeElement selector | .removeAll selector => selector.includes
  | .file head body | .add head body | .change head body | .changeAll head body
  | .changeOrAdd head body => head.includes ++ includesOf body
  | .addAt tag position body | .changeOrAddAt tag position body =>
    tag.includes ++ position.includes ++ includesOf body

/-- The names of the scripts that terms include, at any depth. -/
def includesOf {ι : Type} : List (Term ι) → List String
  | [] => []
  | t :: ts => t.includes ++ includesOf ts

end

end PatchScript.Script
