import PatchScript.Run.Fault
import PatchScript.Run.Sentinel
import PatchScript.Script.Term

/-!
# Contexts

A context is what a script sees while it runs: the names that are bound, the
document that is open, the element the directives work on, and what has been
diagnosed.

Names are bound in scopes.  There is one global scope and a stack of frames, the
innermost first.  A name is bound in the innermost scope and looked up from
there outwards.  Within one scope a name is bound once.
-/

namespace PatchScript.Run

open Xml (Document NodeId)

/-! ## Scopes -/

/-- A preset: its declaration, told from all others by its mark. -/
structure Preset where
  /-- The mark. -/
  mark : Nat
  /-- The name. -/
  name : String
  /-- The names of the parameters. -/
  params : List String
  /-- The directives. -/
  body : List (Script.Term Nat)

/-- What can be called. -/
inductive Callable where
  /-- Reads from the document. -/
  | get
  /-- Fills the slots of a text. -/
  | template (text : String)
  /-- Runs a preset. -/
  | preset (p : Preset)

/-- What a name is bound to. -/
inductive Binding where
  /-- A constant, which can be called as a template too. -/
  | constant (text : String)
  /-- Something that can only be called. -/
  | callable (c : Callable)

/-- What can be called by a name with this binding. -/
def Binding.toCallable : Binding → Callable
  | .constant text => .template text
  | .callable c => c

/-- The text of a constant. -/
def Binding.text? : Binding → Option String
  | .constant text => some text
  | .callable _ => none

/-- The names bound in one place, the latest first. -/
abbrev Scope := List (String × Binding)

/-- What a name is bound to in a scope. -/
def Scope.find? (s : Scope) (name : String) : Option Binding :=
  (List.find? (·.1 == name) s).map (·.2)

/-- The global scope at the start, which binds the one function there is. -/
def Scope.initial : Scope := [("get", .callable .get)]

/-! ## Contexts -/

/-- What a script sees while it runs. -/
structure Context where
  /-- The global scope. -/
  globals : Scope
  /-- The frames, the innermost first. -/
  frames : List Scope
  /-- The document that is open. -/
  document : Option Document
  /-- The element that was entered last. -/
  cursor : Option NodeId
  /-- The text that lets presets run. -/
  sentinel : String
  /-- What has been diagnosed, the oldest first. -/
  diagnostics : List Diagnostic
  /-- The names of the scripts that include each other, the first first. -/
  chain : List String
  /-- The presets that run, the outermost first. -/
  active : List Preset
  /-- The first mark that no declaration has. -/
  nextMark : Nat

namespace Context

/-- A context in which nothing has happened. -/
def new (seed : UInt32) (chain : List String) : Context where
  globals := .initial
  frames := []
  document := none
  cursor := none
  sentinel := sentinelOf seed
  diagnostics := []
  chain := chain
  active := []
  nextMark := 0

/-- The scopes, the innermost first. -/
def scopes (c : Context) : List Scope := c.frames ++ [c.globals]

/-- The scope that names are bound in. -/
def innermost (c : Context) : Scope := c.frames.headD c.globals

/-- The constant that a name stands for. -/
def const? (c : Context) (name : String) : Option String :=
  c.scopes.findSome? fun s => (s.find? name).bind Binding.text?

/-- What is called by a name. -/
def func? (c : Context) (name : String) : Option Callable :=
  c.scopes.findSome? fun s => (s.find? name).map Binding.toCallable

/-- The element that directives work on: the one entered last, or the root of the
document. -/
def element? (c : Context) : Option NodeId := c.cursor.or (c.document.map (·.root))

/-- The number of frames. -/
def depth (c : Context) : Nat := c.frames.length

/-- The context with a name bound in the innermost scope. -/
def bind (c : Context) (name : String) (b : Binding) : Except Fault Context :=
  if (c.innermost.find? name).isSome then .error (.duplicateBinding name)
  else
    match c.frames with
    | frame :: rest => .ok { c with frames := ((name, b) :: frame) :: rest }
    | [] => .ok { c with globals := (name, b) :: c.globals }

/-- The context with one more diagnostic. -/
def diagnose (c : Context) (d : Diagnostic) : Context :=
  { c with diagnostics := c.diagnostics ++ [d] }

/-- How many presets are declared in a scope, those inside others included. -/
def presetsOfScope : Scope → Nat
  | [] => 0
  | (_, .callable (.preset p)) :: s => Script.presetsOf p.body + 1 + presetsOfScope s
  | _ :: s => presetsOfScope s

/-- How many presets are declared in the scopes, those inside others included. -/
def presets (c : Context) : Nat := presetsOfScope c.scopes.flatten

/-! ## Entering and leaving -/

/-- The context with a new frame. -/
def pushFrame (c : Context) : Context := { c with frames := [] :: c.frames }

/-- The context without its innermost frame. -/
def popFrame (c : Context) : Context := { c with frames := c.frames.tail }

/-- The context with an element entered. -/
def enterElement (c : Context) (id : NodeId) : Context :=
  { c.pushFrame with cursor := some id }

/-- The context with an element left again that was entered from `before`. -/
def leaveElement (before c : Context) : Context :=
  { c.popFrame with cursor := before.cursor }

/-- The context with a document opened. -/
def enterDocument (c : Context) (d : Document) : Context :=
  { c.pushFrame with document := some d, cursor := none }

/-- The context with a document closed again that was opened from `before`. -/
def leaveDocument (before c : Context) : Context :=
  { c.popFrame with document := before.document, cursor := before.cursor }

/-- The context with no frame but a new one. -/
def isolate (c : Context) : Context := { c with frames := [[]] }

/-- The context with the frames back that `before` had. -/
def leaveIsolation (before c : Context) : Context := { c with frames := before.frames }

/-- The context with a preset running, which sees no frame but a new one. -/
def enterPreset (c : Context) (p : Preset) : Context :=
  { c.isolate with active := c.active ++ [p] }

/-- The context with the innermost preset no longer running, which was entered from
`before`. -/
def leavePreset (before c : Context) : Context :=
  { leaveIsolation before c with active := c.active.dropLast }

/-- The presets that run, from the one with the mark on. -/
def activeFrom (c : Context) (mark : Nat) : List Preset :=
  c.active.dropWhile (·.mark != mark)

end Context

end PatchScript.Run
