import PatchScript.Run.Host

/-!
# Steps of a run

A step of a run reads and changes a *session*: a context, a store and the calls
the store has got.  A step can fail, and what it changed before it failed stays
changed.

`within` runs a step in a changed context and puts back what was there before,
whether the step fails or not.  All that a directive enters (an element, a
document, a preset, another script) is entered this way.

The context only ever changes by `comeTo`, which tells the store.
-/

namespace PatchScript.Run

open Xml (Document NodeId)

/-- What a run changes. -/
structure Session (σ : Type) where
  /-- The context. -/
  context : Context
  /-- The store. -/
  store : σ
  /-- What the store was asked, the oldest first. -/
  calls : List StoreCall

/-- A step of a run.  It may fail, and gives a session in either case. -/
abbrev Eval (σ : Type) := ExceptT Fault (StateM (Session σ))

variable {σ α : Type} [DocumentStore σ]

/-- The session at another context, of which the store takes note. -/
def Session.comeTo (s : Session σ) (c : Context) : Session σ :=
  { s with context := c, store := DocumentStore.note s.store c }

namespace Eval

/-! ## The context -/

/-- The context. -/
def context : Eval σ Context := do return (← get).context

/-- Changes the context. -/
def modifyContext (f : Context → Context) : Eval σ Unit :=
  modify fun s => s.comeTo (f s.context)

/-- Reports why a directive does nothing. -/
def skip (why : Skipped) : Eval σ Unit := modifyContext (·.diagnose why.diagnostic)

/-- Binds a name in the innermost scope. -/
def bindName (name : String) (b : Binding) : Eval σ Unit := do
  match (← context).bind name b with
  | .ok c => modifyContext fun _ => c
  | .error e => throw e

/-- The element that a directive works on.  If there is none, this is reported. -/
def cursor? (directive : String) : Eval σ (Option NodeId) := do
  match (← context).element? with
  | some id => return some id
  | none =>
    skip (.cursorMissing directive)
    return none

/-! ## The document -/

/-- Runs a question on the open document.  Without a document the answer is
`none`. -/
def ask (question : Document → Except XPath.Error α) (none : α) : Eval σ α := do
  match (← context).document with
  | .none => return none
  | .some d =>
    match question d with
    | .ok answer => return answer
    | .error e => throw (.xpath e)

/-- Changes the open document, if there is one. -/
def change (f : Document → Except Xml.Error (Document × α)) : Eval σ (Option α) := do
  match (← context).document with
  | none => return none
  | some d =>
    match f d with
    | .ok (d, answer) =>
      modifyContext fun c => { c with document := some d }
      return some answer
    | .error e => throw (.xml e)

/-! ## The store -/

/-- The document at a path. -/
def load (path : String) : Eval σ (Option Document) := do
  modify fun s => { s with calls := s.calls ++ [.load path] }
  match DocumentStore.load (← get).store path with
  | .ok d => return d
  | .error e => throw e

/-- Writes a document at a path. -/
def persist (path : String) (d : Document) : Eval σ Unit := do
  modify fun s => { s with calls := s.calls ++ [.persist path] }
  match DocumentStore.persist (← get).store path d with
  | .ok store => modify fun s => { s with store }
  | .error e => throw e

/-! ## Entering and leaving -/

/-- Runs a step in a changed context.  Afterwards `leave` makes the context from
the one before and the one the step left behind. -/
def within (enter : Context → Context) (leave : (before after : Context) → Context)
    (step : Eval σ α) : Eval σ α :=
  fun s =>
    let (result, t) := step (s.comeTo (enter s.context))
    (result, t.comeTo (leave s.context t.context))

/-- Runs a step in a frame of its own. -/
def framed (step : Eval σ α) : Eval σ α :=
  within Context.pushFrame (fun _ => Context.popFrame) step

/-- Runs a step that sees no frame but one of its own. -/
def isolated (step : Eval σ α) : Eval σ α := within Context.isolate Context.leaveIsolation step

/-- Runs a step at an element, in a frame of its own. -/
def atElement (id : NodeId) (step : Eval σ α) : Eval σ α :=
  within (·.enterElement id) Context.leaveElement step

/-- Runs a step on a document, in a frame of its own, and gives the document as the
step left it. -/
def onDocument (d : Document) (step : Eval σ α) : Eval σ (α × Option Document) :=
  within (·.enterDocument d) Context.leaveDocument do
    let answer ← step
    return (answer, (← context).document)

/-- Runs a step as the body of a preset, which may not run already. -/
def inPreset (p : Preset) (step : Eval σ α) : Eval σ α := do
  match (← context).activeFrom p.mark with
  | [] => within (·.enterPreset p) Context.leavePreset step
  | running => throw (.presetRecursion p.name (running.map (·.name) ++ [p.name]))

end Eval

end PatchScript.Run
