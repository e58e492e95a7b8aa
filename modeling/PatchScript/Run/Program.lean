import PatchScript.Run.Eval

/-!
# Programs

A program is a script together with the scripts that it includes.  An included
script runs in a context of its own: it sees no name and no document of the
script that includes it, and shares nothing with it but the store.  What it
diagnosed is told after what was diagnosed before.

`runAt` counts down a number of levels, one per script that is entered.  A script
cannot include itself, directly or through others, and every script that is
entered has an entry in the sources.  So there are never more levels than
sources and one, for a text that is run without a name.
-/

namespace PatchScript.Run

open Script (Term)
open Eval

variable {σ : Type} [DocumentStore σ]

/-! ## Terms in a context -/

/-- Numbers the preset declarations of terms, from the first number that the context
has not given away. -/
def numbered (body : List (Term Unit)) : Eval σ (List (Term Nat)) := do
  let (body, next) := Script.numberAll (← context).nextMark body
  modifyContext fun c => { c with nextMark := next }
  return body

/-- The ways out of terms that are run in the context. -/
def waysOut (script : String → Eval σ Unit) (body : List (Term Nat)) :
    Eval σ (Ways σ) := do
  let presets := Script.presetsOf body + (← context).presets
  return ⟨bodyAt script (presets + 1), script⟩

/-- Runs terms in the context. -/
def runTerms (script : String → Eval σ Unit) (body : List (Term Unit)) :
    Eval σ Unit := do
  let body ← numbered body
  evalBody (← waysOut script body) body

/-! ## Scripts -/

/-- Runs the script of a name from within another.  `run` takes the names of the
scripts that run and the text of the last of them. -/
def includeWith (host : Host) (run : List String → String → Eval σ (List Diagnostic))
    (name : String) : Eval σ Unit := do
  let chain := (← context).chain
  if name ∈ chain then throw (.includeCycle (chain ++ [name]))
  match host.sources.resolve name with
  | .error e => throw e
  | .ok source =>
    let diagnostics ← run (chain ++ [name]) source
    diagnostics.forM fun d => modifyContext (·.diagnose d)

/-- Runs a source in a new context and gives what is diagnosed. -/
def runAt (host : Host) :
    (levels : Nat) → (chain : List String) → (source : String) → Eval σ (List Diagnostic)
  | 0, _, _ => throw .levels
  | n + 1, chain, source =>
    match Script.read source with
    | .error e => throw (.source e)
    | .ok body => within (fun _ => .new host.seed chain) (fun before _ => before) do
      runTerms (includeWith host (runAt host n)) body
      return (← context).diagnostics

/-- How many scripts can run inside each other. -/
def Host.levels (host : Host) : Nat := host.sources.length + 1

/-- Runs the script of a name from within another. -/
def visit (host : Host) : String → Eval σ Unit :=
  includeWith host (runAt host host.levels)

/-! ## Whole runs -/

/-- What a run leaves behind. -/
structure Outcome (σ : Type) where
  /-- What was diagnosed, or why the run ended. -/
  result : Except Fault (List Diagnostic)
  /-- The store. -/
  store : σ
  /-- What the store was asked, the oldest first. -/
  calls : List StoreCall

/-- A session in which nothing has happened. -/
def Session.new (host : Host) (store : σ) : Session σ := ⟨.new host.seed [], store, []⟩

/-- Does a whole run on a store. -/
def Outcome.of (host : Host) (store : σ) (run : Eval σ (List Diagnostic)) : Outcome σ :=
  let (result, s) := run (.new host store)
  ⟨result, s.store, s.calls⟩

/-- Runs a source that has no name. -/
def runSource (host : Host) (store : σ) (source : String) : Outcome σ :=
  .of host store (runAt host host.levels [] source)

/-- Runs the script of a name. -/
def runScript (host : Host) (store : σ) (name : String) : Outcome σ :=
  .of host store <|
    match host.sources.resolve name with
    | .error e => throw e
    | .ok source => runAt host host.levels [name] source

/-! ## Single steps -/

/-- Runs a source in the context. -/
def runHere (host : Host) (source : String) : Eval σ Unit := do
  match Script.read source with
  | .error e => throw (.source e)
  | .ok body => runTerms (visit host) body

/-- Runs one term in the context. -/
def evalHere (host : Host) (t : Term Unit) : Eval σ (Option String) := do
  let body ← numbered [t]
  let values ← evalArgs (← waysOut (visit host) body) body
  return values.head?.join

/-- Calls what a name is bound to with terms as arguments. -/
def callHere (host : Host) (name : String) (args : List (Term Unit)) :
    Eval σ (Option String) := do
  let args ← numbered args
  let w ← waysOut (visit host) args
  callName w name (evalFirst w none args) (evalArgs w args)

end PatchScript.Run
