import PatchScript.Proofs.Run.Congruence
import PatchScript.Proofs.Run.Steps

/-!
# Invariants of steps

Most of what is known of the evaluator has one shape: if a session has some property,
then whatever a step does, the session it leaves has the property too and has come from
the one before in a certain way, and only certain faults occur.  An `Invariance` says
what the property, the way and the faults are, and that they fit the basic steps.  A
step that keeps to it is *steady*; the steps of terms are, if the ways out of terms
are (`Invariance.eval`).
-/

namespace PatchScript.Run

open Script (Term)
open Eval

/-- A property of sessions, a way that leads from a session to a later one, and a set of
faults, which fit the basic steps. -/
structure Invariance (σ : Type) [DocumentStore σ] (declared : Preset → Prop) where
  /-- What is known of every session. -/
  holds : Session σ → Prop
  /-- How a session may have come from an earlier one. -/
  leads : Session σ → Session σ → Prop
  /-- The faults that may occur. -/
  admits : Fault → Prop
  refl (s : Session σ) : leads s s
  trans {s t u : Session σ} : leads s t → leads t u → leads s u
  declares {s : Session σ} : holds s → s.context.Declares declared
  raises {e : Fault} : Raised e → admits e
  refuses {s : Session σ} {name : String} {b : Binding} {e : Fault} :
    s.context.bind name b = .error e → admits e
  recursion (name : String) (chain : List String) : admits (.presetRecursion name chain)
  answers {α : Type} {question : Xml.Document → Except XPath.Error α} {d : Xml.Document}
    {e : XPath.Error} : Question question → question d = .error e → admits (.xpath e)
  rejects {α : Type} {f : Xml.Document → Except Xml.Error (Xml.Document × α)} {d : Xml.Document}
    {e : Xml.Error} : Edit f → f d = .error e → admits (.xml e)
  unloaded {store : σ} {path : String} {e : Fault} :
    DocumentStore.load store path = .error e → admits e
  unwritten {store : σ} {path : String} {d : Xml.Document} {e : Fault} :
    DocumentStore.persist store path d = .error e → admits e
  binds {s : Session σ} {name : String} {b : Binding} {c : Context} : holds s →
    s.context.bind name b = .ok c → Made declared b →
    holds (s.comeTo c) ∧ leads s (s.comeTo c)
  skips {s : Session σ} (why : Skipped) : holds s →
    holds (s.comeTo (s.context.diagnose why.diagnostic)) ∧
      leads s (s.comeTo (s.context.diagnose why.diagnostic))
  edits {α : Type} {s : Session σ} {f : Xml.Document → Except Xml.Error (Xml.Document × α)}
    {d d' : Xml.Document} {a : α} : holds s → Edit f → s.context.document = some d →
    f d = .ok (d', a) →
    holds (s.comeTo { s.context with document := some d' }) ∧
      leads s (s.comeTo { s.context with document := some d' })
  asked {s : Session σ} (call : StoreCall) : holds s →
    holds { s with calls := s.calls ++ [call] } ∧ leads s { s with calls := s.calls ++ [call] }
  written {s : Session σ} {path : String} {d : Xml.Document} {store : σ} : holds s →
    DocumentStore.persist s.store path d = .ok store →
    holds { s with store } ∧ leads s { s with store }
  entersElement {s : Session σ} (id : Xml.NodeId) : holds s →
    holds (s.comeTo (s.context.enterElement id))
  leavesElement {s t : Session σ} {id : Xml.NodeId} : holds s → holds t →
    leads (s.comeTo (s.context.enterElement id)) t →
    holds (t.comeTo (s.context.leaveElement t.context)) ∧
      leads s (t.comeTo (s.context.leaveElement t.context))
  entersDocument {s : Session σ} (d : Xml.Document) : holds s →
    holds (s.comeTo (s.context.enterDocument d))
  leavesDocument {s t : Session σ} {d : Xml.Document} : holds s → holds t →
    leads (s.comeTo (s.context.enterDocument d)) t →
    holds (t.comeTo (s.context.leaveDocument t.context)) ∧
      leads s (t.comeTo (s.context.leaveDocument t.context))

namespace Invariance

variable {σ α β : Type} [DocumentStore σ] {declared : Preset → Prop}

/-- A step that keeps to an invariance, in a session that has its property. -/
structure SteadyAt (I : Invariance σ declared) (x : Eval σ α) (s : Session σ) : Prop where
  /-- The property is kept. -/
  holds : I.holds (x s).2
  /-- The session left has come from the one before. -/
  leads : I.leads s (x s).2
  /-- If there is a fault, it is one that may occur. -/
  admits : ∀ e, (x s).1 = .error e → I.admits e

/-- A step that keeps to an invariance. -/
def Steady (I : Invariance σ declared) (x : Eval σ α) : Prop :=
  ∀ s, I.holds s → I.SteadyAt x s

/-- What a step does in a session is enough to tell whether it is steady there. -/
theorem SteadyAt.of_run {I : Invariance σ declared} {x : Eval σ α} {s t : Session σ}
    {r : Except Fault α} (h : x s = (r, t)) (ht : I.holds t ∧ I.leads s t)
    (hr : ∀ e, r = .error e → I.admits e) : I.SteadyAt x s := by
  refine ⟨?_, ?_, ?_⟩
  · rw [h]
    exact ht.1
  · rw [h]
    exact ht.2
  · rw [h]
    exact hr

/-- Steps that do the same in a session are steady there alike. -/
theorem SteadyAt.congr {I : Invariance σ declared} {x y : Eval σ α} {s : Session σ}
    (hy : I.SteadyAt y s) (h : x s = y s) : I.SteadyAt x s :=
  .of_run h ⟨hy.holds, hy.leads⟩ hy.admits

variable (I : Invariance σ declared)

theorem ret (a : α) : I.Steady (pure a) := fun s hs =>
  .of_run (pure_run a s) ⟨hs, I.refl s⟩ fun e he => by cases he

theorem fault {e : Fault} (he : I.admits e) : I.Steady (α := α) (throw e) := fun s hs =>
  .of_run (throw_run e s) ⟨hs, I.refl s⟩ fun e' he' => by cases he'; exact he

variable {I}

theorem SteadyAt.seq {x : Eval σ α} {f : α → Eval σ β} {s : Session σ} (hx : I.SteadyAt x s)
    (hf : ∀ a t, x s = (.ok a, t) → I.holds t → I.SteadyAt (f a) t) :
    I.SteadyAt (x >>= f) s := by
  cases hr : x s with
  | mk r t =>
    have ht : I.holds t ∧ I.leads s t := by
      have h1 := hx.holds
      have h2 := hx.leads
      rw [hr] at h1 h2
      exact ⟨h1, h2⟩
    cases r with
    | ok a =>
      have hfa := hf a t hr ht.1
      refine .of_run (bind_run_ok hr f) ⟨hfa.holds, I.trans ht.2 hfa.leads⟩ hfa.admits
    | error e =>
      refine .of_run (bind_run_error hr f) ht fun e' he' => ?_
      cases he'
      exact hx.admits e (by rw [hr])

theorem Steady.seq {x : Eval σ α} {f : α → Eval σ β} (hx : I.Steady x)
    (hf : ∀ a, I.Steady (f a)) : I.Steady (x >>= f) :=
  fun s hs => (hx s hs).seq fun a t _ ht => hf a t ht

theorem Steady.look {f : Context → Eval σ β}
    (hf : ∀ c, c.Declares declared → I.Steady (f c)) : I.Steady (context >>= f) :=
  fun s hs => (hf s.context (I.declares hs) s hs).congr (context_bind_run f s)

variable (I)

theorem bindName (name : String) {b : Binding} (hb : Made declared b) :
    I.Steady (bindName name b) := by
  intro s hs
  cases h : s.context.bind name b with
  | ok c => exact .of_run (bindName_run_ok h) (I.binds hs h hb) fun e he => by cases he
  | error e =>
    refine .of_run (bindName_run_error h) ⟨hs, I.refl s⟩ fun e' he' => ?_
    cases he'
    exact I.refuses h

theorem ask {question : Xml.Document → Except XPath.Error α} (none' : α)
    (hq : Question question) : I.Steady (ask question none') := by
  intro s hs
  cases hd : s.context.document with
  | none => exact .of_run (ask_run_none hd) ⟨hs, I.refl s⟩ fun e he => by cases he
  | some d =>
    refine .of_run (ask_run_some hd) ⟨hs, I.refl s⟩ fun e he => ?_
    cases hqd : question d with
    | ok answer => rw [hqd] at he; cases he
    | error e' =>
      rw [hqd] at he
      cases he
      exact I.answers hq hqd

theorem change {f : Xml.Document → Except Xml.Error (Xml.Document × α)} (hf : Edit f) :
    I.Steady (change f) := by
  intro s hs
  cases hd : s.context.document with
  | none => exact .of_run (change_run_none hd) ⟨hs, I.refl s⟩ fun e he => by cases he
  | some d =>
    cases hfd : f d with
    | ok r =>
      obtain ⟨d', a⟩ := r
      exact .of_run (change_run_ok hd hfd) (I.edits hs hf hd hfd) fun e he => by cases he
    | error e =>
      refine .of_run (change_run_error hd hfd) ⟨hs, I.refl s⟩ fun e' he' => ?_
      cases he'
      exact I.rejects hf hfd

theorem load (path : String) : I.Steady (load path) := fun s hs =>
  .of_run (load_run path s) (I.asked _ hs) fun _ he => I.unloaded he

theorem persist (path : String) (d : Xml.Document) : I.Steady (persist path d) := by
  intro s hs
  have hasked := I.asked (.persist path) hs
  cases h : DocumentStore.persist s.store path d with
  | ok store =>
    have hwritten := I.written hasked.1 h
    refine .of_run (persist_run_ok h) ⟨hwritten.1, I.trans hasked.2 hwritten.2⟩ fun e he => ?_
    cases he
  | error e =>
    refine .of_run (persist_run_error h) hasked fun e' he' => ?_
    cases he'
    exact I.unwritten h

variable {I}

theorem Steady.atElement (id : Xml.NodeId) {x : Eval σ α} (hx : I.Steady x) :
    I.Steady (atElement id x) := by
  intro s hs
  have hin := hx _ (I.entersElement id hs)
  exact .of_run (within_run _ _ x s) (I.leavesElement hs hin.holds hin.leads) hin.admits

theorem Steady.onDocument (d : Xml.Document) {x : Eval σ α} (hx : I.Steady x) :
    I.Steady (onDocument d x) := by
  intro s hs
  have handed : I.Steady (do let answer ← x; return (answer, (← context).document)) :=
    hx.seq fun a => .look fun c _ => I.ret _
  have hin := handed _ (I.entersDocument d hs)
  exact .of_run (within_run _ _ _ s) (I.leavesDocument hs hin.holds hin.leads) hin.admits

variable (I)

theorem skip (why : Skipped) : I.Steady (skip why) := fun s hs =>
  .of_run (skip_run why s) (I.skips why hs) fun e he => by cases he

variable {I}

theorem Steady.openFile (path : String) {x : Eval σ Unit} (hx : I.Steady x) :
    I.Steady (openFile path x) := by
  refine (I.load path).seq fun d => ?_
  cases d with
  | none => exact I.skip _
  | some d =>
    refine (hx.onDocument d).seq fun r => ?_
    obtain ⟨-, after⟩ := r
    cases after with
    | some d => exact I.persist path d
    | none => exact I.ret _

theorem Steady.file {w : Ways σ} {path : Term Nat} {body : List (Term Nat)}
    (hpath : I.Steady (eval w path)) (hbody : I.Steady (evalBody w body)) :
    I.Steady (eval w (.file path body)) := by
  rw [eval]
  refine .look fun c _ => ?_
  dsimp only
  split
  · exact (I.skip _).seq fun _ => I.ret _
  · exact hpath.seq fun at' => (hbody.openFile _).seq fun _ => I.ret _

variable (I)

/-- Being steady is a property that every way to put steps together keeps. -/
def congruence : Congruence σ σ declared fun _ => True where
  related x _ := I.Steady x
  follows _ _ := True
  ret := I.ret
  seq hx hf := hx.seq hf
  look hf := .look hf
  fault he := I.fault (I.raises he)
  binds name _ hb := I.bindName name hb
  skips := I.skip
  asks none' hq := I.ask none' hq
  changes hf := I.change hf
  elements id _ _ hx := hx.atElement id
  files _ hpath hbody := hpath.file hbody

/-- Being steady, where only the ways to some scripts are followed. -/
def congruenceOn (included : String → Prop) : Congruence σ σ declared included :=
  { I.congruence with }

variable {I}

theorem Steady.forM {f : α → Eval σ Unit} (as : List α) (h : ∀ a, I.Steady (f a)) :
    I.Steady (as.forM f) :=
  I.congruence.forM (g := f) as h

/-- Ways out of terms that are steady. -/
structure SteadyWays (I : Invariance σ declared) (w : Ways σ) : Prop where
  /-- The way to the body of a declared preset. -/
  preset (p : Preset) (values : List (Option String)) : declared p →
    I.Steady (inPreset p do bindParams p.name 0 p.params values; w.body p.body)
  /-- The way to another script. -/
  script (name : String) : I.Steady (w.script name)

theorem SteadyWays.along {w : Ways σ} (hw : I.SteadyWays w) : I.congruence.Along w w :=
  ⟨trivial, hw.preset, fun name _ => hw.script name⟩

/-- The steps of a term are steady, if the ways out of it are. -/
theorem SteadyWays.eval {w : Ways σ} (hw : I.SteadyWays w) (t : Term Nat)
    (h : ∀ p ∈ declarations t, declared p) : I.Steady (eval w t) :=
  Congruence.eval hw.along t (.of_forall t h fun _ _ => trivial)

theorem SteadyWays.evalBody {w : Ways σ} (hw : I.SteadyWays w) (ts : List (Term Nat))
    (h : ∀ p ∈ declarationsOf ts, declared p) : I.Steady (evalBody w ts) :=
  Congruence.evalBody hw.along ts (.of_forall ts h fun _ _ => trivial)

theorem SteadyWays.evalArgs {w : Ways σ} (hw : I.SteadyWays w) (ts : List (Term Nat))
    (h : ∀ p ∈ declarationsOf ts, declared p) : I.Steady (evalArgs w ts) :=
  Congruence.evalArgs hw.along ts (.of_forall ts h fun _ _ => trivial)

theorem SteadyWays.callName {w : Ways σ} (hw : I.SteadyWays w) (name : String)
    (args : List (Term Nat)) (h : ∀ p ∈ declarationsOf args, declared p) :
    I.Steady (callName w name (evalFirst w none args) (Run.evalArgs w args)) :=
  Congruence.callName hw.along name
    (Congruence.evalFirst hw.along none args (.of_forall args h fun _ _ => trivial))
    (Congruence.evalArgs hw.along args (.of_forall args h fun _ _ => trivial))

theorem bindParams (preset : String) (index : Nat) (params : List String)
    (values : List (Option String)) : I.Steady (bindParams preset index params values) :=
  I.congruence.bindParams preset index params values

end Invariance

end PatchScript.Run
