import PatchScript.Proofs.Run.Families

/-!
# Properties of steps that the evaluator keeps

A `Congruence` is a relation between steps, on two stores, that holds of the smallest
steps and is kept by every way to put them together.  Such a relation holds between the
steps of a term on the one store and on the other (`Congruence.eval`).

It is the relation of a family that has one step only, so there is nothing that the context
of a step could differ in, and what is done with it may depend on the sentinel too.

A property of steps on one store is a congruence that does not look at the second
step.
-/

namespace PatchScript.Run

open Script (Term)
open Eval

/-- A relation between steps that every way to put them together keeps. -/
structure Congruence (σ τ : Type) [DocumentStore σ] [DocumentStore τ]
    (declared : Preset → Prop) (included : String → Prop) where
  /-- The relation. -/
  related : {α : Type} → Eval σ α → Eval τ α → Prop
  /-- The ways out of terms that are followed. -/
  follows : Ways σ → Ways τ → Prop
  ret {α : Type} (a : α) : related (pure a) (pure a)
  seq {α β : Type} {x : Eval σ α} {y : Eval τ α} {f : α → Eval σ β} {g : α → Eval τ β} :
    related x y → (∀ a, related (f a) (g a)) → related (x >>= f) (y >>= g)
  look {β : Type} {f : Context → Eval σ β} {g : Context → Eval τ β} :
    (∀ c, c.Declares declared → related (f c) (g c)) → related (context >>= f) (context >>= g)
  fault {α : Type} {e : Fault} : Raised e → related (α := α) (throw e) (throw e)
  binds (name : String) {b : Binding} : Made declared b →
    related (bindName name b) (bindName name b)
  skips (why : Skipped) : related (skip why) (skip why)
  asks {α : Type} {question : Xml.Document → Except XPath.Error α} (none : α) :
    Question question → related (ask question none) (ask question none)
  changes {α : Type} {f : Xml.Document → Except Xml.Error (Xml.Document × α)} :
    Edit f → related (change f) (change f)
  elements {α : Type} (id : Xml.NodeId) {x : Eval σ α} {y : Eval τ α} :
    related x y → related (atElement id x) (atElement id y)
  files {w : Ways σ} {w' : Ways τ} {path : Term Nat} {body : List (Term Nat)} : follows w w' →
    related (eval w path) (eval w' path) → related (evalBody w body) (evalBody w' body) →
    related (eval w (.file path body)) (eval w' (.file path body))

namespace Congruence

variable {σ τ : Type} [DocumentStore σ] [DocumentStore τ] {declared : Preset → Prop}
  {included : String → Prop} (R : Congruence σ τ declared included)

theorem gates (preset : String) (values : List (Option String)) {x : Eval σ Unit}
    {y : Eval τ Unit} (h : R.related x y) :
    R.related (gated preset values x) (gated preset values y) := by
  refine R.look fun c _ => ?_
  dsimp only
  split
  · exact R.seq (R.fault (.presetUseRequired _)) fun _ => h
  · exact h

theorem callGet (selector : Option String) : R.related (callGet selector) (callGet selector) := by
  cases selector with
  | none => exact R.ret _
  | some s =>
    refine R.look fun c _ => ?_
    dsimp only
    split
    · exact R.ret _
    · exact R.asks _ (.text _ _)

/-- The relation as one between families that have one step only. -/
def family : FamilyCongruence Unit σ τ declared included where
  related x y := R.related (x ()) (y ())
  follows w w' := R.follows (w ()) (w' ())
  seen _ c := c
  looks _ c := .refl c
  ret := R.ret
  seq := R.seq
  look := R.look
  fault := R.fault
  binds := R.binds
  skips := R.skips
  asks := R.asks
  changes := R.changes
  elements id _ _ h := R.elements id h
  files := R.files
  gates preset values _ _ h := R.gates preset values h
  opens preset values c _ _ h := R.gates preset (values ++ [some c.sentinel]) h
  selects c := R.seq (R.callGet (some c.sentinel)) fun _ => R.ret _

/-- Two ways out of terms are related if they lead to related steps. -/
structure Along (w : Ways σ) (w' : Ways τ) : Prop where
  /-- They are followed. -/
  follows : R.follows w w'
  /-- The way to the body of a declared preset. -/
  preset (p : Preset) (values : List (Option String)) : declared p →
    R.related
      (inPreset p do bindParams p.name 0 p.params values; w.body p.body)
      (inPreset p do bindParams p.name 0 p.params values; w'.body p.body)
  /-- The way to another script. -/
  script (name : String) : included name → R.related (w.script name) (w'.script name)

theorem bindParams (preset : String) (index : Nat) (params : List String)
    (values : List (Option String)) :
    R.related (bindParams preset index params values) (bindParams preset index params values) :=
  R.family.bindParams preset index params values

theorem forM {α : Type} {f : α → Eval σ Unit} {g : α → Eval τ Unit} (as : List α)
    (h : ∀ a, R.related (f a) (g a)) : R.related (as.forM f) (as.forM g) :=
  R.family.forM (f := fun _ => f) (g := fun _ => g) as h

variable {R} {w : Ways σ} {w' : Ways τ}

theorem Along.family (hw : R.Along w w') : R.family.Along (fun _ => w) fun _ => w' :=
  ⟨hw.follows, hw.preset, hw.script⟩

theorem callPreset (hw : R.Along w w') {p : Preset} (hp : declared p)
    (values : List (Option String)) :
    R.related (callPreset w p values) (callPreset w' p values) :=
  FamilyCongruence.callPreset hw.family hp values

theorem callName (hw : R.Along w w') (name : String) {first : Eval σ (Option String)}
    {first' : Eval τ (Option String)} {all : Eval σ (List (Option String))}
    {all' : Eval τ (List (Option String))} (hfirst : R.related first first')
    (hall : R.related all all') :
    R.related (callName w name first all) (callName w' name first' all') := by
  have first : R.family.related (fun _ => first) fun _ => first' := hfirst
  have all : R.family.related (fun _ => all) fun _ => all' := hall
  exact FamilyCongruence.callName hw.family name first all

/-- The steps of a term on two stores are related, if the ways out of it are. -/
theorem eval (hw : R.Along w w') (t : Term Nat) (h : Covered declared included t) :
    R.related (eval w t) (eval w' t) :=
  FamilyCongruence.eval hw.family t h

theorem evalBody (hw : R.Along w w') (ts : List (Term Nat))
    (h : CoveredAll declared included ts) : R.related (evalBody w ts) (evalBody w' ts) :=
  FamilyCongruence.evalBody hw.family ts h

theorem evalFirst (hw : R.Along w w') (none' : Option String) (ts : List (Term Nat))
    (h : CoveredAll declared included ts) :
    R.related (evalFirst w none' ts) (evalFirst w' none' ts) :=
  FamilyCongruence.evalFirst hw.family none' ts h

theorem evalArgs (hw : R.Along w w') (ts : List (Term Nat))
    (h : CoveredAll declared included ts) : R.related (evalArgs w ts) (evalArgs w' ts) :=
  FamilyCongruence.evalArgs hw.family ts h

end Congruence

end PatchScript.Run
