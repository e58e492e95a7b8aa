import PatchScript.Proofs.Run.Steps
import PatchScript.Proofs.XPath.Literals
import PatchScript.Run.Eval

/-!
# Reading from the document

A script reads from the open document by calling `get` with a selector.  The mark at the front of a
selector makes it an expression to be evaluated at the top of the document.  Without the mark it is
one to be evaluated at the element that the script is at (`Selects`).

The mark is taken out of the selector wherever it stands.  No token but a literal has it, so an
expression remains the one that it is, but for its literals, which lose their marks
(`get_evaluates_unmarked`).
-/

namespace PatchScript.Run

open Xml (Document NodeId)
open Script (Term)
open Eval

variable {σ : Type} {s t : Session σ} {d : Document} {id : NodeId}
  {selector expression name : String}

/-! ## Selectors -/

/-- A selector asks for the value of an expression at a node of the open document. -/
inductive Selects (c : Context) (d : Document) : (selector : String) → NodeId →
    (expression : String) → Prop where
  | atCursor {e : String} : e.toList.head? ≠ some fromTop → Selects c d e (c.cursor.getD d.root) e
  | atTop (e : String) : Selects c d (String.ofList (fromTop :: e.toList)) Document.top e

/-- A text without the mark. -/
def unmarked : String → String := XPath.without fromTop

theorem fromTop_foreign : XPath.Foreign fromTop where
  slash := by decide
  equal := by decide
  colon := by decide
  namePart := by decide
  nameStart := by decide
  numberPart := by decide
  blank := by decide
  sign := by decide

theorem Selects.unmarked_eq {c : Context} (h : Selects c d selector id expression) :
    unmarked selector = unmarked expression := by
  cases h with
  | atCursor => rfl
  | atTop e =>
    rw [unmarked, XPath.without, XPath.without, String.toList_ofList]
    rfl

theorem Selects.start {c : Context} (hd : c.document = some d)
    (h : Selects c d selector id expression) :
    (if selector.toList.head? = some fromTop then some Document.top else c.element?) = some id := by
  cases h with
  | atCursor hmark =>
    rw [if_neg hmark, Context.element?, hd]
    cases c.cursor <;> rfl
  | atTop e => rw [String.toList_ofList, List.head?_cons, if_pos rfl]

theorem callGet_run (hd : s.context.document = some d)
    (h : Selects s.context d selector id expression) :
    callGet (some selector) s =
      (((XPath.evaluateString d id (unmarked expression)).map some).mapError .xpath, s) := by
  rw [callGet]
  rw [context_bind_run]
  simp only [h.start hd]
  rw [← h.unmarked_eq]
  exact ask_run_some hd

/-! ## Calls -/

variable [DocumentStore σ] {w : Ways σ} {arg : Term Nat}

/-- What a call gives for the value of an expression. -/
def answer (negative : Bool) (value : Except XPath.Error String) : Except Fault (Option String) :=
  (value.map fun text => some (withSign negative text)).mapError .xpath

theorem call_get_run (hname : s.context.func? name = some .get)
    (harg : eval w arg s = (.ok (some selector), t)) (hd : t.context.document = some d)
    (h : Selects t.context d selector id expression) (args : List (Term Nat)) (negative : Bool) :
    eval w (.call name (arg :: args) negative) s =
      (answer negative (XPath.evaluateString d id (unmarked expression)), t) := by
  have called : callName w name (evalFirst w none (arg :: args)) (evalArgs w (arg :: args)) s =
      (((XPath.evaluateString d id (unmarked expression)).map some).mapError .xpath, t) := by
    rw [callName, context_bind_run, hname]
    exact (bind_run_ok harg _).trans (callGet_run hd h)
  rw [eval]
  cases hvalue : XPath.evaluateString d id (unmarked expression) with
  | ok value =>
    rw [hvalue] at called
    exact bind_run_ok called _
  | error e =>
    rw [hvalue] at called
    exact bind_run_error called _

/-- If `get` is called while a document is open, then it gives the value of the expression without
marks, or fails as that does, and changes nothing else.  So it gives the value of the expression
itself if there is no mark in it.  And if the selector is an expression, marks or not, it gives
the value of this expression with its literals unmarked. -/
theorem get_evaluates_unmarked (w : Ways σ) (s : Session σ) {name : String}
    (hname : s.context.func? name = some .get) {arg : Term Nat} {selector : String} {t : Session σ}
    (harg : eval w arg s = (.ok (some selector), t)) {d : Document}
    (hd : t.context.document = some d) {id : NodeId} {expression : String}
    (h : Selects t.context d selector id expression) (args : List (Term Nat)) (negative : Bool) :
    eval w (.call name (arg :: args) negative) s =
        (answer negative (XPath.evaluateString d id (unmarked expression)), t) ∧
      (fromTop ∉ expression.toList → eval w (.call name (arg :: args) negative) s =
        (answer negative (XPath.evaluateString d id expression), t)) ∧
      ∀ x, XPath.read expression = .ok x →
        XPath.evaluateString d id expression =
            (x.eval (.of d id) ⟨.node id, 1, 1⟩).map (·.toText (.of d id)) ∧
          eval w (.call name (arg :: args) negative) s =
            (answer negative (((x.mapLiterals unmarked).eval (.of d id) ⟨.node id, 1, 1⟩).map
              (·.toText (.of d id))), t) := by
  have hcall := call_get_run hname harg hd h args negative
  refine ⟨hcall, fun hmark => ?_, fun x hx => ⟨?_, ?_⟩⟩
  · rw [hcall, unmarked, XPath.without_eq_self hmark]
  · rw [XPath.evaluateString, XPath.evaluate, hx]
    rfl
  · rw [hcall, unmarked, XPath.evaluateString, XPath.evaluate,
      XPath.read_without fromTop_foreign hx]
    rfl

/-- A selector with a mark at the front and another one in a literal. -/
theorem get_evaluates_unmarked_from_top :
    let d : Document := ⟨#[⟨.document, none, [1]⟩, ⟨.element ⟨"r", []⟩, some 0, [2]⟩,
      ⟨.element ⟨"a", [⟨"x", "~"⟩]⟩, some 1, [3]⟩, ⟨.text "hit", some 2, []⟩], 1⟩
    let s : Session MemoryStore := ⟨{ Context.new 7 ["main"] with document := some d }, ⟨[]⟩, []⟩
    let w : Ways MemoryStore := ⟨fun _ => return, fun _ => return⟩
    let arg : Term Nat := .literal (.text "~r/a['~']")
    s.context.func? "get" = some .get ∧ eval w arg s = (.ok (some "~r/a['~']"), s) ∧
      s.context.document = some d ∧ Selects s.context d "~r/a['~']" Document.top "r/a['~']" ∧
      eval w (.call "get" [arg] false) s =
        (answer false (XPath.evaluateString d Document.top "r/a['']"), s) := by
  intro d s w arg
  have hname : s.context.func? "get" = some .get := rfl
  have harg : eval w arg s = (.ok (some "~r/a['~']"), s) := rfl
  have hselects : Selects s.context d "~r/a['~']" Document.top "r/a['~']" := .atTop "r/a['~']"
  have hcall := (get_evaluates_unmarked w s hname harg rfl hselects [] false).1
  have hunmarked : unmarked "r/a['~']" = "r/a['']" := rfl
  exact ⟨hname, harg, rfl, hselects, hunmarked ▸ hcall⟩

/-- A literal that is the mark is no longer equal to an attribute with this value. -/
theorem get_changes_literals :
    let d : Document := ⟨#[⟨.document, none, [1]⟩, ⟨.element ⟨"r", []⟩, some 0, [2]⟩,
      ⟨.element ⟨"a", [⟨"x", "~"⟩]⟩, some 1, [3]⟩, ⟨.text "hit", some 2, []⟩], 1⟩
    let s : Session MemoryStore := ⟨{ Context.new 7 ["main"] with document := some d }, ⟨[]⟩, []⟩
    let w : Ways MemoryStore := ⟨fun _ => return, fun _ => return⟩
    let arg : Term Nat := .literal (.text "a[@x='~']")
    Selects s.context d "a[@x='~']" 1 "a[@x='~']" ∧
      eval w arg s = (.ok (some "a[@x='~']"), s) ∧
      XPath.evaluateString d 1 "a[@x='~']" = .ok "hit" ∧
      (eval w (.call "get" [arg] false) s).1 = .ok (some "") := by
  intro d s w arg
  have hmark : "a[@x='~']".toList.head? ≠ some fromTop := by decide
  exact ⟨.atCursor hmark, rfl, by decide +kernel, by decide +kernel⟩

end PatchScript.Run
