import PatchScript.Proofs.Run.Steps
import PatchScript.Proofs.Xml.Growth
import PatchScript.Run.Eval

/-!
# Patches

A patch is a directive that says how the document is to be and not what is to be done to it: `set`
of an attribute, and `add` and `change_add` of the element with a number among those of its name.
All that it names is written down, so what it does depends on the document and on the element that
it works on, and on nothing else that there is in a session.  Here this is said of each patch in
turn.
-/

namespace PatchScript.Run

open Xml (Document NodeId Setting isValidName)
open Script (Term Literal)
open Eval

/-! ## What is written down -/

/-- A literal without placeholders. -/
structure PlainLiteral where
  /-- The literal. -/
  literal : Literal
  /-- A text has no placeholder in it. -/
  plain {s : String} : literal = .text s → placeholders s = []

/-- The text that is written down. -/
def PlainLiteral.text (l : PlainLiteral) : String := l.literal.render

/-- The literal as a term. -/
def PlainLiteral.term (l : PlainLiteral) : Term Nat := .literal l.literal

/-- The integer that a literal denotes where a position is wanted. -/
def PlainLiteral.integer? (l : PlainLiteral) : Option Int :=
  (integerOfTerm? l.term).or (integerOf? l.text)

/-- A position that is written down. -/
structure Position where
  /-- The literal. -/
  literal : PlainLiteral
  /-- The number that it denotes. -/
  number : Nat
  /-- Numbers are counted from 1. -/
  positive : 1 ≤ number
  /-- The number is what the literal is read as. -/
  reads : literal.integer? = some (number : Int)

/-- A directive that can be replayed. -/
inductive Patch where
  /-- Sets an attribute. -/
  | set (name value : PlainLiteral)
  /-- Appends the element with that number among those of its name, if it is missing, and works on
  it. -/
  | add (tag : PlainLiteral) (position : Position) (body : List Patch)
  /-- Works on the element with that number among those of its name, which is appended if it is
  missing.  Without a position this is the first one. -/
  | changeOrAdd (tag : PlainLiteral) (position : Option Position) (body : List Patch)

/-- A place among the children of an element. -/
structure Target where
  /-- The name of the child. -/
  tag : String
  /-- Its number among the children of this name. -/
  number : Nat
  /-- Numbers are counted from 1. -/
  positive : 1 ≤ number

namespace Patch

mutual

/-- The directive. -/
def term : Patch → Term Nat
  | .set name value => .set name.term value.term
  | .add tag position body => .addAt tag.term position.literal.term (terms body)
  | .changeOrAdd tag none body => .changeOrAdd tag.term (terms body)
  | .changeOrAdd tag (some position) body =>
    .changeOrAddAt tag.term position.literal.term (terms body)

/-- The directives. -/
def terms : List Patch → List (Term Nat)
  | [] => []
  | p :: ps => p.term :: terms ps

end

/-- The place that a patch is about, unless it is about an attribute. -/
def target? : Patch → Option Target
  | .set _ _ => none
  | .add tag position _ => some ⟨tag.text, position.number, position.positive⟩
  | .changeOrAdd tag none _ => some ⟨tag.text, 1, Nat.le_refl 1⟩
  | .changeOrAdd tag (some position) _ => some ⟨tag.text, position.number, position.positive⟩

/-- What is done at that place. -/
def body : Patch → List Patch
  | .set _ _ => []
  | .add _ _ body | .changeOrAdd _ _ body => body

end Patch

/-- The element at a place. -/
def Target.find? (t : Target) (d : Document) (id : NodeId) : Option NodeId :=
  d.nthChild? id t.tag t.number

/-- The document with the element at a place appended. -/
def Target.make (t : Target) (d : Document) (id : NodeId) : Document :=
  d.push id (.element ⟨t.tag, []⟩)

/-- Is the place filled, or the next one to be filled? -/
def Target.HasPlace (t : Target) (d : Document) (id : NodeId) : Prop :=
  d.HasPlace id t.tag t.number

variable {σ α β : Type}

/-! ## Values -/

theorem PlainLiteral.evalLiteral_run (l : PlainLiteral) (s : Session σ) :
    evalLiteral l.literal s = (.ok l.text, s) := by
  obtain ⟨literal, plain⟩ := l
  cases literal with
  | text t =>
    have hfill : fillPlaceholders s.context.const? t = .ok t := by
      rw [fillPlaceholders, plain rfl]
      rfl
    rw [evalLiteral]
    rw [context_bind_run, hfill]
    rfl
  | number | integer | boolean => rfl

theorem nthChild?_run {s : Session σ} {d : Document} (hd : s.context.document = some d)
    (id : NodeId) (tag : String) (n : Int) :
    nthChild? id tag n s = (.ok (d.nthChild? id tag n.toNat), s) := by
  rw [nthChild?]
  split
  · rename_i hn
    rw [Int.toNat_of_nonpos (by omega)]
    rfl
  · rw [context_bind_run, hd]
    rfl

variable [DocumentStore σ] {s : Session σ} {d d' : Document} {id : NodeId}

theorem cursor?_run (directive : String) (h : s.context.element? = some id) :
    cursor? directive s = (.ok (some id), s) := by
  rw [cursor?]
  rw [context_bind_run, h]
  rfl

theorem PlainLiteral.eval_run (l : PlainLiteral) (w : Ways σ) (s : Session σ) :
    eval w l.term s = (.ok (some l.text), s) := by
  rw [PlainLiteral.term]
  rw [eval]
  exact bind_run_ok (l.evalLiteral_run s) _

/-- A position is found out to be its number, and then something is done with it. -/
theorem Position.run (p : Position) (w : Ways σ) (s : Session σ) (f : Int → Eval σ α) :
    (match integerOfTerm? p.literal.term with
      | some n => do
        let n ← pure n
        f n
      | none => do
        let text ← eval w p.literal.term
        let n ← positionOf (text.getD "")
        f n) s = f p.number s := by
  have hreads := p.reads
  rw [PlainLiteral.integer?] at hreads
  cases hint : integerOfTerm? p.literal.term with
  | some n =>
    rw [hint] at hreads
    cases hreads
    rfl
  | none =>
    rw [hint] at hreads
    dsimp only
    rw [bind_run_ok (p.literal.eval_run w s)]
    rw [Option.getD_some, positionOf, show integerOf? p.literal.text = _ from hreads]
    rfl

/-! ## What is done at a place -/

/-- Appends the element at a place and runs a step at it. -/
def makeAt (t : Target) (id : NodeId) (step : Eval σ Unit) : Eval σ Unit := do
  atElement? (← appendElement id t.tag) step

theorem makeAt_run (t : Target) (hd : s.context.document = some d) (id : NodeId)
    (step : Eval σ Unit) :
    makeAt t id step s =
      if isValidName t.tag then
        atElement d.nodes.size step (s.comeTo { s.context with document := some (t.make d id) })
      else (.error (.xml (.invalidName t.tag)), s) := by
  rw [makeAt, appendElement]
  by_cases hvalid : isValidName t.tag
  · have happend : d.appendElement id t.tag = .ok (t.make d id, d.nodes.size) := by
      rw [Document.appendElement, Xml.checkName, if_pos hvalid]
      rfl
    rw [if_pos hvalid]
    exact bind_run_ok (change_run_ok hd happend) _
  · have happend : d.appendElement id t.tag = .error (.invalidName t.tag) := by
      rw [Document.appendElement, Xml.checkName, if_neg hvalid]
      rfl
    rw [if_neg hvalid]
    exact bind_run_error (change_run_error hd happend) _

theorem Target.HasPlace.not_missing {t : Target} (h : t.HasPlace d id) :
    ¬(1 < (t.number : Int) ∧ (d.nthChild? id t.tag ((t.number : Int) - 1).toNat).isNone) := by
  rintro ⟨hn, hnone⟩
  have hsome := h (by omega)
  rw [show ((t.number : Int) - 1).toNat = t.number - 1 by omega] at hnone
  rw [Option.isNone_iff_eq_none.mp hnone] at hsome
  cases hsome

theorem addAt_found {t : Target} (hd : s.context.document = some d)
    (hfound : (t.find? d id).isSome) (step : Eval σ Unit) :
    addAt id t.tag t.number step s = (.ok (), s) := by
  rw [addAt]
  rw [bind_run_ok (nthChild?_run hd id t.tag _), bind_run_ok (nthChild?_run hd id t.tag _)]
  rw [if_pos (.inr (.inr hfound))]
  rfl

theorem addAt_made {t : Target} (hd : s.context.document = some d) (hplace : t.HasPlace d id)
    (hnone : t.find? d id = none) (step : Eval σ Unit) :
    addAt id t.tag t.number step s = makeAt t id step s := by
  have hpositive := t.positive
  have hthere : d.nthChild? id t.tag (t.number : Int).toNat = none := hnone
  rw [addAt]
  rw [bind_run_ok (nthChild?_run hd id t.tag _), bind_run_ok (nthChild?_run hd id t.tag _)]
  rw [if_neg]
  · rfl
  · rintro (hn | hmissing | hsome)
    · omega
    · exact hplace.not_missing hmissing
    · rw [hthere] at hsome
      cases hsome

theorem changeOrAddAt_run {t : Target} (hd : s.context.document = some d)
    (hplace : t.HasPlace d id) (step : Eval σ Unit) :
    changeOrAddAt id t.tag t.number step s =
      match t.find? d id with
      | some c => atElement c step s
      | none => makeAt t id step s := by
  have hpositive := t.positive
  rw [changeOrAddAt]
  rw [if_neg (by omega)]
  dsimp only
  rw [bind_run_ok (nthChild?_run hd id t.tag _), if_neg hplace.not_missing]
  rw [bind_run_ok (nthChild?_run hd id t.tag _)]
  show _ = match d.nthChild? id t.tag (t.number : Int).toNat with
    | some c => _
    | none => _
  cases d.nthChild? id t.tag (t.number : Int).toNat with
  | some c => rfl
  | none => rfl

/-! ## Directives -/

theorem Patch.set_run (w : Ways σ) (name value : PlainLiteral) (hd : s.context.document = some d)
    (hid : s.context.element? = some id) :
    eval w (Patch.set name value).term s =
      if isValidName name.text then
        (.ok none, s.comeTo { s.context with document := some (d.set ⟨id, name.text, value.text⟩) })
      else (.error (.xml (.invalidName name.text)), s) := by
  rw [Patch.term]
  rw [eval]
  rw [bind_run_ok (cursor?_run "set" hid)]
  dsimp only
  rw [bind_run_ok (name.eval_run w s)]
  rw [bind_run_ok (value.eval_run w s)]
  by_cases hvalid : isValidName name.text
  · rw [if_pos hvalid]
    refine bind_run_ok (change_run_ok hd (a := ()) ?_) _
    rw [Document.setAttribute, Option.getD_some, Xml.checkName, if_pos hvalid]
    rfl
  · rw [if_neg hvalid]
    refine bind_run_error (change_run_error hd ?_) _
    rw [Document.setAttribute, Option.getD_some, Xml.checkName, if_neg hvalid]
    rfl

theorem Patch.add_run (w : Ways σ) {tag : PlainLiteral} {position : Position} {body : List Patch}
    {t : Target} (ht : (Patch.add tag position body).target? = some t)
    (hid : s.context.element? = some id) :
    eval w (Patch.add tag position body).term s =
      (do
        addAt id t.tag t.number (evalBody w (Patch.terms body))
        return none) s := by
  cases ht
  rw [Patch.term]
  rw [eval]
  rw [bind_run_ok (cursor?_run "add" hid)]
  dsimp only
  rw [bind_run_ok (tag.eval_run w s), Option.getD_some]
  exact position.run w s _

theorem Patch.changeOrAdd_run (w : Ways σ) {tag : PlainLiteral} {position : Option Position}
    {body : List Patch} {t : Target} (ht : (Patch.changeOrAdd tag position body).target? = some t)
    (hid : s.context.element? = some id) :
    eval w (Patch.changeOrAdd tag position body).term s =
      (do
        changeOrAddAt id t.tag t.number (evalBody w (Patch.terms body))
        return none) s := by
  cases position with
  | none =>
    cases ht
    rw [Patch.term]
    rw [eval]
    rw [bind_run_ok (cursor?_run "change_add" hid)]
    dsimp only
    rw [bind_run_ok (tag.eval_run w s), Option.getD_some]
    rfl
  | some position =>
    cases ht
    rw [Patch.term]
    rw [eval]
    rw [bind_run_ok (cursor?_run "change_add" hid)]
    dsimp only
    rw [bind_run_ok (tag.eval_run w s), Option.getD_some]
    exact position.run w s _

/-- A patch makes the element at its place if that is the next one to be filled. -/
theorem Patch.make_run (w : Ways σ) {p : Patch} {t : Target} (ht : p.target? = some t)
    (hd : s.context.document = some d) (hid : s.context.element? = some id)
    (hplace : t.HasPlace d id) (hnone : t.find? d id = none) :
    eval w p.term s =
      (do
        makeAt t id (evalBody w (Patch.terms p.body))
        return none) s := by
  cases p with
  | set => cases ht
  | add tag position body =>
    rw [add_run w ht hid]
    exact bind_run_congr (addAt_made hd hplace hnone _) _
  | changeOrAdd tag position body =>
    rw [changeOrAdd_run w ht hid]
    refine bind_run_congr ((changeOrAddAt_run hd hplace _).trans ?_) _
    rw [hnone]
    rfl

end PatchScript.Run
