import PatchScript.Proofs.Run.Accounts
import PatchScript.Proofs.Run.Positions
import PatchScript.Proofs.Run.Purity
import PatchScript.Proofs.Xml.Elements
import PatchScript.Proofs.Xml.Locality

/-!
# Directives that stay where they are

Directives that set and remove attributes and append elements work on the element that they are run
at, and those in their bodies work on children of it, found or new.  As long as no directive
selects anything, nothing gets out of that element: the document grows under it
(`bodies_stay_local`).  This holds of directives that fail too, since what is done before the
failure has been done in place.

Steps are said to act locally if they do so from every session (`ActsLocally`).  Where a step is
known from what came before it, as the steps in an element are that has been found or appended, it
is followed from one session (`Session.GrownAt`).
-/

namespace PatchScript.Run

open Xml (Document NodeId)
open Script (Term)
open Eval

/-! ## Local terms -/

/-- A value that is written down or a name that stands for one. -/
inductive IsPlain : Term Nat → Prop where
  | literal (value : Script.Literal) : IsPlain (.literal value)
  | name (name : String) (negative : Bool) : IsPlain (.name name negative)

mutual

/-- A directive that sets or removes an attribute, appends an element, works on one that is found by
its number, or binds a name, with such directives in its body.  The body of a preset is not run
where the preset is declared, so it may be any. -/
def IsLocal : Term Nat → Prop
  | .set attr value => IsPlain attr ∧ IsPlain value
  | .removeAttribute attr => IsPlain attr
  | .add tag body | .changeOrAdd tag body => IsPlain tag ∧ AreLocal body
  | .addAt tag position body | .changeOrAddAt tag position body =>
    IsPlain tag ∧ IsPlain position ∧ AreLocal body
  | .const _ value => IsPlain value
  | .preset .. => True
  | .block body => AreLocal body
  | _ => False

/-- All directives are of this kind. -/
def AreLocal : List (Term Nat) → Prop
  | [] => True
  | t :: ts => IsLocal t ∧ AreLocal ts

end

/-! ## Sessions at an element -/

variable {σ α β : Type} {s t : Session σ} {d d' d₁ : Document} {id c : NodeId}

/-- A document is open, and directives work on the element of it. -/
structure Session.At (s : Session σ) (id : NodeId) (d : Document) : Prop where
  document : s.context.document = some d
  element? : s.context.element? = some id
  reachable : d.Reachable
  lt : id < d.nodes.size

/-- The session is at the element, under which the document has grown. -/
def Session.GrownAt (s : Session σ) (id : NodeId) (d : Document) : Prop :=
  ∃ d', s.At id d' ∧ Document.GrowsUnder id d d'

namespace Session

theorem At.grownAt (h : s.At id d) : s.GrownAt id d := ⟨d, h, .refl d id⟩

/-- The document may have grown, and the element that was entered last is the same. -/
theorem GrownAt.of_cursor (h : s.At id d) (hcursor : t.context.cursor = s.context.cursor)
    (hd' : t.context.document = some d') (hreachable : d'.Reachable)
    (hgrows : Document.GrowsUnder id d d') : t.GrownAt id d := by
  have helement := h.element?
  rw [Context.element?, h.document] at helement
  refine ⟨d', ⟨hd', ?_, hreachable, Nat.lt_of_lt_of_le h.lt hgrows.size⟩, hgrows⟩
  rw [Context.element?, hcursor, hd']
  show s.context.cursor.or (some d'.root) = some id
  rw [hgrows.root]
  exact helement

/-- Nothing is changed in the document. -/
theorem GrownAt.of_same (h : s.At id d) (hcursor : t.context.cursor = s.context.cursor)
    (hdocument : t.context.document = s.context.document) : t.GrownAt id d :=
  .of_cursor h hcursor (hdocument.trans h.document) h.reachable (.refl d id)

namespace GrownAt

/-- What a step does in a session is enough to tell. -/
theorem of_run {x : Eval σ α} {a : Except Fault α} (h : x s = (a, t)) (ht : t.GrownAt id d) :
    (x s).2.GrownAt id d := by
  rw [h]
  exact ht

theorem seq {x : Eval σ α} {f : α → Eval σ β} (hs : s.At id d) (hx : (x s).2.GrownAt id d)
    (hf : ∀ a t d₁, x s = (.ok a, t) → t.At id d₁ → (f a t).2.GrownAt id d₁) :
    ((x >>= f) s).2.GrownAt id d := by
  cases hrun : x s with
  | mk a t =>
    rw [hrun] at hx
    cases a with
    | ok a =>
      obtain ⟨d₁, ht, hgrows⟩ := hx
      obtain ⟨d₂, hu, hgrows'⟩ := hf a t d₁ hrun ht
      rw [bind_run_ok hrun]
      exact ⟨d₂, hu, hgrows.trans hgrows' hs.reachable.linked ht.reachable.linked
        hu.reachable.linked⟩
    | error e => exact of_run (bind_run_error hrun f) hx

variable [DocumentStore σ]

/-- The document is changed at the element or under it. -/
theorem change {f : Document → Except Xml.Error (Document × α)} (hs : s.At id d)
    (hf : ∀ d' a, f d = .ok (d', a) → d'.Reachable ∧ Document.GrowsUnder id d d') :
    (Eval.change f s).2.GrownAt id d := by
  cases hfd : f d with
  | ok r =>
    obtain ⟨d', a⟩ := r
    obtain ⟨hreachable, hgrows⟩ := hf d' a hfd
    exact of_run (change_run_ok hs.document hfd) (.of_cursor hs rfl rfl hreachable hgrows)
  | error e => exact of_run (change_run_error hs.document hfd) hs.grownAt

theorem set (hs : s.At id d) (name value : String) :
    (Eval.change (fun d => do
      let d ← d.setAttribute id name value
      return (d, ())) s).2.GrownAt id d := by
  refine change hs fun d' a hf => ?_
  obtain ⟨d₁, hset, hret⟩ := bind_eq_ok hf
  cases hret
  refine ⟨.setAttribute hs.reachable hset, ?_⟩
  rw [Document.setAttribute_ok hset]
  exact .modifyAttributes d id _

theorem unset (hs : s.At id d) (name : String) :
    (Eval.change (fun d => .ok (d.removeAttribute id name, ())) s).2.GrownAt id d := by
  refine change hs fun d' a hf => ?_
  cases hf
  exact ⟨.removeAttribute id name hs.reachable, .modifyAttributes d id _⟩

theorem diagnose (hs : s.At id d) (why : Skipped) : (skip why s).2.GrownAt id d :=
  .of_same hs rfl rfl

theorem bindName (hs : s.At id d) (name : String) (b : Binding) :
    (Eval.bindName name b s).2.GrownAt id d := by
  cases h : s.context.bind name b with
  | ok c =>
    exact of_run (bindName_run_ok h)
      (.of_same hs (Context.Keeps.bind h).cursor (Context.bind_document h))
  | error e => exact of_run (bindName_run_error h) hs.grownAt

end GrownAt

end Session

/-! ## Steps that act locally -/

/-- At whatever element a step is run, the document grows under that element. -/
def ActsLocally (x : Eval σ α) : Prop := ∀ s id d, s.At id d → (x s).2.GrownAt id d

variable [DocumentStore σ]

namespace ActsLocally

open Session (GrownAt)

variable {x : Eval σ Unit}

/-- An element under the element is entered and left again. -/
theorem visit (hx : ActsLocally x) (hs : s.At id d) (hc : d.Under id c) :
    (atElement c x s).2.GrownAt id d := by
  have hlinked := hs.reachable.linked
  have hlt := hc.lt_size hlinked hs.lt
  obtain ⟨d', ht, hgrows⟩ := hx (s.comeTo (s.context.enterElement c)) c d
    ⟨hs.document, rfl, hs.reachable, hlt⟩
  exact .of_run (within_run ..) (.of_cursor hs rfl ht.document ht.reachable
    (hgrows.above hlinked ht.reachable.linked hc hlt))

/-- An element is appended and entered. -/
theorem visit_made (hx : ActsLocally x) (hs : s.At id d) (tag : String) :
    ((do atElement? (← appendElement id tag) x) s).2.GrownAt id d := by
  have append {d' : Document} {made : NodeId} (h : d.appendElement id tag = .ok (d', made)) :
      d'.Reachable ∧ Document.GrowsUnder id d d' := by
    refine ⟨.appendElement hs.reachable hs.lt h, ?_⟩
    rw [(Document.appendElement_ok h).1]
    exact .push hs.lt _
  refine .seq hs (.change hs fun d' made h => append h) fun made t d₁ hrun ht => ?_
  cases made with
  | none => exact ht.grownAt
  | some made =>
    cases h : d.appendElement id tag with
    | ok r =>
      rw [appendElement, change_run_ok hs.document h] at hrun
      cases hrun
      cases Option.some.inj ht.document
      refine hx.visit ht ((append h).2.inside ?_ ?_)
      · exact Nat.le_of_eq (Document.appendElement_ok h).2.symm
      · exact Document.lt_size_of_isElement (Document.isElement_of_appendElement h)
    | error e =>
      rw [appendElement, change_run_error hs.document h] at hrun
      cases hrun

/-- A child is found by its number and entered. -/
theorem visit_child (hx : ActsLocally x) (hs : s.At id d) {tag : String} {n : Nat}
    (hc : d.nthChild? id tag n = some c) : (atElement c x s).2.GrownAt id d := by
  rw [Document.nthChild?_eq] at hc
  split at hc
  · cases hc
  · exact hx.visit hs (.child (Document.mem_named (List.mem_of_getElem? hc)).1)

theorem addAt (hx : ActsLocally x) (hs : s.At id d) (tag : String) (n : Int) :
    (addAt id tag n x s).2.GrownAt id d := by
  rw [Run.addAt]
  rw [bind_run_ok (nthChild?_run hs.document id tag _),
    bind_run_ok (nthChild?_run hs.document id tag _)]
  split
  · exact hs.grownAt
  · exact hx.visit_made hs tag

theorem changeOrAddAt (hx : ActsLocally x) (hs : s.At id d) (tag : String) (n : Int) :
    (changeOrAddAt id tag n x s).2.GrownAt id d := by
  rw [Run.changeOrAddAt]
  split
  · exact hs.grownAt
  · dsimp only
    rw [bind_run_ok (nthChild?_run hs.document id tag _)]
    split
    · exact .diagnose hs _
    · rw [bind_run_ok (nthChild?_run hs.document id tag _)]
      cases hc : d.nthChild? id tag n.toNat with
      | none => exact hx.visit_made hs tag
      | some c => exact hx.visit_child hs hc

end ActsLocally

/-! ## Terms -/

section Terms

variable {w : Ways σ}

/-- A plain value changes nothing. -/
theorem IsPlain.eval_run {v : Term Nat} (h : IsPlain v) (w : Ways σ) (s : Session σ) :
    ∃ r, eval w v s = (r, s) := by
  have hvalue : ∃ r, Rests (eval · v) s r := by
    cases h with
    | literal value => exact (IsValue.literal value).rests (w := w) (by rintro ⟨⟩)
    | name name negative => exact (IsValue.name name negative).rests (w := w) (by rintro ⟨⟩)
  obtain ⟨r, hr⟩ := hvalue
  exact ⟨r, hr w⟩

namespace ActsLocally

open Session (GrownAt)

omit [DocumentStore σ] in
/-- A step that changes nothing comes first. -/
theorem after {x : Eval σ α} {f : α → Eval σ β} (hs : s.At id d) (hx : ∃ r, x s = (r, s))
    (hf : ∀ a, (f a s).2.GrownAt id d) : ((x >>= f) s).2.GrownAt id d := by
  obtain ⟨r, hr⟩ := hx
  cases r with
  | ok a =>
    rw [bind_run_ok hr]
    exact hf a
  | error e => exact .of_run (bind_run_error hr f) hs.grownAt

/-- A position is found out first. -/
theorem after_position {position : Term Nat} {f : Int → Eval σ β} (hs : s.At id d)
    (hposition : IsPlain position) (hf : ∀ n, (f n s).2.GrownAt id d) :
    ((match integerOfTerm? position with
      | some n => do
        let n ← pure n
        f n
      | none => do
        let text ← Run.eval w position
        let n ← positionOf (text.getD "")
        f n) s).2.GrownAt id d := by
  have hsame := congrArg (fun x : Eval σ β => (x s).2) (positionIn_bind w position f)
  have hafter := after hs (positionIn_rests (hposition.eval_run w s)) hf
  exact hsame.symm ▸ hafter

/-- The element that directives work on is asked for first. -/
theorem after_cursor {f : Option NodeId → Eval σ β} (directive : String) (hs : s.At id d)
    (hf : (f (some id) s).2.GrownAt id d) : ((cursor? directive >>= f) s).2.GrownAt id d := by
  rw [bind_run_ok (cursor?_run directive hs.element?)]
  exact hf

omit [DocumentStore σ] in
/-- A directive gives nothing. -/
theorem done {x : Eval σ α} {b : β} (hs : s.At id d) (hx : (x s).2.GrownAt id d) :
    ((do let _ ← x; return b) s).2.GrownAt id d :=
  .seq hs hx fun _ _ _ _ ht => ht.grownAt

mutual

/-- A local term acts locally, whatever the ways out of terms are. -/
theorem eval : ∀ t : Term Nat, IsLocal t → ActsLocally (Run.eval w t)
  | .block body, hbody => by
    intro s id d hs
    rw [Run.eval]
    exact done hs (evalBody body hbody s id d hs)
  | .const name value, hvalue => by
    intro s id d hs
    rw [Run.eval]
    exact after hs (IsPlain.eval_run hvalue w s) fun text => done hs (.bindName hs name _)
  | .preset mark name params body, _ => by
    intro s id d hs
    rw [Run.eval]
    exact done hs (.bindName hs name _)
  | .set attr value, ⟨hattr, hvalue⟩ => by
    intro s id d hs
    rw [Run.eval]
    refine after_cursor "set" hs (after hs (hattr.eval_run w s) fun name => ?_)
    exact after hs (hvalue.eval_run w s) fun text => done hs (.set hs _ _)
  | .removeAttribute attr, hattr => by
    intro s id d hs
    rw [Run.eval]
    refine after_cursor "remove" hs (after hs (IsPlain.eval_run hattr w s) fun name => ?_)
    exact done hs (.unset hs _)
  | .add tag body, ⟨htag, hbody⟩ => by
    intro s id d hs
    rw [Run.eval]
    refine after_cursor "add" hs (after hs (htag.eval_run w s) fun name => ?_)
    have hmade := (evalBody body hbody).visit_made hs (name.getD "")
    dsimp only
    rw [← bind_assoc]
    exact done hs hmade
  | .addAt tag position body, ⟨htag, hposition, hbody⟩ => by
    intro s id d hs
    rw [Run.eval]
    refine after_cursor "add" hs (after hs (htag.eval_run w s) fun name => ?_)
    exact after_position hs hposition fun n => done hs ((evalBody body hbody).addAt hs _ n)
  | .changeOrAdd tag body, ⟨htag, hbody⟩ => by
    intro s id d hs
    rw [Run.eval]
    refine after_cursor "change_add" hs (after hs (htag.eval_run w s) fun name => ?_)
    exact done hs ((evalBody body hbody).changeOrAddAt hs _ 1)
  | .changeOrAddAt tag position body, ⟨htag, hposition, hbody⟩ => by
    intro s id d hs
    rw [Run.eval]
    refine after_cursor "change_add" hs (after hs (htag.eval_run w s) fun name => ?_)
    exact after_position hs hposition fun n =>
      done hs ((evalBody body hbody).changeOrAddAt hs _ n)

/-- Local terms act locally one after the other. -/
theorem evalBody : ∀ body : List (Term Nat), AreLocal body → ActsLocally (Run.evalBody w body)
  | [], _ => fun _ _ _ hs => hs.grownAt
  | t :: ts, ⟨ht, hts⟩ => by
    intro s id d hs
    rw [Run.evalBody]
    exact .seq hs (eval t ht s id d hs) fun _ u d₁ _ hu => evalBody ts hts u id d₁ hu

end

end ActsLocally

/-- Directives that only set and remove attributes, append elements and work on those found by
their numbers, and bind names, with such directives in their bodies, are run at an element.  They
may fail at any point.  Either way every node that is not under the element is exactly what it was,
with its attributes, its parent and its children; the element keeps its name and its parent; what
is new is under the element; and no node is without a parent that was not so before. -/
theorem bodies_stay_local (w : Ways σ) {body : List (Term Nat)} (hbody : AreLocal body)
    (hd : s.context.document = some d) (hid : s.context.element? = some id)
    (hreachable : d.Reachable) (hlt : id < d.nodes.size) :
    ∃ d', (evalBody w body s).2.context.document = some d' ∧
      (∀ x < d.nodes.size, ¬ d.Under id x → d'.nodes[x]? = d.nodes[x]?) ∧
      d'.name? id = d.name? id ∧ d'.parent? id = d.parent? id ∧
      (∀ x < d'.nodes.size, d.nodes.size ≤ x → d'.Under id x) ∧
      (∀ x < d.nodes.size, d'.parent? x = d.parent? x) ∧
      ∀ x < d'.nodes.size, d'.parent? x = none → x < d.nodes.size ∧ d.parent? x = none := by
  obtain ⟨d', ht, hgrows⟩ := ActsLocally.evalBody (w := w) body hbody s id d
    ⟨hd, hid, hreachable, hlt⟩
  refine ⟨d', ht.document, fun x => hgrows.outside, hgrows.name? hlt, hgrows.attached hlt,
    fun x hx hnew => hgrows.inside hnew hx, fun x => hgrows.attached, fun x hx hnone => ?_⟩
  exact hgrows.parent?_eq_none ht.reachable.linked hlt hx hnone

/-- An attribute is set and an element appended in a new one, and then a name is not valid. -/
theorem bodies_stay_local_until_failure :
    let element (name : String) : Xml.NodeKind := .element ⟨name, []⟩
    let d := ((Document.empty.push 0 (element "r")).push 1 (element "a")).push 1 (element "b")
    let c : Context := { Context.new 7 [] with document := some d, cursor := some 2 }
    let s : Session MemoryStore := ⟨c, ⟨[]⟩, []⟩
    let w : Ways MemoryStore := ⟨fun _ => return, fun _ => return⟩
    let text (s : String) : Term Nat := .literal (.text s)
    let body := [.set (text "x") (.name "y" false),
      .add (text "c") [.changeOrAdd (text "e") [.add (text "") []]]]
    AreLocal body ∧ d.Reachable ∧ s.context.element? = some 2 ∧ 2 < d.nodes.size ∧
      (evalBody w body s).1.isOk = false ∧
      ∃ d', (evalBody w body s).2.context.document = some d' ∧
        (∀ x < 4, ¬ d.Under 2 x → d'.nodes[x]? = d.nodes[x]?) ∧ d'.parent? 2 = d.parent? 2 := by
  intro element d c s w text body
  have hr : Document.ofName "r" = .ok (Document.empty.push 0 (element "r")) := rfl
  have ha : (Document.empty.push 0 (element "r")).appendElement 1 "a" =
    .ok ((Document.empty.push 0 (element "r")).push 1 (element "a"), 2) := rfl
  have hb : ((Document.empty.push 0 (element "r")).push 1 (element "a")).appendElement 1 "b" =
    .ok (d, 3) := rfl
  have hd : d.Reachable :=
    .appendElement (.appendElement (.ofName hr) (by decide) ha) (by decide) hb
  have hplain (s : String) : IsPlain (text s) := .literal (.text s)
  have hbody : AreLocal body :=
    ⟨⟨hplain "x", .name "y" false⟩, ⟨hplain "c", ⟨hplain "e", ⟨hplain "", trivial⟩, trivial⟩,
      trivial⟩, trivial⟩
  obtain ⟨d', hd', houtside, -, hparent, -⟩ :=
    bodies_stay_local (s := s) w hbody rfl rfl hd (by decide)
  exact ⟨hbody, hd, rfl, by decide, by decide +kernel, d', hd', houtside, hparent⟩

end Terms

end PatchScript.Run
