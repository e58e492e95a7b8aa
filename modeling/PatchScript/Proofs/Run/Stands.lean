import PatchScript.Proofs.Run.Deeds
import PatchScript.Proofs.Xml.Elements

/-!
# Where a run stands

The elements that a run works on are known by their numbers.  The one that was entered last is in
the context.  Those that were entered before it are kept by the guards around it, and those that a
directive has found and will enter later by the directive.  None of these says of which document
it is.

`Stands` brings all of them together, with the documents that they are numbers of.  `Move` says how
they change from one context of a run to the next.  What makes them safe is said once for each
move (`Move.safe`): a number is found in the open document and kept as long as this is open, and
while it is open its elements stay elements.
-/

namespace PatchScript.Run

open Xml (Document NodeId)

/-! ## Stands -/

/-- Where directives are run one after the other. -/
structure Spot where
  /-- The element that was entered last. -/
  cursor : Option NodeId
  /-- The elements that the directive which is run has found and not entered yet. -/
  pending : List NodeId

/-- The elements of a spot. -/
def Spot.ids (p : Spot) : List NodeId := p.cursor.toList ++ p.pending

/-- A document that is open, or none, and where directives are run in it. -/
structure Stand where
  /-- The document. -/
  document : Option Document
  /-- Where directives are run now. -/
  spot : Spot
  /-- The spots from which this one has been entered, the innermost first. -/
  outer : List Spot

/-- The elements that the run will come back to or has not entered yet. -/
def Stand.ids (a : Stand) : List NodeId := a.spot.ids ++ a.outer.flatMap Spot.ids

/-- Where a run stands. -/
structure Stands where
  /-- Where it stands in the document that is open. -/
  live : Stand
  /-- Where it stood when this document was opened or this script was entered, and so on. -/
  saved : List Stand

/-- A stand in which nothing has been entered. -/
def Stand.fresh (document : Option Document) : Stand := ⟨document, ⟨none, []⟩, []⟩

/-- The stands at the start. -/
def Stands.start : Stands := ⟨.fresh none, []⟩

/-- What a context shows of where the run stands. -/
def Stands.sight (S : Stands) : Option Document × Option NodeId :=
  (S.live.document, S.live.spot.cursor)

@[inherit_doc Stands.sight]
def Context.sight (c : Context) : Option Document × Option NodeId := (c.document, c.cursor)

/-- The document can be made, and if there are elements, it is there and has them. -/
structure Stand.Safe (a : Stand) : Prop where
  /-- The document can be made. -/
  reachable {d : Document} : a.document = some d → d.Reachable
  /-- If there is an element, a document is open, and it is an element of this. -/
  elements : ∀ id ∈ a.ids, ∃ d, a.document = some d ∧ d.isElement id

/-- All documents can be made, and all elements are elements of the documents they belong to. -/
def Stands.Safe (S : Stands) : Prop := ∀ a ∈ S.live :: S.saved, a.Safe

theorem Stand.Safe.fresh {document : Option Document}
    (h : ∀ d, document = some d → d.Reachable) : (Stand.fresh document).Safe where
  reachable hd := h _ hd
  elements _ hid := absurd hid List.not_mem_nil

theorem Stands.Safe.start : start.Safe := List.forall_mem_singleton.mpr (.fresh nofun)

/-! ## What directives do at an element -/

/-- The elements that a directive at an element has found: those that a selector selects, the
first one of them, a child of a name with a number, or one that was appended just before. -/
inductive Found (d : Document) (id : NodeId) : List NodeId → Prop where
  | every {selector : String} {targets : List NodeId} :
    XPath.selectElements d id selector = .ok targets → Found d id targets
  | first {selector : String} {target : NodeId} :
    XPath.selectFirst? d id selector = .ok (some target) → Found d id [target]
  | child {tag : String} {n : Nat} {target : NodeId} :
    d.nthChild? id tag n = some target → Found d id [target]
  | made {before : Document} {tag : String} {target : NodeId} :
    before.appendElement id tag = .ok (d, target) → Found d id [target]

theorem Found.isElement {d : Document} {id target : NodeId} {targets : List NodeId}
    (h : Found d id targets) (ht : target ∈ targets) : d.isElement target := by
  cases h with
  | every h => exact Document.isElement_of_selectElements h ht
  | first h =>
    cases List.mem_singleton.mp ht
    exact Document.isElement_of_selectFirst? h
  | child h =>
    cases List.mem_singleton.mp ht
    exact Document.isElement_of_nthChild? h
  | made h =>
    cases List.mem_singleton.mp ht
    exact Document.isElement_of_appendElement h

namespace Change

/-- A change that a directive at an element makes: it sets or removes an attribute of the element,
appends an element to it, or takes away elements that it has found. -/
inductive ActsOn (d : Document) (id : NodeId) : Change → Prop where
  | set (name value : String) : ActsOn d id (.set id name value)
  | unset (name : String) : ActsOn d id (.unset id name)
  | append (tag : String) : ActsOn d id (.append id tag)
  | detach {targets : List NodeId} : Found d id targets → ActsOn d id (.detach targets)

variable {d d' : Document} {id : NodeId} {e : Change}

/-- A change at an element is made of steps at nodes that there are. -/
theorem ActsOn.steps (h : e.ActsOn d id) (hid : d.isElement id) (he : e.apply d = .ok d') :
    d.Steps d' := by
  cases h with
  | set name value => exact .single (.setAttribute he)
  | unset name =>
    cases he
    exact .single (.removeAttribute id name)
  | append tag =>
    obtain ⟨⟨d₁, new⟩, happend, he⟩ := bind_eq_ok he
    cases he
    exact .single (.appendElement (Document.lt_size_of_isElement hid) happend)
  | detach =>
    cases he
    exact Document.steps_detachAll _ d

/-- While elements that a directive has found are taken away, those that are left to be taken away
are elements. -/
theorem ActsOn.detaching {done rest : List NodeId} (h : ActsOn d id (.detach (done ++ rest))) :
    ∀ target ∈ rest, (done.foldl Document.detach d).isElement target := by
  intro target htarget
  cases h with
  | detach hfound =>
    have helement := hfound.isElement (List.mem_append_right done htarget)
    exact (Document.steps_detachAll done d).evolves.isElement helement

end Change

/-! ## Moves -/

/-- How the stands of a run change when the run comes to another context. -/
inductive Move : Stands → Stands → Prop where
  /-- Something else is changed. -/
  | stays (S : Stands) : Move S S
  /-- The open document is changed at the element that was entered last or, if there is none, at
  the root. -/
  | changes {d d' : Document} {e : Change} {p : Spot} {outer : List Spot} {saved : List Stand} :
    e.ActsOn d (p.cursor.getD d.root) → e.apply d = .ok d' →
    Move ⟨⟨some d, p, outer⟩, saved⟩ ⟨⟨some d', p, outer⟩, saved⟩
  /-- The first one of the elements that were found at this element is entered. -/
  | finds {d : Document} {cursor : Option NodeId} {target : NodeId} {rest : List NodeId}
    {outer : List Spot} {saved : List Stand} :
    Found d (cursor.getD d.root) (target :: rest) →
    Move ⟨⟨some d, ⟨cursor, []⟩, outer⟩, saved⟩
      ⟨⟨some d, ⟨some target, []⟩, ⟨cursor, rest⟩ :: outer⟩, saved⟩
  /-- The next one of the elements that were found is entered, whatever the document is by now. -/
  | continues (document : Option Document) (cursor : Option NodeId) (target : NodeId)
    (rest : List NodeId) (outer : List Spot) (saved : List Stand) :
    Move ⟨⟨document, ⟨cursor, target :: rest⟩, outer⟩, saved⟩
      ⟨⟨document, ⟨some target, []⟩, ⟨cursor, rest⟩ :: outer⟩, saved⟩
  /-- An element is left. -/
  | leaves (document : Option Document) (cursor : Option NodeId) (p : Spot) (outer : List Spot)
    (saved : List Stand) :
    Move ⟨⟨document, ⟨cursor, []⟩, p :: outer⟩, saved⟩ ⟨⟨document, p, outer⟩, saved⟩
  /-- An element is left after a fault, and those that are pending are given up. -/
  | fails (document : Option Document) (cursor : Option NodeId) (p : Spot) (outer : List Spot)
    (saved : List Stand) :
    Move ⟨⟨document, ⟨cursor, []⟩, p :: outer⟩, saved⟩
      ⟨⟨document, ⟨p.cursor, []⟩, outer⟩, saved⟩
  /-- A document is opened, where none is open. -/
  | opens {d : Document} {live : Stand} (saved : List Stand) : live.document = none →
    d.Reachable → Move ⟨live, saved⟩ ⟨.fresh (some d), live :: saved⟩
  /-- A script is entered, in which no document is open. -/
  | starts (live : Stand) (saved : List Stand) : Move ⟨live, saved⟩ ⟨.fresh none, live :: saved⟩
  /-- A document or a script is left. -/
  | returns (document : Option Document) (live : Stand) (saved : List Stand) :
    Move ⟨.fresh document, live :: saved⟩ ⟨live, saved⟩

namespace Stand.Safe

variable {d d' : Document} {document : Option Document} {p q : Spot} {outer outer' : List Spot}

/-- The element that directives work on: the one that was entered last, or the root. -/
theorem element {a : Stand} (h : a.Safe) {id : NodeId}
    (hid : a.spot.cursor.or (a.document.map (·.root)) = some id) :
    ∃ d, a.document = some d ∧ d.isElement id := by
  cases hcursor : a.spot.cursor with
  | none =>
    rw [hcursor] at hid
    obtain ⟨d, hd, rfl⟩ := Option.map_eq_some_iff.mp hid
    exact ⟨d, hd, (h.reachable hd).isElement_root⟩
  | some id' =>
    rw [hcursor] at hid
    cases hid
    exact h.elements id (by simp [Stand.ids, Spot.ids, hcursor])

theorem isElement (h : Stand.Safe ⟨some d, p, outer⟩) : d.isElement (p.cursor.getD d.root) := by
  have hid : p.cursor.or (some d.root) = some (p.cursor.getD d.root) := by
    cases p.cursor <;> rfl
  obtain ⟨d₁, hd₁, helement⟩ := h.element hid
  cases hd₁
  exact helement

theorem changed (h : Stand.Safe ⟨some d, p, outer⟩) (hsteps : d.Steps d') :
    Stand.Safe ⟨some d', p, outer⟩ where
  reachable hd := by
    cases hd
    exact hsteps.reachable (h.reachable rfl)
  elements id hid := by
    obtain ⟨d₁, hd₁, helement⟩ := h.elements id hid
    cases hd₁
    exact ⟨d', rfl, hsteps.evolves.isElement helement⟩

theorem of_subset (h : Stand.Safe ⟨document, p, outer⟩)
    (hids : (Stand.mk document q outer').ids ⊆ (Stand.mk document p outer).ids) :
    Stand.Safe ⟨document, q, outer'⟩ where
  reachable := h.reachable
  elements id hid := h.elements id (hids hid)

/-- Elements that were found are pending from now on, but for the first one, which is entered. -/
theorem found {cursor : Option NodeId} {target : NodeId} {rest : List NodeId}
    (h : Stand.Safe ⟨some d, ⟨cursor, []⟩, outer⟩)
    (hfound : ∀ id ∈ target :: rest, d.isElement id) :
    Stand.Safe ⟨some d, ⟨some target, []⟩, ⟨cursor, rest⟩ :: outer⟩ where
  reachable := h.reachable
  elements id hid := by
    have hid : id ∈ target :: rest ∨ id ∈ (Stand.mk (some d) ⟨cursor, []⟩ outer).ids := by
      simp only [Stand.ids, Spot.ids, List.flatMap_cons, List.mem_append] at hid ⊢
      grind
    rcases hid with hid | hid
    · exact ⟨d, rfl, hfound id hid⟩
    · exact h.elements id hid

end Stand.Safe

/-- Every move keeps the stands safe. -/
theorem Move.safe {S T : Stands} (h : Move S T) (hS : S.Safe) : T.Safe := by
  obtain ⟨hlive, hsaved⟩ := List.forall_mem_cons.mp hS
  cases h with
  | stays => exact hS
  | changes hacts happly =>
    exact List.forall_mem_cons.mpr ⟨hlive.changed (hacts.steps hlive.isElement happly), hsaved⟩
  | finds hfound =>
    exact List.forall_mem_cons.mpr ⟨hlive.found fun _ => hfound.isElement, hsaved⟩
  | continues =>
    refine List.forall_mem_cons.mpr ⟨hlive.of_subset fun id hid => ?_, hsaved⟩
    simp only [Stand.ids, Spot.ids, List.flatMap_cons, List.mem_append] at hid ⊢
    grind
  | leaves =>
    exact List.forall_mem_cons.mpr ⟨hlive.of_subset (List.subset_append_right _ _), hsaved⟩
  | fails =>
    refine List.forall_mem_cons.mpr ⟨hlive.of_subset fun id hid => ?_, hsaved⟩
    simp only [Stand.ids, Spot.ids, List.flatMap_cons, List.mem_append] at hid ⊢
    grind
  | opens _ _ hd => exact List.forall_mem_cons.mpr ⟨.fresh fun d' hd' => by cases hd'; exact hd, hS⟩
  | starts => exact List.forall_mem_cons.mpr ⟨.fresh nofun, hS⟩
  | returns => exact hsaved

/-! ## Trails -/

/-- Stands that follow each other in moves, from the first to the last, and those in between. -/
inductive Trail : Stands → List Stands → Stands → Prop where
  | nil (S : Stands) : Trail S [] S
  | cons {S T U : Stands} {between : List Stands} : Move S T → Trail T between U →
    Trail S (T :: between) U

namespace Trail

variable {S T U : Stands} {between between' : List Stands}

theorem single (h : Move S T) : Trail S [T] T := .cons h (.nil T)

theorem append (h : Trail S between T) (h' : Trail T between' U) :
    Trail S (between ++ between') U := by
  induction h with
  | nil => exact h'
  | cons hmove _ ih => exact .cons hmove (ih h')

theorem isChain (h : Trail S between T) : (S :: between).IsChain Move := by
  induction h with
  | nil S => exact .singleton S
  | cons hmove _ ih => exact .cons_cons hmove ih

/-- All stands on a trail from safe ones are safe. -/
theorem safe (h : Trail S between T) (hS : S.Safe) : ∀ U ∈ S :: between, U.Safe := by
  induction h with
  | nil S => exact List.forall_mem_singleton.mpr hS
  | cons hmove _ ih => exact List.forall_mem_cons.mpr ⟨hS, ih (hmove.safe hS)⟩

end Trail

end PatchScript.Run
