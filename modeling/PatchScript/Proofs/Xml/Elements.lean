import PatchScript.Proofs.Xml.Growth
import PatchScript.Proofs.Xml.Integrity
import PatchScript.XPath.Eval

/-!
# Elements stay elements

A node is known by its number, and nothing in a number tells what the node is or that there is
one.  But whatever is done to a document, an element stays an element of it, detached or not
(`Document.Evolves.isElement`).  The root of a document that can be made is an element, and so is
all that is selected, found by its number or appended.
-/

namespace PatchScript.Xml

/-- Is it an element? -/
def NodeKind.isElement : NodeKind → Bool
  | .element _ => true
  | _ => false

@[simp] theorem NodeKind.isElement_bare (kind : NodeKind) :
    kind.bare.isElement = kind.isElement := by
  cases kind <;> rfl

namespace Document

variable {d d' : Document}

theorem isElement_eq (d : Document) (id : NodeId) :
    d.isElement id = (d.kind? id).any NodeKind.isElement := by
  rw [isElement, element?]
  rcases d.kind? id with _ | kind
  · rfl
  · cases kind <;> rfl

/-- A document that evolves keeps its elements. -/
theorem Evolves.isElement (h : d.Evolves d') {id : NodeId} (hid : d.isElement id) :
    d'.isElement id := by
  have bare (d : Document) :
      d.isElement id = ((d.kind? id).map NodeKind.bare).any NodeKind.isElement := by
    rw [isElement_eq]
    cases d.kind? id <;> simp
  rwa [bare, h.kind (lt_size_of_isElement hid), ← bare]

theorem Step.evolves (h : d.Step d') : d.Evolves d' := by
  cases h with
  | appendElement _ h => exact .appendElement h
  | appendText content _ => exact .push d _ (.text content)
  | appendComment content _ => exact .push d _ (.comment content)
  | setAttribute h => exact .setAttribute h
  | removeAttribute id name => exact .removeAttribute d id name
  | detach id => exact .detach d id

theorem Steps.evolves (h : d.Steps d') : d.Evolves d' := by
  induction h with
  | refl => exact .refl d
  | tail _ step ih => exact ih.trans step.evolves

theorem Step.reachable (h : d.Step d') (hd : d.Reachable) : d'.Reachable := by
  cases h with
  | appendElement hparent h => exact .appendElement hd hparent h
  | appendText content hparent => exact .appendText content hd hparent
  | appendComment content hparent => exact .appendComment content hd hparent
  | setAttribute h => exact .setAttribute hd h
  | removeAttribute id name => exact .removeAttribute id name hd
  | detach id => exact .detach id hd

theorem Steps.reachable (h : d.Steps d') (hd : d.Reachable) : d'.Reachable := by
  induction h with
  | refl => exact hd
  | tail _ step ih => exact step.reachable ih

theorem steps_detachAll : ∀ (ids : List NodeId) (d : Document), d.Steps (ids.foldl detach d)
  | [], _ => .refl
  | id :: ids, d => .head (.detach id) (steps_detachAll ids (d.detach id))

/-! ## What is an element -/

theorem isElement_of_appendElement {parent id : NodeId} {name : String}
    (h : d.appendElement parent name = .ok (d', id)) : d'.isElement id := by
  obtain ⟨rfl, rfl⟩ := appendElement_ok h
  rw [isElement_eq, kind?_push, if_pos rfl]
  rfl

/-- The root of a document that can be made is an element, detached or not. -/
theorem Reachable.isElement_root (h : d.Reachable) : d.isElement d.root := by
  induction h with
  | ofName h =>
    obtain ⟨⟨d₁, id⟩, happend, h⟩ := bind_eq_ok h
    cases h
    have hroot := isElement_of_appendElement happend
    exact hroot
  | @read _ d h =>
    obtain ⟨t, ht, h⟩ := bind_eq_ok h
    obtain ⟨name, attributes, children, rfl⟩ := exists_of_readTree ht
    obtain ⟨d₁, happend, h⟩ := bind_eq_ok h
    cases h
    obtain ⟨⟨d₂, id⟩, hstart, happend⟩ := bind_eq_ok happend
    obtain ⟨d₃, hset, hchildren⟩ := bind_eq_ok happend
    have hroot := isElement_of_appendElement hstart
    obtain ⟨rfl, rfl⟩ := appendElement_ok hstart
    have hset := steps_setAttributes attributes hset
    have hid := lt_size_of_isElement (hset.evolves.isElement hroot)
    have hsteps : Steps _ d := hset.trans (steps_appendAll children hid hchildren)
    rw [hsteps.root]
    exact hsteps.evolves.isElement hroot
  | appendElement _ hparent h ih =>
    have hstep := Step.appendElement hparent h
    rw [hstep.root]
    exact hstep.evolves.isElement ih
  | appendText content _ hparent ih => exact (Step.appendText content hparent).evolves.isElement ih
  | appendComment content _ hparent ih =>
    exact (Step.appendComment content hparent).evolves.isElement ih
  | setAttribute _ h ih =>
    have hstep := Step.setAttribute h
    rw [hstep.root]
    exact hstep.evolves.isElement ih
  | removeAttribute id name _ ih => exact (Step.removeAttribute id name).evolves.isElement ih
  | detach id _ ih =>
    rw [(Step.detach id).root]
    exact (Step.detach id).evolves.isElement ih

theorem isElement_of_nthChild? {id c : NodeId} {tag : String} {n : Nat}
    (h : d.nthChild? id tag n = some c) : d.isElement c := by
  rw [nthChild?_eq] at h
  split at h
  · cases h
  · exact (mem_named (List.mem_of_getElem? h)).2

theorem isElement_of_selectElements {id c : NodeId} {selector : String} {ids : List NodeId}
    (h : XPath.selectElements d id selector = .ok ids) (hc : c ∈ ids) : d.isElement c := by
  obtain ⟨value, -, h⟩ := bind_eq_ok h
  cases value with
  | nodes items =>
    cases h
    obtain ⟨item, -, hitem⟩ := List.mem_filterMap.mp hc
    cases item with
    | node id =>
      dsimp only at hitem
      split at hitem
      · rename_i helement
        cases hitem
        exact helement
      · cases hitem
    | «attribute» => cases hitem
  | string | number | boolean => cases h

theorem isElement_of_selectFirst? {id c : NodeId} {selector : String}
    (h : XPath.selectFirst? d id selector = .ok (some c)) : d.isElement c := by
  obtain ⟨ids, hids, h⟩ := bind_eq_ok h
  exact isElement_of_selectElements hids (List.mem_of_head? (Except.ok.inj h))

end Document

end PatchScript.Xml
