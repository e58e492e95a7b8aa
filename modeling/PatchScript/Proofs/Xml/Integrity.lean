import Mathlib.Data.Set.Finite.Basic
import Mathlib.Logic.Relation
import Mathlib.Order.Interval.Finset.Nat
import PatchScript.Proofs.Xml.Shape

/-!
# The integrity of a document

However a document is made and changed, its nodes form a forest: parents and children agree, and
a child has a greater number than its parent, so that no walk up or down runs in a circle or goes
on for ever.  All numbers that are stored are numbers of nodes, all names are valid, and no
element has two attributes of one name (`Document.nodes_form_a_forest`).

A document that can be made comes from the empty one by single steps (`Reachable.steps`): reading
a tree is a run of steps too.  So what a step keeps has to be shown once for each operation.
-/

namespace PatchScript.Xml

/-! ## Names -/

/-- Are the names valid, and are those of the attributes all different? -/
structure Element.Named (e : Element) : Prop where
  /-- The name of the element is valid. -/
  name : isValidName e.name
  /-- The names of the attributes are valid. -/
  attributes : ∀ a ∈ e.attributes, isValidName a.1
  /-- No two attributes have the same name. -/
  distinct : e.attributes.names.Nodup

namespace Document

/-! ## Steps -/

/-- One operation on a document, at a node that there is. -/
inductive Step (d : Document) : Document → Prop where
  | appendElement {d' : Document} {parent id : NodeId} {name : String} :
    parent < d.nodes.size → d.appendElement parent name = .ok (d', id) → Step d d'
  | appendText {parent : NodeId} (content : String) :
    parent < d.nodes.size → Step d (d.appendText parent content).1
  | appendComment {parent : NodeId} (content : String) :
    parent < d.nodes.size → Step d (d.appendComment parent content).1
  | setAttribute {d' : Document} {id : NodeId} {name value : String} :
    d.setAttribute id name value = .ok d' → Step d d'
  | removeAttribute (id : NodeId) (name : String) : Step d (d.removeAttribute id name)
  | detach (id : NodeId) : Step d (d.detach id)

/-- Operations one after the other. -/
abbrev Steps : Document → Document → Prop := Relation.ReflTransGen Step

variable {d d' : Document}

theorem Step.size_le (h : d.Step d') : d.nodes.size ≤ d'.nodes.size := by
  cases h with
  | appendElement _ h =>
    rw [(appendElement_ok h).1, size_push]
    exact Nat.le_succ _
  | appendText | appendComment =>
    exact Nat.le_trans (Nat.le_succ _) (Nat.le_of_eq (size_push d _ _).symm)
  | setAttribute h =>
    rw [setAttribute_ok h, size_modifyAttributes]
  | removeAttribute id name => exact Nat.le_of_eq (size_modifyAttributes d id _).symm
  | detach id => exact Nat.le_of_eq (size_detach d id).symm

theorem Steps.size_le (h : d.Steps d') : d.nodes.size ≤ d'.nodes.size := by
  induction h with
  | refl => exact Nat.le_refl _
  | tail _ step ih => exact Nat.le_trans ih step.size_le

theorem steps_setAttributes {id : NodeId} : ∀ (attributes : Attributes) {d d' : Document},
    attributes.foldlM (fun d a => d.setAttribute id a.1 a.2) d = .ok d' → d.Steps d' := by
  intro attributes
  induction attributes with
  | nil =>
    intro d d' h
    cases h
    exact .refl
  | cons a attributes ih =>
    intro d d' h
    rw [List.foldlM_cons] at h
    obtain ⟨d₁, hset, h⟩ := bind_eq_ok h
    exact .head (.setAttribute hset) (ih h)

mutual

theorem steps_append : ∀ (t : Tree) {d d' : Document} {parent : NodeId},
    parent < d.nodes.size → d.append parent t = .ok d' → d.Steps d'
  | .document children, _, _, _, hparent, h => steps_appendAll children hparent h
  | .text content, _, _, _, hparent, h => by
    cases h
    exact .single (.appendText content hparent)
  | .comment content, _, _, _, hparent, h => by
    cases h
    exact .single (.appendComment content hparent)
  | .element name attributes children, d, d', parent, hparent, h => by
    rw [append] at h
    obtain ⟨⟨d₁, id⟩, happend, h⟩ := bind_eq_ok h
    obtain ⟨d₂, hset, h⟩ := bind_eq_ok h
    have hsteps := steps_setAttributes attributes hset
    have hid : id < d₂.nodes.size := by
      obtain ⟨rfl, rfl⟩ := appendElement_ok happend
      refine Nat.lt_of_lt_of_le ?_ hsteps.size_le
      rw [size_push]
      exact Nat.lt_succ_self _
    exact .head (.appendElement hparent happend) (hsteps.trans (steps_appendAll children hid h))

/-- Trees are added to a document in steps. -/
theorem steps_appendAll : ∀ (ts : List Tree) {d d' : Document} {parent : NodeId},
    parent < d.nodes.size → d.appendAll parent ts = .ok d' → d.Steps d'
  | [], _, _, _, _, h => by
    cases h
    exact .refl
  | t :: ts, d, d', parent, hparent, h => by
    rw [appendAll] at h
    obtain ⟨d₁, happend, h⟩ := bind_eq_ok h
    have hfirst := steps_append t hparent happend
    exact hfirst.trans (steps_appendAll ts (Nat.lt_of_lt_of_le hparent hfirst.size_le) h)

end

/-- Every document that can be made comes from the empty one in steps. -/
theorem Reachable.steps (h : d.Reachable) : empty.Steps d := by
  induction h with
  | ofName h =>
    obtain ⟨⟨d₁, id⟩, happend, h⟩ := bind_eq_ok h
    have hstep := Step.appendElement empty_size happend
    obtain ⟨rfl, rfl⟩ := appendElement_ok happend
    cases h
    exact .single hstep
  | read h =>
    obtain ⟨t, -, h⟩ := bind_eq_ok h
    exact steps_append t empty_size h
  | appendElement _ hparent h ih => exact ih.tail (.appendElement hparent h)
  | appendText content _ hparent ih => exact ih.tail (.appendText content hparent)
  | appendComment content _ hparent ih => exact ih.tail (.appendComment content hparent)
  | setAttribute _ h ih => exact ih.tail (.setAttribute h)
  | removeAttribute id name _ ih => exact ih.tail (.removeAttribute id name)
  | detach id _ ih => exact ih.tail (.detach id)

/-! ## What a step keeps -/

/-- Are the names of all elements valid, and those of attributes different? -/
def Named (d : Document) : Prop := ∀ id e, d.kind? id = some (.element e) → e.Named

theorem Named.push (h : d.Named) {kind : NodeKind} (hkind : ∀ e, kind = .element e → e.Named)
    (parent : NodeId) : (d.push parent kind).Named := by
  intro id e hid
  rw [kind?_push] at hid
  split at hid
  · exact hkind e (Option.some.inj hid)
  · exact h id e hid

theorem Named.modifyAttributes (h : d.Named) (id : NodeId) {f : Attributes → Attributes}
    (hf : ∀ e : Element, e.Named → Element.Named { e with attributes := f e.attributes }) :
    (d.modifyAttributes id f).Named := by
  intro c e hc
  rw [kind?_modifyAttributes] at hc
  split at hc
  · obtain ⟨kind, hkind, hmap⟩ := Option.map_eq_some_iff.mp hc
    cases kind with
    | element e' =>
      cases hmap
      exact hf e' (h c e' hkind)
    | document | text | comment => cases hmap
  · exact h c e hc

theorem Step.named (h : d.Step d') (hd : d.Named) : d'.Named := by
  cases h with
  | appendElement _ h =>
    obtain ⟨u, hname, -⟩ := bind_eq_ok h
    rw [(appendElement_ok h).1]
    refine hd.push (fun e he => ?_) _
    cases he
    exact ⟨isValidName_of_checkName hname, fun _ ha => absurd ha List.not_mem_nil, List.nodup_nil⟩
  | appendText | appendComment => exact hd.push (fun _ he => by cases he) _
  | setAttribute h =>
    obtain ⟨u, hname, -⟩ := bind_eq_ok h
    rw [setAttribute_ok h]
    refine hd.modifyAttributes _ fun e he =>
      ⟨he.name, fun a ha => ?_, Attributes.nodup_put he.distinct _ _⟩
    rcases Attributes.mem_put ha with rfl | ha
    · exact isValidName_of_checkName hname
    · exact he.attributes a ha
  | removeAttribute id name =>
    refine hd.modifyAttributes id fun e he => ?_
    have hsublist := Attributes.erase_sublist name e.attributes
    exact ⟨he.name, fun a ha => he.attributes a (hsublist.subset ha),
      he.distinct.sublist (hsublist.map _)⟩
  | detach id =>
    intro c e hc
    rw [kind?_detach] at hc
    exact hd c e hc

theorem Named.empty : empty.Named := by
  intro id e h
  cases id <;> cases h

theorem Step.root (h : d.Step d') : d'.root = d.root := by
  cases h with
  | appendElement _ h => rw [(appendElement_ok h).1, push]
  | appendText | appendComment | removeAttribute => rfl
  | setAttribute h => rw [setAttribute_ok h, modifyAttributes]
  | detach id =>
    rw [Document.detach]
    split <;> rfl

theorem Steps.named (h : d.Steps d') (hd : d.Named) : d'.Named := by
  induction h with
  | refl => exact hd
  | tail _ step ih => exact step.named ih

theorem Steps.root (h : d.Steps d') : d'.root = d.root := by
  induction h with
  | refl => rfl
  | tail _ step ih => rw [step.root, ih]

/-! ## Walks -/

/-- The second node is a child of the first. -/
def Child (d : Document) (p c : NodeId) : Prop := c ∈ d.children p

/-- The second node is reached from the first, down from children to children. -/
abbrev Below (d : Document) : NodeId → NodeId → Prop := Relation.TransGen d.Child

namespace Linked

/-- A way down goes to greater numbers, up to the last one. -/
theorem below (h : d.Linked) {above below : NodeId} (hb : d.Below above below) :
    above < below ∧ below < d.nodes.size := by
  induction hb with
  | single hc =>
    have hparent := h.mem_children.mp hc
    exact ⟨h.lt hparent, lt_size_of_parent? hparent⟩
  | tail _ hc ih =>
    have hparent := h.mem_children.mp hc
    exact ⟨Nat.lt_trans ih.1 (h.lt hparent), lt_size_of_parent? hparent⟩

/-- No walk up goes on for ever. -/
theorem wellFounded_parent (h : d.Linked) : WellFounded fun p c => d.parent? c = some p :=
  Subrelation.wf h.lt Nat.lt_wfRel.wf

/-- No walk down goes on for ever: what is left of the arena behind the node gets less. -/
theorem wellFounded_child (h : d.Linked) : WellFounded fun c p => d.Child p c := by
  refine Subrelation.wf ?_ (measure fun id => d.nodes.size - id).wf
  intro c p hc
  obtain ⟨hlt, hsize⟩ := h.below (.single hc)
  exact Nat.sub_lt_sub_left (Nat.lt_trans hlt hsize) hlt

theorem finite_below (h : d.Linked) (id : NodeId) : {below | d.Below id below}.Finite :=
  (Set.finite_lt_nat d.nodes.size).subset fun _ hb => (h.below hb).2

end Linked

/-! ## Every document -/

/-- A text holds one element, with what is in it. -/
theorem exists_of_readTree {source : String} {t : Tree} (h : readTree source = .ok t) :
    ∃ name attributes children, t = .document [.element name attributes children] := by
  obtain ⟨ps, hps, h⟩ := bind_eq_ok h
  obtain ⟨r, hr, h⟩ := bind_eq_ok h
  obtain ⟨ts, hts, h⟩ := bind_eq_ok h
  cases h
  obtain ⟨-, helement⟩ := NestedSound.nil.pieces (pieces_sound hps) hr
  cases r with
  | text | comment | instruction => cases helement
  | element tag rs =>
    obtain ⟨inner, name, written, children, -, rfl⟩ := exists_of_resolve_element hts
    exact ⟨name, written.putAll [], children, rfl⟩

/-- There is a node besides that of the document itself. -/
theorem Reachable.one_lt_size (h : d.Reachable) : 1 < d.nodes.size := by
  induction h with
  | ofName h =>
    obtain ⟨⟨d₁, id⟩, happend, h⟩ := bind_eq_ok h
    obtain ⟨rfl, rfl⟩ := appendElement_ok happend
    cases h
    exact Nat.lt_of_lt_of_eq (Nat.lt_succ_self 1) (size_push empty _ _).symm
  | read h =>
    obtain ⟨t, ht, h⟩ := bind_eq_ok h
    obtain ⟨name, attributes, children, rfl⟩ := exists_of_readTree ht
    obtain ⟨d₁, happend, h⟩ := bind_eq_ok h
    cases h
    obtain ⟨⟨d₂, id⟩, hstart, happend⟩ := bind_eq_ok happend
    obtain ⟨d₃, hset, hchildren⟩ := bind_eq_ok happend
    obtain ⟨rfl, rfl⟩ := appendElement_ok hstart
    have hset := (steps_setAttributes attributes hset).size_le
    exact Nat.lt_of_lt_of_le hset (steps_appendAll children hset hchildren).size_le
  | appendElement _ hparent h ih =>
    exact Nat.lt_of_lt_of_le ih (Step.appendElement hparent h).size_le
  | appendText content _ hparent ih =>
    exact Nat.lt_of_lt_of_le ih (Step.appendText content hparent).size_le
  | appendComment content _ hparent ih =>
    exact Nat.lt_of_lt_of_le ih (Step.appendComment content hparent).size_le
  | setAttribute _ h ih => exact Nat.lt_of_lt_of_le ih (Step.setAttribute h).size_le
  | removeAttribute id name _ ih =>
    exact Nat.lt_of_lt_of_le ih (Step.removeAttribute id name).size_le
  | detach id _ ih => exact Nat.lt_of_lt_of_le ih (Step.detach id).size_le

/-- In every document that can be made, parents and children agree, no node is listed twice, and
a child has a greater number than its parent.  No walk up or down goes on for ever or comes back
to where it was, and below a node there are finitely many.  The document's own node has no parent,
all numbers that are stored are numbers of nodes, and the names of elements and attributes are
valid, those of the attributes of an element all different. -/
theorem nodes_form_a_forest (h : d.Reachable) :
    (∀ p c, c ∈ d.children p ↔ d.parent? c = some p) ∧
    (∀ p, (d.children p).Nodup) ∧
    (∀ p c, c ∈ d.children p → p < c) ∧
    (WellFounded fun p c => d.parent? c = some p) ∧
    (WellFounded fun c p => d.Child p c) ∧
    (∀ id, ¬d.Below id id) ∧
    (∀ id, {below | d.Below id below}.Finite) ∧
    d.parent? top = none ∧
    (top < d.nodes.size ∧ d.root < d.nodes.size ∧
      (∀ p c, c ∈ d.children p → c < d.nodes.size) ∧
      ∀ p c, d.parent? c = some p → p < d.nodes.size) ∧
    ∀ id e, d.kind? id = some (.element e) →
      isValidName e.name ∧ (∀ a ∈ e.attributes, isValidName a.1) ∧ e.attributes.names.Nodup := by
  have hlinked := h.linked
  have hsize := h.one_lt_size
  have lt {p c : NodeId} (hc : c ∈ d.children p) : p < c ∧ c < d.nodes.size :=
    hlinked.below (.single hc)
  refine ⟨fun p c => hlinked.mem_children, hlinked.nodup, fun p c hc => (lt hc).1,
    hlinked.wellFounded_parent, hlinked.wellFounded_child, ?_, hlinked.finite_below, ?_,
    ⟨Nat.lt_of_succ_lt hsize, ?_, fun p c hc => (lt hc).2, ?_⟩, ?_⟩
  · exact fun id hb => Nat.lt_irrefl _ (hlinked.below hb).1
  · cases htop : d.parent? top with
    | none => rfl
    | some p => exact absurd (hlinked.lt htop) (Nat.not_lt_zero _)
  · rw [h.steps.root]
    exact hsize
  · intro p c hc
    obtain ⟨hlt, hlast⟩ := lt (hlinked.mem_children.mpr hc)
    exact Nat.lt_trans hlt hlast
  · intro id e he
    have hnamed := h.steps.named .empty id e he
    exact ⟨hnamed.name, hnamed.attributes, hnamed.distinct⟩

/-- An element below a text that has been detached. -/
theorem nodes_form_a_forest_below_text :
    let element (name : String) : NodeKind := .element ⟨name, []⟩
    let whole := ((empty.push 0 (element "a")).push 1 (.text "t")).push 2 (element "b")
    let d := whole.detach 2
    d.Reachable ∧ d.kind? 2 = some (.text "t") ∧ d.parent? 2 = none ∧ d.children 2 = [3] ∧
      ¬d.Below 3 3 ∧ {below | d.Below 2 below}.Finite ∧ d.parent? top = none := by
  intro element whole d
  have ha : ofName "a" = .ok (empty.push 0 (element "a")) := rfl
  have hb : ((empty.push 0 (element "a")).push 1 (.text "t")).appendElement 2 "b" =
    .ok (whole, 3) := rfl
  have hd : d.Reachable :=
    .detach 2 (.appendElement (.appendText "t" (.ofName ha) (by decide)) (by decide) hb)
  obtain ⟨-, -, -, -, -, acyclic, finite, root, -⟩ := nodes_form_a_forest hd
  exact ⟨hd, by decide, by decide, by decide, acyclic 3, finite 2, root⟩

end Document

end PatchScript.Xml
