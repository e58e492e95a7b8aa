import PatchScript.Proofs.Xml.Growth
import PatchScript.Proofs.Xml.Order

/-!
# Documents that grow under an element

Attributes that are set and removed and elements that are appended at an element, and at what is
under it, let the document grow there and nowhere else (`Document.GrowsUnder`).  What is under an
element then is what was under it before and what is new, so that growth under one element is
growth under every element above it, and growth that goes on stays where it is.
-/

namespace PatchScript.Xml

namespace Document

variable {a b c d d' : Document} {id : NodeId}

/-- The second document comes from the first one by changes at an element and under it, and nothing
is taken away. -/
structure GrowsUnder (id : NodeId) (d d' : Document) : Prop extends d.Grows d' where
  /-- A node that is not under the element is the same in all that there is to it. -/
  outside {x : NodeId} : x < d.nodes.size → ¬ d.Under id x → d'.nodes[x]? = d.nodes[x]?
  /-- Every node has the parent that it had. -/
  attached {x : NodeId} : x < d.nodes.size → d'.parent? x = d.parent? x
  /-- What is new is under the element. -/
  inside {x : NodeId} : d.nodes.size ≤ x → x < d'.nodes.size → d'.Under id x

namespace GrowsUnder

theorem refl (d : Document) (id : NodeId) : GrowsUnder id d d where
  toGrows := .refl d
  outside _ _ := rfl
  attached _ := rfl
  inside hle hlt := absurd hlt (Nat.not_lt.mpr hle)

/-- The nodes that there were are under the same nodes. -/
theorem under_iff (h : GrowsUnder id d d') (hd : d.Linked) (hd' : d'.Linked) {e x : NodeId}
    (hx : x < d.nodes.size) : d'.Under e x ↔ d.Under e x := by
  constructor
  · intro hunder
    induction hunder with
    | refl => exact .refl _
    | @tail p x _ hpx ih =>
      have hparent := hd'.mem_children.mp hpx
      rw [h.attached hx] at hparent
      exact (ih (Nat.lt_trans (hd.lt hparent) hx)).trans (.child (hd.mem_children.mpr hparent))
  · intro hunder
    induction hunder with
    | refl => exact .refl _
    | @tail p x _ hpx ih =>
      have hparent := hd.mem_children.mp hpx
      have hp := Nat.lt_trans (hd.lt hparent) hx
      rw [← h.attached hx] at hparent
      exact (ih hp).trans (.child (hd'.mem_children.mpr hparent))

theorem trans (hab : GrowsUnder id a b) (hbc : GrowsUnder id b c) (ha : a.Linked) (hb : b.Linked)
    (hc : c.Linked) : GrowsUnder id a c where
  toGrows := hab.toGrows.trans hbc.toGrows
  outside {x} hx hunder := by
    have hout := (hab.under_iff ha hb hx).not.mpr hunder
    rw [hbc.outside (Nat.lt_of_lt_of_le hx hab.size) hout, hab.outside hx hunder]
  attached {x} hx := by
    rw [hbc.attached (Nat.lt_of_lt_of_le hx hab.size), hab.attached hx]
  inside {x} hle hlt := by
    rcases Nat.lt_or_ge x b.nodes.size with hx | hx
    · exact (hbc.under_iff hb hc hx).mpr (hab.inside hle hx)
    · exact hbc.inside hx hlt

/-- Growth under an element is growth under every element above it. -/
theorem above (h : GrowsUnder id d d') (hd : d.Linked) (hd' : d'.Linked) {e : NodeId}
    (he : d.Under e id) (hid : id < d.nodes.size) : GrowsUnder e d d' where
  toGrows := h.toGrows
  outside hx hunder := h.outside hx fun hin => hunder (he.trans hin)
  attached := h.attached
  inside hle hlt := ((h.under_iff hd hd' hid).mpr he).trans (h.inside hle hlt)

/-- Nothing loses its parent. -/
theorem parent?_eq_none (h : GrowsUnder id d d') (hd' : d'.Linked) (hid : id < d.nodes.size)
    {x : NodeId} (hx : x < d'.nodes.size) (hnone : d'.parent? x = none) :
    x < d.nodes.size ∧ d.parent? x = none := by
  rcases Nat.lt_or_ge x d.nodes.size with hlt | hge
  · exact ⟨hlt, (h.attached hlt).symm.trans hnone⟩
  · rcases (h.inside hge hx).cases_parent hd' with rfl | ⟨p, hp, -⟩
    · exact absurd hid (Nat.not_lt.mpr hge)
    · rw [hnone] at hp
      cases hp

/-! ### Single changes -/

theorem modifyAttributes (d : Document) (id : NodeId) (f : Attributes → Attributes) :
    GrowsUnder id d (d.modifyAttributes id f) where
  toGrows := .modifyAttributes d id f
  outside {x} _ hunder := by
    rw [getElem?_modifyAttributes, if_neg]
    rintro rfl
    exact hunder (.refl _)
  attached _ := parent?_modifyAttributes d id f _
  inside {x} hle hlt := by
    rw [size_modifyAttributes] at hlt
    exact absurd hlt (Nat.not_lt.mpr hle)

theorem push (hid : id < d.nodes.size) (kind : NodeKind) : GrowsUnder id d (d.push id kind) where
  toGrows := .push d id kind
  outside {x} hx hunder := by
    have hne : id ≠ x := by
      rintro rfl
      exact hunder (.refl _)
    unfold Document.push
    simp only [Array.getElem?_modify, Array.getElem?_push, if_neg hne, if_neg (Nat.ne_of_lt hx)]
  attached hx := parent?_push_of_lt kind hx
  inside {x} hle hlt := by
    rw [size_push] at hlt
    obtain rfl := Nat.le_antisymm (Nat.le_of_lt_succ hlt) hle
    refine .child ?_
    rw [children_push_of_lt kind hid, if_pos rfl]
    exact List.mem_append_right _ (List.mem_singleton_self _)

end GrowsUnder

end Document

end PatchScript.Xml
