import PatchScript.Proofs.Xml.Shape

/-!
# How a document evolves

A document is changed in four ways: attributes are set and removed, elements are appended, and
nodes are taken from their parents.  None of these renames a node, moves it or brings it back.
`Document.Evolves` says so of two states of a document.  It holds of every single change and is
transitive, so it holds of any number of changes.

Nothing has to be known of the document: the links between its nodes need not even agree.
-/

namespace PatchScript.Xml

/-- What a node is, its attributes left out. -/
def NodeKind.bare (kind : NodeKind) : NodeKind := kind.mapAttributes fun _ => []

@[simp] theorem NodeKind.bare_mapAttributes (kind : NodeKind) (f : Attributes → Attributes) :
    (kind.mapAttributes f).bare = kind.bare := by
  cases kind <;> rfl

namespace Document

/-! ## Old nodes under a push -/

theorem parent?_push_of_lt {d : Document} {parent c : NodeId} (kind : NodeKind)
    (hc : c < d.nodes.size) : (d.push parent kind).parent? c = d.parent? c := by
  unfold push parent?
  simp only [Array.getElem?_modify, Array.getElem?_push, if_neg (Nat.ne_of_lt hc)]
  split
  · cases d.nodes[c]? <;> rfl
  · rfl

theorem children_push_of_lt {d : Document} {parent p : NodeId} (kind : NodeKind)
    (hp : p < d.nodes.size) : (d.push parent kind).children p =
      if p = parent then d.children p ++ [d.nodes.size] else d.children p := by
  unfold push children
  simp only [Array.getElem?_modify, Array.getElem?_push, if_neg (Nat.ne_of_lt hp)]
  by_cases hparent : p = parent
  · subst hparent
    simp [hp]
  · simp [hparent, Ne.symm hparent]

/-! ## Evolution -/

/-- The second document comes from the first one without a node being renamed, moved or brought
back. -/
structure Evolves (d d' : Document) : Prop where
  /-- No node is gone. -/
  size : d.nodes.size ≤ d'.nodes.size
  /-- A node is what it was, with the same name or content.  Only attributes may differ. -/
  kind {id : NodeId} : id < d.nodes.size →
    (d'.kind? id).map NodeKind.bare = (d.kind? id).map NodeKind.bare
  /-- A node has the parent that it had, or none.  One that had none still has none. -/
  parent {id : NodeId} : id < d.nodes.size →
    d'.parent? id = d.parent? id ∨ d'.parent? id = none
  /-- Of the children some are left, in the order that they had, and behind them are new nodes
  only. -/
  children {id : NodeId} : id < d.nodes.size → ∃ kept made, d'.children id = kept ++ made ∧
    kept.Sublist (d.children id) ∧ ∀ c ∈ made, d.nodes.size ≤ c ∧ c < d'.nodes.size

namespace Evolves

variable {a b c d d' : Document}

theorem refl (d : Document) : d.Evolves d where
  size := Nat.le_refl _
  kind _ := rfl
  parent _ := .inl rfl
  children {id} _ := ⟨d.children id, [], by simp, .refl _, by simp⟩

/-- What was left of the children is left of them again, and what was new then is new. -/
theorem trans (hab : a.Evolves b) (hbc : b.Evolves c) : a.Evolves c where
  size := Nat.le_trans hab.size hbc.size
  kind hid := (hbc.kind (Nat.lt_of_lt_of_le hid hab.size)).trans (hab.kind hid)
  parent {id} hid := by
    rcases hbc.parent (Nat.lt_of_lt_of_le hid hab.size) with hsame | hnone
    · rw [hsame]
      exact hab.parent hid
    · exact .inr hnone
  children {id} hid := by
    obtain ⟨kept, made, hchildren, hkept, hmade⟩ := hab.children hid
    obtain ⟨kept', made', hchildren', hkept', hmade'⟩ :=
      hbc.children (Nat.lt_of_lt_of_le hid hab.size)
    rw [hchildren] at hkept'
    obtain ⟨old, new, rfl, hold, hnew⟩ := List.sublist_append_iff.mp hkept'
    refine ⟨old, new ++ made', by rw [hchildren', List.append_assoc], hold.trans hkept, ?_⟩
    intro x hx
    rcases List.mem_append.mp hx with hx | hx
    · obtain ⟨hle, hlt⟩ := hmade x (hnew.subset hx)
      exact ⟨hle, Nat.lt_of_lt_of_le hlt hbc.size⟩
    · obtain ⟨hle, hlt⟩ := hmade' x hx
      exact ⟨Nat.le_trans hab.size hle, hlt⟩

instance : Trans Evolves Evolves Evolves := ⟨trans⟩

/-! ### Single changes -/

theorem modifyAttributes (d : Document) (id : NodeId) (f : Attributes → Attributes) :
    d.Evolves (d.modifyAttributes id f) where
  size := by rw [size_modifyAttributes]
  kind {c} _ := by
    rw [kind?_modifyAttributes]
    split
    · cases d.kind? c <;> simp
    · rfl
  parent {c} _ := .inl (parent?_modifyAttributes d id f c)
  children {c} _ := ⟨d.children c, [], by simp [children_modifyAttributes], .refl _, by simp⟩

theorem setAttribute {id : NodeId} {name value : String}
    (h : d.setAttribute id name value = .ok d') : d.Evolves d' := by
  rw [setAttribute_ok h]
  exact modifyAttributes d id _

theorem removeAttribute (d : Document) (id : NodeId) (name : String) :
    d.Evolves (d.removeAttribute id name) := modifyAttributes d id _

theorem push (d : Document) (parent : NodeId) (kind : NodeKind) :
    d.Evolves (d.push parent kind) where
  size := by simp [size_push]
  kind {c} hc := by rw [kind?_push, if_neg (Nat.ne_of_lt hc)]
  parent {c} hc := .inl (parent?_push_of_lt kind hc)
  children {p} hp := by
    rw [children_push_of_lt kind hp, size_push]
    split
    · exact ⟨d.children p, [d.nodes.size], rfl, .refl _, by simp⟩
    · exact ⟨d.children p, [], by simp, .refl _, by simp⟩

theorem appendElement {parent id : NodeId} {name : String}
    (h : d.appendElement parent name = .ok (d', id)) : d.Evolves d' := by
  rw [(appendElement_ok h).1]
  exact push d parent _

theorem detach (d : Document) (id : NodeId) : d.Evolves (d.detach id) := by
  cases hid : d.parent? id with
  | none =>
    rw [detach_eq_self hid]
    exact .refl d
  | some p =>
    refine ⟨by rw [size_detach], ?_, ?_, ?_⟩
    · intro c _
      rw [kind?_detach]
    · intro c _
      rw [parent?_detach hid]
      split
      · exact .inr rfl
      · exact .inl rfl
    · intro c _
      refine ⟨(d.detach id).children c, [], by simp, ?_, by simp⟩
      rw [children_detach hid]
      split
      · exact List.filter_sublist
      · exact .refl _

theorem detachAll : ∀ (ids : List NodeId) (d : Document), d.Evolves (ids.foldl Document.detach d)
  | [], d => .refl d
  | id :: ids, d => (detach d id).trans (detachAll ids (d.detach id))

end Evolves

end Document

end PatchScript.Xml
