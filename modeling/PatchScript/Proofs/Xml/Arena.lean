import PatchScript.Proofs.Reading
import PatchScript.Xml.Reader
import Mathlib.Data.List.Nodup

/-!
# The arena of a document

A document keeps for every node its parent and for every node its children.  `Linked`
says that the two agree, that no node is listed twice, and that a child is made after
its parent.  Every document that can be made is linked (`Reachable.linked`): an operation
changes the parent of at most one node and the children of at most one other, and both
ends of the link at once.
-/

namespace PatchScript.Xml

namespace Document

/-- The links between nodes agree. -/
structure Linked (d : Document) : Prop where
  /-- A node is among the children of its parent, and of no other node. -/
  mem_children {p c : NodeId} : c ∈ d.children p ↔ d.parent? c = some p
  /-- No node is listed twice. -/
  nodup (p : NodeId) : (d.children p).Nodup
  /-- A node is made after its parent. -/
  lt {p c : NodeId} : d.parent? c = some p → p < c

/-- Only nodes of the arena have parents. -/
theorem lt_size_of_parent? {d : Document} {p c : NodeId} (h : d.parent? c = some p) :
    c < d.nodes.size := by
  rw [parent?] at h
  cases hn : d.nodes[c]? with
  | none => rw [hn] at h; cases h
  | some n => exact (Array.getElem?_eq_some_iff.mp hn).1

/-- Only nodes of the arena are of a kind. -/
theorem lt_size_of_kind? {d : Document} {id : NodeId} {kind : NodeKind}
    (h : d.kind? id = some kind) : id < d.nodes.size := by
  obtain ⟨n, hn, -⟩ := Option.map_eq_some_iff.mp h
  exact (Array.getElem?_eq_some_iff.mp hn).1

/-! ## What the operations change -/

theorem size_push (d : Document) (parent : NodeId) (kind : NodeKind) :
    (d.push parent kind).nodes.size = d.nodes.size + 1 := by
  simp [push]

theorem parent?_push {d : Document} {parent : NodeId} (kind : NodeKind) (c : NodeId)
    (hp : parent < d.nodes.size) :
    (d.push parent kind).parent? c = if c = d.nodes.size then some parent else d.parent? c := by
  unfold push parent?
  simp only [Array.getElem?_modify, Array.getElem?_push]
  by_cases hc : c = d.nodes.size
  · subst hc
    simp [Nat.ne_of_lt hp]
  · by_cases hpc : parent = c
    · subst hpc
      simp only [hc, if_false, if_true]
      cases d.nodes[parent]? <;> rfl
    · simp [hc, hpc]

theorem children_push {d : Document} {parent : NodeId} (kind : NodeKind) (p : NodeId)
    (hp : parent < d.nodes.size) :
    (d.push parent kind).children p =
      if p = parent then d.children p ++ [d.nodes.size] else d.children p := by
  unfold push children
  simp only [Array.getElem?_modify, Array.getElem?_push]
  by_cases hpp : p = parent
  · subst hpp
    simp [Nat.ne_of_lt hp, hp]
  · have hne : parent ≠ p := fun h => hpp h.symm
    by_cases hc : p = d.nodes.size
    · subst hc
      simp [hne, hpp]
    · simp [hc, hne, hpp]

theorem size_modifyAttributes (d : Document) (id : NodeId) (f : Attributes → Attributes) :
    (d.modifyAttributes id f).nodes.size = d.nodes.size := by
  simp [modifyAttributes]

theorem parent?_modifyAttributes (d : Document) (id : NodeId) (f : Attributes → Attributes)
    (c : NodeId) : (d.modifyAttributes id f).parent? c = d.parent? c := by
  unfold modifyAttributes parent?
  rw [Array.getElem?_modify]
  split
  · cases d.nodes[c]? with
    | none => rfl
    | some n => cases hk : n.kind <;> simp [hk]
  · rfl

theorem children_modifyAttributes (d : Document) (id : NodeId) (f : Attributes → Attributes)
    (p : NodeId) : (d.modifyAttributes id f).children p = d.children p := by
  unfold modifyAttributes children
  rw [Array.getElem?_modify]
  split
  · cases d.nodes[p]? with
    | none => rfl
    | some n => cases hk : n.kind <;> simp [hk]
  · rfl

theorem parent?_detach {d : Document} {id p : NodeId} (h : d.parent? id = some p) (c : NodeId) :
    (d.detach id).parent? c = if c = id then none else d.parent? c := by
  rw [detach]
  rw [h]
  unfold parent?
  simp only [Array.getElem?_modify]
  by_cases hc : c = id
  · subst hc
    cases d.nodes[c]? with
    | none => simp
    | some n => split <;> simp
  · have hne : id ≠ c := fun he => hc he.symm
    rw [if_neg hc, if_neg hne]
    cases d.nodes[c]? with
    | none => simp
    | some n => split <;> simp

theorem children_detach {d : Document} {id p : NodeId} (h : d.parent? id = some p)
    (x : NodeId) : (d.detach id).children x =
      if x = p then (d.children x).filter (· != id) else d.children x := by
  rw [detach]
  rw [h]
  unfold children
  simp only [Array.getElem?_modify]
  by_cases hx : x = p
  · subst hx
    cases d.nodes[x]? with
    | none => simp
    | some n => by_cases hi : id = x <;> simp [hi]
  · have hne : p ≠ x := fun he => hx he.symm
    rw [if_neg hx, if_neg hne]
    cases d.nodes[x]? with
    | none => simp
    | some n => split <;> simp

theorem detach_eq_self {d : Document} {id : NodeId} (h : d.parent? id = none) :
    d.detach id = d := by
  rw [detach]
  rw [h]

/-! ## Linked documents -/

theorem Linked.of_eq {d d' : Document} (h : d.Linked)
    (hchildren : ∀ p, d'.children p = d.children p) (hparent : ∀ c, d'.parent? c = d.parent? c) :
    d'.Linked where
  mem_children {p c} := by
    rw [hchildren, hparent]
    exact h.mem_children
  nodup p := by
    rw [hchildren]
    exact h.nodup p
  lt {p c} hp := by
    rw [hparent] at hp
    exact h.lt hp

theorem Linked.push {d : Document} (h : d.Linked) {parent : NodeId} (kind : NodeKind)
    (hp : parent < d.nodes.size) : (d.push parent kind).Linked := by
  -- The new number is nobody's child yet, since children are in the arena.
  have fresh (p : NodeId) : d.nodes.size ∉ d.children p := fun hmem =>
    absurd (lt_size_of_parent? (h.mem_children.mp hmem)) (Nat.lt_irrefl _)
  refine ⟨?_, ?_, ?_⟩
  · intro p c
    rw [children_push kind p hp, parent?_push kind c hp]
    by_cases hc : c = d.nodes.size
    · subst hc
      by_cases hpp : p = parent
      · simp [hpp]
      · simp [hpp, fresh p, Ne.symm hpp]
    · by_cases hpp : p = parent
      · simp [hpp, hc, h.mem_children]
      · simp [hpp, hc, h.mem_children]
  · intro p
    rw [children_push kind p hp]
    split
    · refine List.nodup_append.mpr ⟨h.nodup p, List.nodup_singleton _, ?_⟩
      intro a ha b hb hab
      rw [hab, List.mem_singleton.mp hb] at ha
      exact fresh p ha
    · exact h.nodup p
  · intro p c hpc
    rw [parent?_push kind c hp] at hpc
    split at hpc
    · rename_i hc
      cases hpc
      rw [hc]
      exact hp
    · exact h.lt hpc

theorem Linked.modifyAttributes {d : Document} (h : d.Linked) (id : NodeId)
    (f : Attributes → Attributes) : (d.modifyAttributes id f).Linked :=
  h.of_eq (children_modifyAttributes d id f) (parent?_modifyAttributes d id f)

theorem Linked.detach {d : Document} (h : d.Linked) (id : NodeId) : (d.detach id).Linked := by
  cases hid : d.parent? id with
  | none =>
    rw [detach_eq_self hid]
    exact h
  | some parent =>
    refine ⟨?_, ?_, ?_⟩
    · intro p c
      rw [children_detach hid, parent?_detach hid]
      by_cases hc : c = id
      · subst hc
        by_cases hp : p = parent
        · simp [hp]
        · simp only [hp, if_false, if_true, h.mem_children, hid]
          simp [Ne.symm hp]
      · by_cases hp : p = parent
        · simp [hp, hc, h.mem_children]
        · simp [hp, hc, h.mem_children]
    · intro p
      rw [children_detach hid]
      split
      · exact (h.nodup p).filter _
      · exact h.nodup p
    · intro p c hpc
      rw [parent?_detach hid] at hpc
      split at hpc
      · cases hpc
      · exact h.lt hpc

theorem Linked.empty : empty.Linked := by
  have parent (c : NodeId) : Document.empty.parent? c = none := by
    cases c with
    | zero => rfl
    | succ c => rfl
  have children (p : NodeId) : Document.empty.children p = [] := by
    cases p with
    | zero => rfl
    | succ p => rfl
  refine ⟨?_, ?_, ?_⟩
  · intro p c
    simp [parent, children]
  · intro p
    simp [children]
  · intro p c h
    rw [parent] at h
    cases h

/-! ## Documents that can be made -/

/-- The documents that the operations make: a new one, one that is read, and what the
changes make of these at nodes that there are. -/
inductive Reachable : Document → Prop where
  | ofName {name : String} {d : Document} : ofName name = .ok d → Reachable d
  | read {source : String} {d : Document} : Document.read source = .ok d → Reachable d
  | appendElement {d d' : Document} {parent id : NodeId} {name : String} : Reachable d →
    parent < d.nodes.size → d.appendElement parent name = .ok (d', id) → Reachable d'
  | appendText {d : Document} {parent : NodeId} (content : String) : Reachable d →
    parent < d.nodes.size → Reachable (d.appendText parent content).1
  | appendComment {d : Document} {parent : NodeId} (content : String) : Reachable d →
    parent < d.nodes.size → Reachable (d.appendComment parent content).1
  | setAttribute {d d' : Document} {id : NodeId} {name value : String} : Reachable d →
    d.setAttribute id name value = .ok d' → Reachable d'
  | removeAttribute {d : Document} (id : NodeId) (name : String) : Reachable d →
    Reachable (d.removeAttribute id name)
  | detach {d : Document} (id : NodeId) : Reachable d → Reachable (d.detach id)

/-- A new element is pushed to the end of the arena. -/
theorem appendElement_ok {d d' : Document} {parent id : NodeId} {name : String}
    (h : d.appendElement parent name = .ok (d', id)) :
    d' = d.push parent (.element ⟨name, []⟩) ∧ id = d.nodes.size := by
  rw [appendElement, checkName] at h
  split at h
  · cases h
    exact ⟨rfl, rfl⟩
  · cases h

theorem setAttribute_ok {d d' : Document} {id : NodeId} {name value : String}
    (h : d.setAttribute id name value = .ok d') :
    d' = d.modifyAttributes id (·.put name value) := by
  rw [setAttribute, checkName] at h
  split at h
  · cases h
    rfl
  · cases h

/-- The document is linked, and it has all the nodes that another has. -/
structure Extends (d d' : Document) : Prop where
  linked : d'.Linked
  size : d.nodes.size ≤ d'.nodes.size

theorem extends_attributes {id : NodeId} : ∀ (attributes : Attributes) {d d' : Document},
    d.Linked → attributes.foldlM (fun d a => d.setAttribute id a.1 a.2) d = .ok d' →
    d.Extends d' := by
  intro attributes
  induction attributes with
  | nil =>
    intro d d' hd h
    cases h
    exact ⟨hd, Nat.le_refl _⟩
  | cons a attributes ih =>
    intro d d' hd h
    rw [List.foldlM_cons] at h
    obtain ⟨d₁, hset, h⟩ := bind_eq_ok h
    have hd₁ := setAttribute_ok hset
    have rest := ih (hd₁ ▸ hd.modifyAttributes id _) h
    refine ⟨rest.linked, ?_⟩
    have hsize := rest.size
    rwa [hd₁, size_modifyAttributes] at hsize

mutual

theorem extends_append : ∀ (t : Tree) {d d' : Document} {parent : NodeId}, d.Linked →
    parent < d.nodes.size → d.append parent t = .ok d' → d.Extends d'
  | .document children, _, _, _, hd, hp, h => extends_appendAll children hd hp h
  | .text content, _, _, _, hd, hp, h => by
    cases h
    exact ⟨hd.push _ hp, by rw [appendText, size_push]; exact Nat.le_succ _⟩
  | .comment content, _, _, _, hd, hp, h => by
    cases h
    exact ⟨hd.push _ hp, by rw [appendComment, size_push]; exact Nat.le_succ _⟩
  | .element name attributes children, d, d', parent, hd, hp, h => by
    rw [append] at h
    obtain ⟨⟨d₁, id⟩, happend, hrest⟩ := bind_eq_ok h
    obtain ⟨d₂, hset, hchildren⟩ := bind_eq_ok hrest
    obtain ⟨rfl, rfl⟩ := appendElement_ok happend
    have made := extends_attributes attributes (hd.push _ hp) hset
    have hsize := made.size
    rw [size_push] at hsize
    have rest := extends_appendAll children made.linked hsize hchildren
    exact ⟨rest.linked, Nat.le_trans (Nat.le_of_succ_le hsize) rest.size⟩

/-- The trees of a text are added to a linked document. -/
theorem extends_appendAll : ∀ (ts : List Tree) {d d' : Document} {parent : NodeId}, d.Linked →
    parent < d.nodes.size → d.appendAll parent ts = .ok d' → d.Extends d'
  | [], _, _, _, hd, _, h => by
    cases h
    exact ⟨hd, Nat.le_refl _⟩
  | t :: ts, d, d', parent, hd, hp, h => by
    rw [appendAll] at h
    obtain ⟨d₁, happend, h⟩ := bind_eq_ok h
    have first := extends_append t hd hp happend
    have rest := extends_appendAll ts first.linked (Nat.lt_of_lt_of_le hp first.size) h
    exact ⟨rest.linked, Nat.le_trans first.size rest.size⟩

end

theorem empty_size : top < empty.nodes.size := Nat.zero_lt_one

/-- Every document that can be made is linked. -/
theorem Reachable.linked {d : Document} (h : d.Reachable) : d.Linked := by
  induction h with
  | ofName h =>
    obtain ⟨⟨d₁, id⟩, happend, h⟩ := bind_eq_ok h
    obtain ⟨rfl, rfl⟩ := appendElement_ok happend
    cases h
    exact Linked.empty.push _ empty_size
  | read h =>
    obtain ⟨t, -, h⟩ := bind_eq_ok h
    exact (extends_append t .empty empty_size h).linked
  | appendElement _ hp h ih =>
    obtain ⟨rfl, -⟩ := appendElement_ok h
    exact ih.push _ hp
  | appendText _ _ hp ih => exact ih.push _ hp
  | appendComment _ _ hp ih => exact ih.push _ hp
  | setAttribute _ h ih =>
    rw [setAttribute_ok h]
    exact ih.modifyAttributes _ _
  | removeAttribute id name _ ih => exact ih.modifyAttributes id _
  | detach id _ ih => exact ih.detach id

end Document

end PatchScript.Xml
