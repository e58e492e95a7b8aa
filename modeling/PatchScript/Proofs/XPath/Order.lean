import PatchScript.Proofs.Xml.Order
import PatchScript.XPath.Value

/-!
# Node sets in document order

A set of nodes is kept as a list in document order.  The order is told by keys, which a
view computes once from the walk through its tree, and repeated nodes are dropped where
they are neighbours.  Both are right for nodes of the tree: their keys are in the order
of the tree, and nodes with the same key are the same (`inOrder_pairwise`).
-/

namespace PatchScript.XPath

open Xml (Document NodeId)

/-! ## Dropping neighbours -/

section

variable {α : Type} [DecidableEq α]

theorem eraseReps_loop (a : α) (as before : List α) :
    List.eraseRepsBy.loop (· == ·) a as before =
      before.reverse ++ List.eraseRepsBy.loop (· == ·) a as [] := by
  induction as generalizing a before with
  | nil => simp [List.eraseRepsBy.loop]
  | cons b as ih =>
    rw [List.eraseRepsBy.loop, List.eraseRepsBy.loop]
    split
    · exact ih a before
    · rw [ih b (a :: before), ih b [a]]
      simp

theorem eraseReps_cons_cons (a b : α) (as : List α) :
    (a :: b :: as).eraseReps =
      if a = b then (a :: as).eraseReps else a :: (b :: as).eraseReps := by
  show List.eraseRepsBy.loop (· == ·) a (b :: as) [] = _
  rw [List.eraseRepsBy.loop]
  by_cases h : a = b
  · rw [if_pos h, beq_iff_eq.mpr h]
    rfl
  · rw [if_neg h, beq_eq_false_iff_ne.mpr h]
    dsimp only
    rw [eraseReps_loop]
    rfl

theorem mem_eraseReps {x : α} (as : List α) : x ∈ as.eraseReps ↔ x ∈ as := by
  cases as with
  | nil => rfl
  | cons a as =>
    induction as generalizing a with
    | nil => rfl
    | cons b as ih =>
      rw [eraseReps_cons_cons]
      split
      · rename_i h
        subst h
        rw [ih a]
        simp
      · rw [List.mem_cons, ih b, ← List.mem_cons]

/-- Where nothing is repeated, nothing is dropped. -/
theorem eraseReps_eq_self (as : List α) (h : as.Nodup) : as.eraseReps = as := by
  cases as with
  | nil => rfl
  | cons a as =>
    induction as generalizing a with
    | nil => rfl
    | cons b as ih =>
      obtain ⟨ha, hb⟩ := List.nodup_cons.mp h
      have hne : a ≠ b := List.ne_of_not_mem_cons ha
      rw [eraseReps_cons_cons, if_neg hne, ih b hb]

/-- If only equal values are before each other both ways, a list in order has the equal
ones side by side, so dropping neighbours leaves no repetition. -/
theorem eraseReps_pairwise {r : α → α → Prop} (as : List α) (h : as.Pairwise r)
    (antisymm : ∀ a ∈ as, ∀ b ∈ as, r a b → r b a → a = b) :
    as.eraseReps.Pairwise fun a b => r a b ∧ a ≠ b := by
  cases as with
  | nil => exact .nil
  | cons a as =>
    induction as generalizing a with
    | nil => exact List.pairwise_singleton ..
    | cons b as ih =>
      obtain ⟨ha, hb⟩ := List.pairwise_cons.mp h
      rw [eraseReps_cons_cons]
      split
      · rename_i heq
        subst heq
        exact ih a hb fun x hx y hy => antisymm x (List.mem_cons_of_mem _ hx) y
          (List.mem_cons_of_mem _ hy)
      · rename_i hne
        refine List.pairwise_cons.mpr ⟨fun y hy => ?_, ?_⟩
        · have hy := (mem_eraseReps _).mp hy
          refine ⟨ha y hy, ?_⟩
          rintro rfl
          refine hne (antisymm a (List.mem_cons_self ..) b (by simp) (ha b (by simp)) ?_)
          rcases List.mem_cons.mp hy with rfl | hy
          · exact absurd rfl hne
          · exact (List.pairwise_cons.mp hb).1 a hy
        · exact ih b hb fun x hx y hy => antisymm x (List.mem_cons_of_mem _ hx) y
            (List.mem_cons_of_mem _ hy)

end

/-! ## Nodes of a tree -/

/-- The node is in the tree with this topmost node; an attribute is, if its element is
and has it. -/
def InTree (d : Document) (top : NodeId) : Item → Prop
  | .node id => d.Under top id
  | .attribute owner index => d.Under top owner ∧ index < (d.attributes owner).length

/-- Document order: that of the nodes of the document, and within one of these the node
itself, then its attributes by their places. -/
def Before (d : Document) (a b : Item) : Prop :=
  d.Precedes a.id b.id ∨ a.id = b.id ∧ a.slot < b.slot

variable {d : Document} {top : NodeId}

theorem InTree.under {a : Item} (h : InTree d top a) : d.Under top a.id := by
  rcases a with id | ⟨owner, index⟩
  · exact h
  · exact h.1

/-- No node is before itself. -/
theorem Before.irrefl (hd : d.Linked) (a : Item) : ¬ Before d a a := by
  rintro (h | ⟨-, h⟩)
  · exact Document.Precedes.irrefl hd a.id h
  · exact Nat.lt_irrefl _ h

/-- No two nodes are before each other. -/
theorem Before.asymm (hd : d.Linked) {a b : Item} (hab : Before d a b) : ¬ Before d b a := by
  rintro (hba | ⟨hid, hba⟩)
  · rcases hab with hab | ⟨hid, -⟩
    · exact hab.asymm hd hba
    · rw [hid] at hba
      exact Document.Precedes.irrefl hd _ hba
  · rcases hab with hab | ⟨-, hab⟩
    · rw [hid] at hab
      exact Document.Precedes.irrefl hd _ hab
    · exact Nat.lt_asymm hab hba

/-- An element is before its attributes. -/
theorem before_attribute (owner : NodeId) (index : Nat) :
    Before d (.node owner) (.attribute owner index) :=
  .inr ⟨rfl, Nat.succ_pos index⟩

/-- Attributes are before the children of their element. -/
theorem attribute_before_child (hd : d.Linked) {owner child : NodeId} (index : Nat)
    (h : child ∈ d.children owner) : Before d (.attribute owner index) (.node child) := by
  refine .inl (.above ?_ (.child h))
  rintro rfl
  exact Nat.lt_irrefl _ (hd.lt (hd.mem_children.mp h))

/-- A list in document order holds no node twice. -/
theorem nodup_of_before (hd : d.Linked) {items : List Item} (h : items.Pairwise (Before d)) :
    items.Nodup := by
  refine h.imp fun hab heq => ?_
  rw [heq] at hab
  exact Before.irrefl hd _ hab

/-- A node is told by the node of the document it belongs to and its slot. -/
theorem Item.ext_slot {a b : Item} (hid : a.id = b.id) (hslot : a.slot = b.slot) : a = b := by
  rcases a with id | ⟨owner, index⟩ <;> rcases b with id' | ⟨owner', index'⟩
  · exact congrArg Item.node hid
  · cases hslot
  · cases hslot
  · cases hid
    cases hslot
    rfl

/-! ## Keys -/

/-- The places that a view starts from: none, and then the numbers of a list from `k` on. -/
theorem places_foldl (ids : List NodeId) (places : Array (Option Nat)) (k : Nat)
    (hids : ids.Nodup) (hsize : ∀ id ∈ ids, id < places.size) (x : NodeId) :
    ((ids.zipIdx k).foldl
      (fun places (id, place) => places.setIfInBounds id (some place)) places)[x]? =
      if x ∈ ids then some (some (k + ids.idxOf x)) else places[x]? := by
  induction ids generalizing places k with
  | nil => simp
  | cons id ids ih =>
    obtain ⟨hfresh, hids⟩ := List.nodup_cons.mp hids
    rw [List.zipIdx_cons, List.foldl_cons, ih _ _ hids]
    · by_cases hx : x = id
      · subst hx
        have hin := hsize x (List.mem_cons_self ..)
        simp [hfresh, hin]
      · by_cases hmem : x ∈ ids
        · simp [hmem, List.idxOf_cons_ne _ (Ne.symm hx)]
          omega
        · simp [hx, hmem, Ne.symm hx]
    · intro y hy
      simpa using hsize y (List.mem_cons_of_mem _ hy)

/-- A view of a linked document from the tree with this topmost node: its keys tell the
place of a node in the list of that tree. -/
structure Sees (v : View) (top : NodeId) : Prop where
  linked : v.document.Linked
  size : top < v.document.nodes.size
  parent? : v.document.parent? top = none
  key {a : Item} : InTree v.document top a →
    v.key a = (0, (v.document.preorder top).idxOf a.id, a.slot)

/-- The view from a node sees the tree that the node is in. -/
theorem Sees.of (hd : d.Linked) {id : NodeId} (hid : id < d.nodes.size) :
    Sees (View.of d id) (d.topOf id) := by
  obtain ⟨hunder, hnone⟩ := Document.topOf_spec hd id
  have hsize : d.topOf id < d.nodes.size := Nat.lt_of_le_of_lt (hunder.le hd) hid
  refine ⟨hd, hsize, hnone, fun {a} ha => ?_⟩
  have hplace : (View.of d id).places[a.id]? =
      some (some (0 + (d.preorder (d.topOf id)).idxOf a.id)) := by
    rw [View.of]
    rw [Document.descendants_eq hd hsize, places_foldl _ _ _ (Document.preorder_nodup hd _),
      if_pos ((Document.mem_preorder hd).mpr ha.under)]
    intro x hx
    rw [Array.size_replicate]
    exact ((Document.mem_preorder hd).mp hx).lt_size hd hsize
  rw [View.key]
  rw [hplace, Nat.zero_add]
  rfl

theorem precedes_iff (v : View) (a b : Item) : v.precedes a b = true ↔
    (v.key a).1 < (v.key b).1 ∨ (v.key a).1 = (v.key b).1 ∧
      ((v.key a).2.1 < (v.key b).2.1 ∨ (v.key a).2.1 = (v.key b).2.1 ∧
        (v.key a).2.2 ≤ (v.key b).2.2) := by
  rw [View.precedes]
  simp

theorem precedes_trans (v : View) (a b c : Item) (hab : v.precedes a b = true)
    (hbc : v.precedes b c = true) : v.precedes a c = true := by
  rw [precedes_iff] at *
  omega

theorem precedes_total (v : View) (a b : Item) : (v.precedes a b || v.precedes b a) = true := by
  rw [Bool.or_eq_true, precedes_iff, precedes_iff]
  omega

namespace Sees

variable {v : View} {a b : Item}

theorem precedes_iff (h : Sees v top) (ha : InTree v.document top a)
    (hb : InTree v.document top b) : v.precedes a b = true ↔
      (v.document.preorder top).idxOf a.id < (v.document.preorder top).idxOf b.id ∨
      a.id = b.id ∧ a.slot ≤ b.slot := by
  have hmem := (Document.mem_preorder h.linked).mpr ha.under
  rw [XPath.precedes_iff, h.key ha, h.key hb, List.idxOf_inj hmem]
  simp

/-- Of two nodes of the tree, the one that the view puts first is before the other. -/
theorem before (h : Sees v top) (ha : InTree v.document top a) (hb : InTree v.document top b)
    (hle : v.precedes a b = true) (hne : a ≠ b) : Before v.document a b := by
  have hma := (Document.mem_preorder h.linked).mpr ha.under
  have hmb := (Document.mem_preorder h.linked).mpr hb.under
  rcases (h.precedes_iff ha hb).mp hle with hlt | ⟨hid, hslot⟩
  · have hpair := List.pairwise_iff_getElem.mp (Document.preorder_pairwise h.linked top)
    have hab := hpair _ _ (List.idxOf_lt_length_iff.mpr hma) (List.idxOf_lt_length_iff.mpr hmb) hlt
    rw [List.getElem_idxOf, List.getElem_idxOf] at hab
    exact .inl hab
  · refine .inr ⟨hid, Nat.lt_of_le_of_ne hslot fun heq => hne ?_⟩
    exact Item.ext_slot hid heq

/-- Putting nodes of the tree in order loses none of them and adds none. -/
theorem mem_inOrder (v : View) {items : List Item} : a ∈ v.inOrder items ↔ a ∈ items := by
  rw [View.inOrder]
  rw [mem_eraseReps, List.mem_mergeSort]

/-- Nodes that are in order already stay as they are. -/
theorem inOrder_eq_self (v : View) {items : List Item}
    (hordered : items.Pairwise fun a b => v.precedes a b = true) (hnodup : items.Nodup) :
    v.inOrder items = items := by
  rw [View.inOrder]
  rw [List.mergeSort_of_pairwise hordered, eraseReps_eq_self items hnodup]

/-- Nodes of the tree that are put in order are in document order, each of them once. -/
theorem inOrder_pairwise (h : Sees v top) {items : List Item}
    (hitems : ∀ a ∈ items, InTree v.document top a) :
    (v.inOrder items).Pairwise (Before v.document) := by
  have hmem {a : Item} (ha : a ∈ items.mergeSort v.precedes) : InTree v.document top a :=
    hitems a (List.mem_mergeSort.mp ha)
  have sorted := List.pairwise_mergeSort (precedes_trans v) (precedes_total v) items
  have strict := eraseReps_pairwise (r := fun a b => v.precedes a b = true) _ sorted <| by
    intro a ha b hb hab hba
    by_contra hne
    rcases (h.precedes_iff (hmem ha) (hmem hb)).mp hab with h₁ | ⟨hid, h₁⟩
    · rcases (h.precedes_iff (hmem hb) (hmem ha)).mp hba with h₂ | ⟨hid, -⟩
      · omega
      · rw [hid] at h₁
        exact Nat.lt_irrefl _ h₁
    · rcases (h.precedes_iff (hmem hb) (hmem ha)).mp hba with h₂ | ⟨-, h₂⟩
      · rw [hid] at h₂
        exact Nat.lt_irrefl _ h₂
      · exact hne (Item.ext_slot hid (Nat.le_antisymm h₁ h₂))
  refine strict.imp_of_mem fun ha hb hab => ?_
  exact h.before (hmem ((mem_eraseReps _).mp ha)) (hmem ((mem_eraseReps _).mp hb)) hab.1 hab.2

end Sees

end PatchScript.XPath
