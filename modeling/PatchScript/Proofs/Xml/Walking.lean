import PatchScript.Proofs.Xml.NormalForm

/-!
# Walks down a document

The walk that lists what is under a node has a stack.  In every turn the next node is found and
its children take its place, the first of them to be next.  So a turn takes one node from what is
ahead, and no walk goes on for ever (`Linked.wellFounded_turn`); and what was found together with
what is ahead stays the same list (`Turn.outcome`), which is the one that the walk ends with
(`turns_outcome`).

The string value of an element, or of the whole document, is made of the texts that are found on
such a walk.  If nothing is below texts and comments, it is told by the children, one by one.
-/

namespace PatchScript.Xml

/-- How far a walk has come. -/
structure Walk where
  /-- The nodes that were found, the last one first. -/
  found : List NodeId
  /-- The nodes that are known and not found yet, the next one first. -/
  stack : List NodeId

/-- Is it a kind of node that is made to hold others? -/
def NodeKind.isInner : NodeKind → Bool
  | .document | .element _ => true
  | .text _ | .comment _ => false

namespace Document

/-- A turn of a walk: the next node is found, and its children take its place. -/
inductive Turn (d : Document) : Walk → Walk → Prop where
  | next (found : List NodeId) (id : NodeId) (stack : List NodeId) :
    Turn d ⟨found, id :: stack⟩ ⟨id :: found, d.children id ++ stack⟩

/-- Turns one after the other. -/
abbrev Turns (d : Document) : Walk → Walk → Prop := Relation.ReflTransGen d.Turn

/-- The nodes that a walk is still to find, in order. -/
def ahead (d : Document) (w : Walk) : List NodeId := w.stack.flatMap d.preorder

/-- The nodes that a walk was and is to find, in order. -/
def outcome (d : Document) (w : Walk) : List NodeId := w.found.reverse ++ d.ahead w

variable {d : Document} {w w' : Walk}

/-! ## Turns -/

/-- What is found in a turn was the first node ahead. -/
theorem Turn.ahead (hd : d.Linked) (h : d.Turn w w') :
    ∃ id, d.ahead w = id :: d.ahead w' ∧ w'.found = id :: w.found := by
  cases h with
  | next found id stack =>
    refine ⟨id, ?_, rfl⟩
    rw [Document.ahead, Document.ahead, List.flatMap_cons, preorder_eq hd, List.flatMap_append]
    rfl

/-- A turn does not change what the walk ends with. -/
theorem Turn.outcome (hd : d.Linked) (h : d.Turn w w') : d.outcome w' = d.outcome w := by
  obtain ⟨id, hahead, hfound⟩ := h.ahead hd
  rw [Document.outcome, Document.outcome, hahead, hfound]
  simp

theorem Turns.outcome (hd : d.Linked) (h : d.Turns w w') : d.outcome w' = d.outcome w := by
  induction h with
  | refl => rfl
  | tail _ turn ih => rw [turn.outcome hd, ih]

/-- No walk goes on for ever: with every turn there is less ahead. -/
theorem Linked.wellFounded_turn (hd : d.Linked) : WellFounded fun w' w => d.Turn w w' := by
  refine Subrelation.wf ?_ (measure fun w => (d.ahead w).length).wf
  intro w' w h
  obtain ⟨id, hahead, -⟩ := h.ahead hd
  show (d.ahead w').length < (d.ahead w).length
  rw [hahead]
  exact Nat.lt_succ_self _

/-- Wherever a walk is, it comes to its end. -/
theorem turns_outcome (hd : d.Linked) (w : Walk) : d.Turns w ⟨(d.outcome w).reverse, []⟩ := by
  induction w using hd.wellFounded_turn.induction with
  | h w ih =>
    obtain ⟨found, stack⟩ := w
    cases stack with
    | nil =>
      have hend : (d.outcome ⟨found, []⟩).reverse = found := by
        simp [Document.outcome, Document.ahead]
      rw [hend]
    | cons id stack =>
      have hturn := Turn.next (d := d) found id stack
      have hrest := ih _ hturn
      rw [hturn.outcome hd] at hrest
      exact .head hturn hrest

/-- A walk of any number of steps is made of turns. -/
theorem exists_turns_walk : ∀ (steps : Nat) (w : Walk),
    ∃ w', d.Turns w w' ∧ d.walk steps w.found w.stack = w'.found.reverse := by
  intro steps
  induction steps with
  | zero => exact fun w => ⟨w, .refl, rfl⟩
  | succ n ih =>
    intro ⟨found, stack⟩
    cases stack with
    | nil => exact ⟨_, .refl, rfl⟩
    | cons id stack =>
      obtain ⟨w', hturns, hwalk⟩ := ih ⟨id :: found, d.children id ++ stack⟩
      exact ⟨w', .head (.next found id stack) hturns, hwalk⟩

/-! ## Texts -/

/-- The text that a node is. -/
def text? (d : Document) (id : NodeId) : Option String :=
  match d.kind? id with
  | some (.text s) => some s
  | _ => none

/-- The texts that are found on the walk down from a node. -/
def texts (d : Document) (id : NodeId) : List String := (d.descendants id).filterMap d.text?

/-- Only the document itself and elements have children. -/
def BranchesAtInner (d : Document) : Prop :=
  ∀ id kind, d.kind? id = some kind → d.children id ≠ [] → kind.isInner

/-- What a child contributes to the string value of its parent. -/
inductive Contributes (d : Document) (c : NodeId) : String → Prop where
  | text {s : String} : d.kind? c = some (.text s) → Contributes d c s
  | comment {s : String} : d.kind? c = some (.comment s) → Contributes d c ""
  | element {e : Element} : d.kind? c = some (.element e) → Contributes d c (d.stringValue c)

theorem join_flatMap {α : Type} (f : α → List String) (l : List α) :
    String.join (l.flatMap f) = String.join (l.map fun a => String.join (f a)) := by
  induction l with
  | nil => rfl
  | cons a l ih => rw [List.flatMap_cons, List.map_cons, String.join_append, String.join_cons, ih]

theorem texts_eq (hd : d.Linked) {id : NodeId} (hid : id < d.nodes.size) :
    d.texts id = (d.text? id).toList ++ (d.children id).flatMap d.texts := by
  rw [texts, descendants_eq_cons hd hid, List.filterMap_cons, List.filterMap_flatMap]
  cases d.text? id <;> rfl

theorem stringValue_eq {id : NodeId} {kind : NodeKind} (hkind : d.kind? id = some kind)
    (hinner : kind.isInner) : d.stringValue id = String.join (d.texts id) := by
  rw [stringValue, hkind]
  cases kind with
  | document | element => rfl
  | text | comment => cases hinner

/-- The string value of a node with children is put together from theirs. -/
theorem stringValue_eq_join (hd : d.Linked) {id : NodeId} {kind : NodeKind}
    (hkind : d.kind? id = some kind) (hinner : kind.isInner) :
    d.stringValue id = String.join ((d.children id).map fun c => String.join (d.texts c)) := by
  have hnone : d.text? id = none := by
    rw [text?, hkind]
    cases kind with
    | document | element | comment => rfl
    | text => cases hinner
  rw [stringValue_eq hkind hinner, texts_eq hd (lt_size_of_kind? hkind), hnone, ← join_flatMap]
  rfl

/-- The texts found on the walk down from a child are what the child contributes. -/
theorem Reachable.contributes (h : d.Reachable) (hbranches : d.BranchesAtInner) {id c : NodeId}
    (hc : c ∈ d.children id) : d.Contributes c (String.join (d.texts c)) := by
  have hd := h.linked
  obtain ⟨hlt, hsize⟩ := hd.below (.single hc)
  obtain ⟨kind, hkind⟩ := exists_kind hsize
  -- A child that is no element has nothing below it.
  have alone (hleaf : kind.isInner = false) : d.texts c = (d.text? c).toList := by
    have hchildren : d.children c = [] := by
      by_contra hne
      have hinner := hbranches c kind hkind hne
      rw [hleaf] at hinner
      cases hinner
    rw [texts_eq hd hsize, hchildren]
    exact List.append_nil _
  cases kind with
  | document =>
    rw [(h.oneTop c).mp hkind] at hlt
    exact absurd hlt (Nat.not_lt_zero _)
  | element e =>
    rw [← stringValue_eq hkind rfl]
    exact .element hkind
  | text s =>
    have hjoin : String.join (d.texts c) = s := by
      rw [alone rfl, text?, hkind]
      simp
    rw [hjoin]
    exact .text hkind
  | comment s =>
    have hjoin : String.join (d.texts c) = "" := by
      rw [alone rfl, text?, hkind]
      rfl
    rw [hjoin]
    exact .comment hkind

/-! ## Every walk -/

/-- In every document that can be made, the walk down from a node, attached or not, comes to an
end: no walk takes turns for ever, and wherever this one is, it goes on to an empty stack.  A
bound on its steps only cuts it short, and as many steps as there are nodes are enough.  What it
has found in the end is the preorder: the node, and after it the preorders of its children, in
their order; every node under the node is found once, and no other.  And if only the document
itself and elements have children, the string value of any of these is put together from what its
children contribute: a text itself, a comment nothing, and an element its own string value. -/
theorem walks_find_preorder (h : d.Reachable) {n : NodeId} (hn : n < d.nodes.size) :
    (WellFounded fun w' w => d.Turn w w') ∧
    (∀ w, d.Turns ⟨[], [n]⟩ w → d.Turns w ⟨(d.descendants n).reverse, []⟩) ∧
    (∀ steps, ∃ w, d.Turns ⟨[], [n]⟩ w ∧ d.walk steps [] [n] = w.found.reverse) ∧
    (∀ steps, d.nodes.size ≤ steps → d.walk steps [] [n] = d.descendants n) ∧
    d.descendants n = d.preorder n ∧
    (∀ id, d.preorder id = id :: (d.children id).flatMap d.preorder) ∧
    (d.descendants n).Nodup ∧
    (∀ x, x ∈ d.descendants n ↔ d.Under n x) ∧
    (d.BranchesAtInner → ∀ kind, d.kind? n = some kind → kind.isInner →
      ∃ texts, List.Forall₂ d.Contributes (d.children n) texts ∧
        d.stringValue n = String.join texts) := by
  have hd := h.linked
  have hpreorder := descendants_eq hd hn
  refine ⟨hd.wellFounded_turn, ?_, fun steps => exists_turns_walk steps ⟨[], [n]⟩, ?_, hpreorder,
    preorder_eq hd, ?_, ?_, ?_⟩
  · intro w hw
    have hstart : d.outcome ⟨[], [n]⟩ = d.descendants n := by
      simp [outcome, ahead, hpreorder]
    have hend := turns_outcome hd w
    rwa [Turns.outcome hd hw, hstart] at hend
  · intro steps hsteps
    rw [walk_eq_preorder hd hn hsteps, hpreorder]
  · rw [hpreorder]
    exact preorder_nodup hd n
  · intro x
    rw [hpreorder]
    exact mem_preorder hd
  · intro hbranches kind hkind hinner
    refine ⟨_, ?_, stringValue_eq_join hd hkind hinner⟩
    exact List.forall₂_map_right_iff.mpr
      (List.forall₂_same.mpr fun c hc => h.contributes hbranches hc)

/-- At an element whose children are two texts, an element with a text and a comment, which were
not made in the order of the walk. -/
theorem walks_find_preorder_out_of_order :
    let element (name : String) : NodeKind := .element ⟨name, []⟩
    let d := (((((empty.push 0 (element "a")).push 1 (.text "x")).push 1 (element "b")).push 1
      (.comment "c")).push 3 (.text "y")).push 1 (.text "z")
    d.Reachable ∧ 1 < d.nodes.size ∧ d.descendants 1 = [1, 2, 3, 5, 4, 6] ∧
      d.Turns ⟨[], [1]⟩ ⟨[6, 4, 5, 3, 2, 1], []⟩ ∧ d.walk 100 [] [1] = [1, 2, 3, 5, 4, 6] ∧
      d.BranchesAtInner ∧ d.kind? 1 = some (element "a") ∧ (element "a").isInner ∧
      d.stringValue 1 = "xyz" ∧
      ∃ texts, List.Forall₂ d.Contributes [2, 3, 4, 6] texts ∧
        d.stringValue 1 = String.join texts := by
  intro element d
  have ha : ofName "a" = .ok (empty.push 0 (element "a")) := rfl
  have hb : ((empty.push 0 (element "a")).push 1 (.text "x")).appendElement 1 "b" =
    .ok (((empty.push 0 (element "a")).push 1 (.text "x")).push 1 (element "b"), 3) := rfl
  have hd : d.Reachable := .appendText "z" (.appendText "y" (.appendComment "c" (.appendElement
    (.appendText "x" (.ofName ha) (by decide)) (by decide) hb) (by decide)) (by decide))
    (by decide)
  have hsize : 1 < d.nodes.size := by decide
  have hbranches : d.BranchesAtInner := by
    have hinner : ∀ id < d.nodes.size, d.children id ≠ [] →
        (d.kind? id).all NodeKind.isInner := by decide
    intro id kind hkind hne
    have hall := hinner id (lt_size_of_kind? hkind) hne
    rwa [hkind] at hall
  have hkind : d.kind? 1 = some (element "a") := by decide
  have hfound : d.descendants 1 = [1, 2, 3, 5, 4, 6] := by decide
  obtain ⟨-, ends, -, bounded, -, -, -, -, value⟩ := walks_find_preorder hd hsize
  have hturns := ends _ .refl
  have hwalk := bounded 100 (by decide)
  rw [hfound] at hturns hwalk
  have hchildren : d.children 1 = [2, 3, 4, 6] := by decide
  have hvalue := value hbranches _ hkind rfl
  rw [hchildren] at hvalue
  exact ⟨hd, hsize, hfound, hturns, hwalk, hbranches, hkind, rfl, by decide, hvalue⟩

end Document

end PatchScript.Xml
