import PatchScript.Proofs.Xml.Injectivity
import PatchScript.Proofs.Xml.Integrity
import PatchScript.Proofs.Xml.Order

/-!
# Documents in normal form

A document in the form that reading gives it is told by what is written for it
(`Document.write_tells_document`).  Two such documents need not have the same nodes in their
arenas: the numbers can differ, and there can be nodes that were detached.  But from the top
down they are alike.
-/

namespace PatchScript.Xml

namespace Document

variable {d d' : Document}

/-- Is the node a text? -/
def isText (d : Document) (id : NodeId) : Bool :=
  match d.kind? id with
  | some (.text _) => true
  | _ => false

/-- The document is in the form that reading gives it.  What is said of nodes is said of those
that can be reached from the top. -/
structure Normal (d : Document) : Prop where
  /-- There is one element at the top and nothing else. -/
  root : ∃ r, d.children top = [r] ∧ d.isElement r
  /-- No text is blank. -/
  texts {id : NodeId} {s : String} : d.Under top id → d.kind? id = some (.text s) →
    isBlankText s = false
  /-- No two texts stand next to each other. -/
  apart {id : NodeId} : d.Under top id → d.isElement id →
    (d.children id).IsChain fun a b => ¬(d.isText a ∧ d.isText b)
  /-- No comment has two hyphens in it. -/
  comments {id : NodeId} {s : String} : d.Under top id → d.kind? id = some (.comment s) →
    Text.containsList ['-', '-'] s.toList = false
  /-- Nothing is below texts and comments. -/
  leaves {id : NodeId} {s : String} : d.Under top id →
    d.kind? id = some (.text s) ∨ d.kind? id = some (.comment s) → d.children id = []
  /-- Names are valid. -/
  names {id : NodeId} {e : Element} : d.Under top id → d.kind? id = some (.element e) →
    isValidName e.name ∧ ∀ a ∈ e.attributes, isValidName a.1

/-- A node of one document and a node of another are of the same kind, with the same name and
attributes or the same text, and so are their children, one by one. -/
inductive Alike (d d' : Document) : NodeId → NodeId → Prop where
  | node {id id' : NodeId} : d.kind? id = d'.kind? id' →
    List.Forall₂ (Alike d d') (d.children id) (d'.children id') → Alike d d' id id'

/-! ## The tree of a node -/

/-- The node of the document itself is the only one of its kind. -/
def OneTop (d : Document) : Prop := ∀ id, d.kind? id = some .document ↔ id = top

theorem OneTop.push (h : d.OneTop) {parent : NodeId} {kind : NodeKind} (hkind : kind ≠ .document)
    (hparent : parent < d.nodes.size) : (d.push parent kind).OneTop := by
  intro id
  rw [kind?_push]
  split
  · rename_i hnew
    have htop : id ≠ top := by
      rw [hnew]
      exact Nat.ne_of_gt (Nat.lt_of_le_of_lt (Nat.zero_le _) hparent)
    simp [hkind, htop]
  · exact h id

theorem OneTop.modifyAttributes (h : d.OneTop) (id : NodeId) (f : Attributes → Attributes) :
    (d.modifyAttributes id f).OneTop := by
  intro c
  rw [← h c, kind?_modifyAttributes]
  split
  · cases d.kind? c with
    | none => rfl
    | some kind => cases kind <;> simp [NodeKind.mapAttributes]
  · rfl

theorem OneTop.empty : OneTop empty := by
  intro id
  cases id with
  | zero => simp [kind?, Document.empty, top]
  | succ id => simp [kind?, Document.empty, top]

theorem Step.oneTop (h : d.Step d') (hd : d.OneTop) : d'.OneTop := by
  cases h with
  | appendElement hparent h =>
    rw [(appendElement_ok h).1]
    exact hd.push (by simp) hparent
  | appendText _ hparent => exact hd.push (by simp) hparent
  | appendComment _ hparent => exact hd.push (by simp) hparent
  | setAttribute h =>
    rw [setAttribute_ok h]
    exact hd.modifyAttributes _ _
  | removeAttribute id name => exact hd.modifyAttributes id _
  | detach id =>
    intro c
    rw [kind?_detach]
    exact hd c

theorem Steps.oneTop (h : d.Steps d') (hd : d.OneTop) : d'.OneTop := by
  induction h with
  | refl => exact hd
  | tail _ step ih => exact step.oneTop ih

theorem Reachable.oneTop (h : d.Reachable) : d.OneTop := h.steps.oneTop .empty

theorem treeFrom_eq (hd : d.Linked) : ∀ {n m : Nat} {id : NodeId}, id < d.nodes.size →
    d.nodes.size ≤ id + n → d.nodes.size ≤ id + m → d.treeFrom n id = d.treeFrom m id := by
  intro n
  induction n with
  | zero => exact fun hid hn => absurd hid (Nat.not_lt.mpr hn)
  | succ n ih =>
    intro m id hid hn hm
    cases m with
    | zero => exact absurd hid (Nat.not_lt.mpr hm)
    | succ m =>
      have hchildren : (d.children id).map (d.treeFrom n) = (d.children id).map (d.treeFrom m) := by
        refine List.map_congr_left fun c hc => ?_
        obtain ⟨hbehind, hsize⟩ := hd.below (.single hc)
        have hlt := Nat.succ_le_of_lt hbehind
        exact ih hsize (by omega) (by omega)
      rw [treeFrom, treeFrom, hchildren]

/-- The tree of a node has the trees of its children. -/
theorem tree_eq (hd : d.Linked) {id : NodeId} (hid : id < d.nodes.size) :
    d.tree id = match d.kind? id with
      | some (.element e) => .element e.name e.attributes ((d.children id).map d.tree)
      | some (.text s) => .text s
      | some (.comment s) => .comment s
      | some .document | none => .document ((d.children id).map d.tree) := by
  obtain ⟨n, hn⟩ := Nat.exists_eq_add_of_lt hid
  have hchildren : (d.children id).map (d.treeFrom (id + n)) = (d.children id).map d.tree := by
    refine List.map_congr_left fun c hc => ?_
    obtain ⟨hbehind, hsize⟩ := hd.below (.single hc)
    have hlt := Nat.succ_le_of_lt hbehind
    exact treeFrom_eq hd hsize (by omega) (Nat.le_add_left _ _)
  rw [tree, hn, ← hchildren]
  rfl

/-! ## Normal documents have normal trees -/

theorem exists_kind {id : NodeId} (hid : id < d.nodes.size) : ∃ kind, d.kind? id = some kind := by
  simp [kind?, hid]

theorem isText_tree (d : Document) (id : NodeId) : (d.tree id).isText = d.isText id := by
  rw [Document.tree, isText]
  cases hsize : d.nodes.size with
  | zero => simp [kind?, Array.eq_empty_of_size_eq_zero hsize, treeFrom, Tree.isText]
  | succ n =>
    rw [treeFrom]
    cases d.kind? id with
    | none => rfl
    | some kind => cases kind <;> rfl

theorem Normal.tree (hd : d.Reachable) (h : d.Normal) (id : NodeId) : d.Under top id → id ≠ top →
    (d.tree id).Normal := by
  have hlinked := hd.linked
  induction id using hlinked.induction with
  | step id ih =>
    intro hid hne
    have hsize := hid.lt_size hlinked (Nat.lt_of_succ_lt hd.one_lt_size)
    have htree := tree_eq hlinked hsize
    obtain ⟨kind, hkind⟩ := exists_kind hsize
    rw [hkind] at htree
    rw [htree]
    cases kind with
    | document => exact absurd ((hd.oneTop id).mp hkind) hne
    | text s => exact h.texts hid hkind
    | comment s => exact h.comments hid hkind
    | element e =>
      obtain ⟨hname, has⟩ := h.names hid hkind
      refine ⟨hname, has, ?_, ?_⟩
      · rw [Apart, List.isChain_map]
        refine (h.apart hid (isElement_iff.mpr ⟨e, hkind⟩)).imp fun a b hab => ?_
        rw [isText_tree, isText_tree, ← Bool.not_eq_true, ← Bool.not_eq_true]
        exact Decidable.not_and_iff_not_or_not.mp hab
      · rw [allNormal_iff, List.forall_mem_map]
        intro c hc
        obtain ⟨hbehind, -⟩ := hlinked.below (.single hc)
        have hlt : top < c := Nat.lt_of_le_of_lt (Nat.zero_le _) hbehind
        exact ih c hc (hid.trans (.child hc)) (Nat.ne_of_gt hlt)

/-! ## Documents that are written alike -/

/-- Lists with the same images are related, element by element. -/
theorem forall₂_of_map_eq {α β γ : Type} {f : α → γ} {g : β → γ} {R : α → β → Prop} :
    ∀ {l : List α} {l' : List β}, l.map f = l'.map g →
      (∀ a ∈ l, ∀ b ∈ l', f a = g b → R a b) → List.Forall₂ R l l'
  | [], [], _, _ => .nil
  | a :: l, b :: l', h, hR => by
    obtain ⟨hab, hrest⟩ := List.cons.inj h
    refine .cons (hR a List.mem_cons_self b List.mem_cons_self hab) (forall₂_of_map_eq hrest ?_)
    exact fun a ha b hb => hR a (List.mem_cons_of_mem _ ha) b (List.mem_cons_of_mem _ hb)

/-- Nodes with the same tree are alike. -/
theorem alike_of_tree_eq (hd : d.Reachable) (hd' : d'.Reachable) (h : d.Normal) (h' : d'.Normal)
    (id : NodeId) : ∀ id', d.Under top id → d'.Under top id' → d.tree id = d'.tree id' →
    Alike d d' id id' := by
  have hlinked := hd.linked
  induction id using hlinked.induction with
  | step id ih =>
    intro id' hid hid' heq
    have hsize := hid.lt_size hlinked (Nat.lt_of_succ_lt hd.one_lt_size)
    have hsize' := hid'.lt_size hd'.linked (Nat.lt_of_succ_lt hd'.one_lt_size)
    obtain ⟨kind, hkind⟩ := exists_kind hsize
    obtain ⟨kind', hkind'⟩ := exists_kind hsize'
    have hchildren (hmap : (d.children id).map d.tree = (d'.children id').map d'.tree) :
        List.Forall₂ (Alike d d') (d.children id) (d'.children id') :=
      forall₂_of_map_eq hmap fun c hc c' hc' =>
        ih c hc c' (hid.trans (.child hc)) (hid'.trans (.child hc'))
    rw [tree_eq hlinked hsize, tree_eq hd'.linked hsize', hkind, hkind'] at heq
    cases kind with
    | document =>
      cases kind' with
      | document => exact .node (by rw [hkind, hkind']) (hchildren (Tree.document.inj heq))
      | element | text | comment => cases heq
    | element e =>
      cases kind' with
      | element e' =>
        obtain ⟨hname, has, hmap⟩ := Tree.element.inj heq
        have he : e = e' := by
          cases e
          cases e'
          congr
        exact .node (by rw [hkind, hkind', he]) (hchildren hmap)
      | document | text | comment => cases heq
    | text s =>
      cases kind' with
      | text s' =>
        cases heq
        refine .node (by rw [hkind, hkind']) ?_
        rw [h.leaves hid (.inl hkind), h'.leaves hid' (.inl hkind')]
        exact .nil
      | document | element | comment => cases heq
    | comment s =>
      cases kind' with
      | comment s' =>
        cases heq
        refine .node (by rw [hkind, hkind']) ?_
        rw [h.leaves hid (.inr hkind), h'.leaves hid' (.inr hkind')]
        exact .nil
      | document | element | text => cases heq

/-- A document in normal form is written like the tree of its root. -/
theorem Normal.exists_root (hd : d.Reachable) (h : d.Normal) : ∃ t : Tree,
    d.tree top = .document [t] ∧ d.write.toList = t.write 0 false ∧ t.Normal ∧
      t.isText = false := by
  have hsize : top < d.nodes.size := Nat.lt_of_succ_lt hd.one_lt_size
  obtain ⟨root, hroot, helement⟩ := h.root
  have hmem : root ∈ d.children top := by
    rw [hroot]
    exact List.mem_singleton_self _
  have hne : root ≠ top := Nat.ne_of_gt (hd.linked.below (.single hmem)).1
  refine ⟨d.tree root, ?_, ?_, h.tree hd root (.child hmem) hne, ?_⟩
  · rw [tree_eq hd.linked hsize, (hd.oneTop top).mpr rfl, hroot]
    rfl
  · rw [Document.write, hroot, List.map_singleton, toList_writeTop, writeLines, List.append_nil]
  · obtain ⟨e, he⟩ := isElement_iff.mp helement
    rw [isText_tree, isText, he]

/-- Two documents in normal form that are written alike are alike: from the top down, their nodes
are of the same kinds, with the same names, attributes and texts in the same order. -/
theorem write_tells_document (hd : d.Reachable) (hd' : d'.Reachable) (h : d.Normal)
    (h' : d'.Normal) (heq : d.write = d'.write) :
    d.tree top = d'.tree top ∧ Alike d d' top top := by
  obtain ⟨t, htop, hwrite, ht, htext⟩ := h.exists_root hd
  obtain ⟨t', htop', hwrite', ht', htext'⟩ := h'.exists_root hd'
  have hwritten : t.write 0 false ++ [] = t'.write 0 false ++ [] := by
    rw [← hwrite, ← hwrite', heq]
  obtain ⟨rfl, -⟩ := Tree.write_inj 0 false ht ht' htext htext' hwritten
  have htree : d.tree top = d'.tree top := htop.trans htop'.symm
  exact ⟨htree, alike_of_tree_eq hd hd' h h' top top (.refl _) (.refl _) htree⟩

/-- A document with an element and a text in it, and one with an element that was detached. -/
theorem write_tells_document_with_detached_node :
    let a := NodeKind.element ⟨"a", []⟩
    let b := NodeKind.element ⟨"b", []⟩
    let d : Document := ⟨#[⟨.document, none, [1]⟩, ⟨a, some 0, [2]⟩, ⟨.text "t", some 1, []⟩], 1⟩
    let d' : Document := ⟨#[⟨.document, none, [1]⟩, ⟨a, some 0, [3]⟩, ⟨b, none, []⟩,
      ⟨.text "t", some 1, []⟩], 1⟩
    d.Reachable ∧ d'.Reachable ∧ d.Normal ∧ d'.Normal ∧ d.write = d'.write ∧
      d.tree top = d'.tree top ∧ Alike d d' top top := by
  intro a b d d'
  have ha : ofName "a" = .ok (empty.push 0 a) := rfl
  have hnew : (empty.push 0 a).Reachable := .ofName ha
  have hone : 1 < (empty.push 0 a).nodes.size := by decide
  have hd : d.Reachable := .appendText "t" hnew hone
  have hd' : d'.Reachable := by
    have hb : (empty.push 0 a).appendElement 1 "b" = .ok ((empty.push 0 a).push 1 b, 2) := rfl
    have hdetached := (Reachable.appendElement hnew hone hb).detach 2
    have hone' : 1 < (((empty.push 0 a).push 1 b).detach 2).nodes.size := by decide
    have happend := hdetached.appendText "t" hone'
    have heq : ((((empty.push 0 a).push 1 b).detach 2).appendText 1 "t").1 = d' := by decide
    rwa [heq] at happend
  have normal {d : Document} (hroot : d.children top = [1] ∧ d.isElement 1)
      (hkinds : ∀ id kind, d.kind? id = some kind → kind = .document ∨
        (∃ name, kind = .element ⟨name, []⟩ ∧ isValidName name ∧ (d.children id).length ≤ 1) ∨
        kind = .text "t" ∧ d.children id = []) : d.Normal := by
    refine ⟨⟨1, hroot⟩, ?_, ?_, ?_, ?_, ?_⟩
    · intro id s _ hs
      rcases hkinds id _ hs with h | ⟨name, h, -⟩ | ⟨h, -⟩ <;> cases h
      decide
    · intro id _ he
      obtain ⟨e, he⟩ := isElement_iff.mp he
      rcases hkinds id _ he with h | ⟨name, -, -, hchildren⟩ | ⟨h, -⟩
      · cases h
      · match d.children id, hchildren with
        | [], _ => exact .nil
        | [c], _ => exact .singleton c
      · cases h
    · intro id s _ hs
      rcases hkinds id _ hs with h | ⟨name, h, -⟩ | ⟨h, -⟩ <;> cases h
    · intro id s _ hs
      rcases hs with hs | hs
      all_goals
        rcases hkinds id _ hs with h | ⟨name, h, -⟩ | ⟨-, h⟩
        · cases h
        · cases h
        · exact h
    · intro id e _ he
      rcases hkinds id _ he with h | ⟨name, h, hname, -⟩ | ⟨h, -⟩ <;> cases h
      exact ⟨hname, nofun⟩
  have h : d.Normal := by
    refine normal ⟨rfl, rfl⟩ fun id kind hid => ?_
    match id, hid with
    | 0, hid => cases hid; exact .inl rfl
    | 1, hid => cases hid; exact .inr (.inl ⟨"a", rfl, by decide, by decide⟩)
    | 2, hid => cases hid; exact .inr (.inr ⟨rfl, rfl⟩)
    | id + 3, hid => cases hid
  have h' : d'.Normal := by
    refine normal ⟨rfl, rfl⟩ fun id kind hid => ?_
    match id, hid with
    | 0, hid => cases hid; exact .inl rfl
    | 1, hid => cases hid; exact .inr (.inl ⟨"a", rfl, by decide, by decide⟩)
    | 2, hid => cases hid; exact .inr (.inl ⟨"b", rfl, by decide, by decide⟩)
    | 3, hid => cases hid; exact .inr (.inr ⟨rfl, rfl⟩)
    | id + 4, hid => cases hid
  have heq : d.write = d'.write := by decide
  exact ⟨hd, hd', h, h', heq, write_tells_document hd hd' h h' heq⟩

end Document

end PatchScript.Xml
