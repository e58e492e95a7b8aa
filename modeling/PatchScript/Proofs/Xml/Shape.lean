import PatchScript.Proofs.Xml.Loading

/-!
# The shape of a document under change

The nodes of a document that can be reached from its top form a tree, and what stands at the top
are elements.  This is so of every document that is read, and it stays so whatever is changed,
even if an element were appended to a node that there is not.  So the trees that are made of a
document to be written go down to the leaves (`Document.Shaped.plain`).
-/

namespace PatchScript.Xml

namespace Document

/-- The nodes that can be reached from the top form a tree, which has elements at the top.  A
node can be its own child, but then it is nobody else's. -/
structure Shaped (d : Document) : Prop where
  /-- There is a node for the document itself. -/
  nonempty : top < d.nodes.size
  /-- A child comes behind its parent in the arena. -/
  bounds {p c : NodeId} : c ∈ d.children p → p ≤ c ∧ top < c ∧ c < d.nodes.size
  /-- A node that is its own child is nobody else's. -/
  alone {p c : NodeId} : c ∈ d.children c → c ∈ d.children p → p = c
  /-- No other node stands for the document. -/
  inner {c : NodeId} : top < c → c < d.nodes.size → ∃ kind, d.kind? c = some kind ∧ kind ≠ .document
  /-- The children of the document are elements. -/
  roots {c : NodeId} : c ∈ d.children top → d.isElement c

theorem mem_children_push {d : Document} {parent p c : NodeId} {kind : NodeKind}
    (h : c ∈ (d.push parent kind).children p) :
    c ∈ d.children p ∨ (c = d.nodes.size ∧ p = parent ∧ parent ≤ d.nodes.size) := by
  unfold push children at h
  simp only [Array.getElem?_modify, Array.getElem?_push] at h
  by_cases hparent : parent = p
  · subst hparent
    by_cases hsize : parent = d.nodes.size
    · have hc : c = d.nodes.size := by simpa [hsize] using h
      exact .inr ⟨hc, rfl, Nat.le_of_eq hsize⟩
    · rw [children]
      cases hn : d.nodes[parent]? with
      | none => simp [hsize, hn] at h
      | some n =>
        have hc : c ∈ n.children ∨ c = d.nodes.size := by simpa [hsize, hn] using h
        have hlt := (Array.getElem?_eq_some_iff.mp hn).1
        exact hc.imp_right fun hc => ⟨hc, rfl, Nat.le_of_lt hlt⟩
  · by_cases hsize : p = d.nodes.size
    · subst hsize
      simp [hparent] at h
    · left
      simpa [hparent, hsize, children] using h

theorem mem_of_mem_children_detach {d : Document} {id p c : NodeId}
    (h : c ∈ (d.detach id).children p) : c ∈ d.children p := by
  cases hid : d.parent? id with
  | none => rwa [detach_eq_self hid] at h
  | some parent =>
    rw [children_detach hid] at h
    split at h
    · exact (List.mem_filter.mp h).1
    · exact h

theorem size_detach (d : Document) (id : NodeId) : (d.detach id).nodes.size = d.nodes.size := by
  rw [detach]
  split <;> simp

theorem isElement_iff {d : Document} {id : NodeId} :
    d.isElement id ↔ ∃ e, d.kind? id = some (.element e) := by
  rw [isElement, element?]
  split
  · rename_i e he
    exact ⟨fun _ => ⟨e, he⟩, fun _ => rfl⟩
  · rename_i hne
    refine ⟨nofun, fun ⟨e, he⟩ => absurd he (hne e)⟩

namespace Shaped

variable {d : Document}

/-- A change that adds no child and keeps what nodes are keeps the shape. -/
theorem of_subset (h : d.Shaped) {d' : Document} (hsize : d'.nodes.size = d.nodes.size)
    (hchildren : ∀ p c, c ∈ d'.children p → c ∈ d.children p)
    (helements : ∀ c, d.isElement c → d'.isElement c)
    (hkinds : ∀ c kind, d.kind? c = some kind → kind ≠ .document →
      ∃ kind', d'.kind? c = some kind' ∧ kind' ≠ .document) : d'.Shaped where
  nonempty := by
    rw [hsize]
    exact h.nonempty
  bounds hc := by
    rw [hsize]
    exact h.bounds (hchildren _ _ hc)
  alone hc hp := h.alone (hchildren _ _ hc) (hchildren _ _ hp)
  inner hc hlt := by
    rw [hsize] at hlt
    obtain ⟨kind, hkind, hne⟩ := h.inner hc hlt
    exact hkinds _ kind hkind hne
  roots hc := helements _ (h.roots (hchildren _ _ hc))

theorem modifyAttributes (h : d.Shaped) (id : NodeId) (f : Attributes → Attributes) :
    (d.modifyAttributes id f).Shaped := by
  refine h.of_subset (size_modifyAttributes d id f) ?_ ?_ ?_
  · intro p c hc
    rwa [children_modifyAttributes] at hc
  · intro c hc
    obtain ⟨e, he⟩ := isElement_iff.mp hc
    refine isElement_iff.mpr ?_
    rw [kind?_modifyAttributes, he]
    split
    · exact ⟨_, rfl⟩
    · exact ⟨e, rfl⟩
  · intro c kind hkind hne
    rw [kind?_modifyAttributes, hkind]
    split
    · refine ⟨kind.mapAttributes f, rfl, ?_⟩
      cases kind with
      | document => exact absurd rfl hne
      | element | text | comment => exact nofun
    · exact ⟨kind, rfl, hne⟩

theorem detach (h : d.Shaped) (id : NodeId) : (d.detach id).Shaped := by
  refine h.of_subset (size_detach d id) (fun p c => mem_of_mem_children_detach) ?_ ?_
  · intro c hc
    rw [isElement_iff] at hc ⊢
    rwa [kind?_detach]
  · intro c kind hkind hne
    rw [kind?_detach]
    exact ⟨kind, hkind, hne⟩

theorem push (h : d.Shaped) {parent : NodeId} {kind : NodeKind} (hkind : kind ≠ .document)
    (hparent : parent = top → ∃ e, kind = .element e) : (d.push parent kind).Shaped where
  nonempty := by
    rw [size_push]
    exact Nat.lt_succ_of_lt h.nonempty
  bounds {p c} hc := by
    rw [size_push]
    rcases mem_children_push hc with hc | ⟨rfl, rfl, hle⟩
    · obtain ⟨hle, htop, hlt⟩ := h.bounds hc
      exact ⟨hle, htop, Nat.lt_succ_of_lt hlt⟩
    · exact ⟨hle, h.nonempty, Nat.lt_succ_self _⟩
  alone {p c} hc hp := by
    -- The new node has no child but itself, and is nobody's child but its parent's.
    rcases mem_children_push hc with hc | ⟨hnew, hself, -⟩
    · rcases mem_children_push hp with hp | ⟨rfl, -, -⟩
      · exact h.alone hc hp
      · exact absurd (h.bounds hc).2.2 (Nat.lt_irrefl _)
    · rcases mem_children_push hp with hp | ⟨-, rfl, -⟩
      · rw [hnew] at hp
        exact absurd (h.bounds hp).2.2 (Nat.lt_irrefl _)
      · exact hself.symm
  inner {c} hc hlt := by
    rw [kind?_push]
    rw [size_push] at hlt
    split
    · exact ⟨kind, rfl, hkind⟩
    · rename_i hne
      exact h.inner hc (Nat.lt_of_le_of_ne (Nat.le_of_lt_succ hlt) hne)
  roots {c} hc := by
    rw [isElement_iff, kind?_push]
    rcases mem_children_push hc with hc | ⟨rfl, htop, -⟩
    · rw [if_neg (Nat.ne_of_lt (h.bounds hc).2.2)]
      exact isElement_iff.mp (h.roots hc)
    · obtain ⟨e, rfl⟩ := hparent htop.symm
      exact ⟨e, if_pos rfl⟩

theorem setAttribute {d' : Document} (h : d.Shaped) {id : NodeId} {name value : String}
    (hset : d.setAttribute id name value = .ok d') : d'.Shaped := by
  rw [setAttribute_ok hset]
  exact h.modifyAttributes id _

theorem appendElement {d' : Document} (h : d.Shaped) {parent id : NodeId} {name : String}
    (happend : d.appendElement parent name = .ok (d', id)) : d'.Shaped := by
  rw [(appendElement_ok happend).1]
  exact h.push nofun fun _ => ⟨_, rfl⟩

theorem setAttributes (id : NodeId) : ∀ (attributes : Attributes) {d d' : Document},
    d.Shaped → attributes.foldlM (fun d a => d.setAttribute id a.1 a.2) d = .ok d' → d'.Shaped := by
  intro attributes
  induction attributes with
  | nil =>
    intro d d' hd h
    cases h
    exact hd
  | cons a attributes ih =>
    intro d d' hd h
    rw [List.foldlM_cons] at h
    obtain ⟨d₁, hset, h⟩ := bind_eq_ok h
    exact ih (hd.setAttribute hset) h

mutual

theorem append : ∀ (t : Tree) {d d' : Document} {parent : NodeId}, d.Shaped → t.Sound →
    (parent = top → t.IsElement) → d.append parent t = .ok d' → d'.Shaped
  | .document _, _, _, _, _, ht, _, _ => ht.elim
  | .text content, _, _, _, hd, _, hparent, h => by
    cases h
    exact hd.push nofun fun htop => (hparent htop).elim
  | .comment content, _, _, _, hd, _, hparent, h => by
    cases h
    exact hd.push nofun fun htop => (hparent htop).elim
  | .element name attributes children, d, _, _, hd, ht, _, h => by
    rw [Document.append] at h
    obtain ⟨⟨d₁, id⟩, happend, h⟩ := bind_eq_ok h
    obtain ⟨d₂, hset, h⟩ := bind_eq_ok h
    have hid : id ≠ top := by
      rw [(appendElement_ok happend).2]
      exact Nat.ne_of_gt hd.nonempty
    have hd₂ := setAttributes id attributes (hd.appendElement happend) hset
    exact appendAll children hd₂ ht (fun htop => absurd htop hid) h

/-- Trees that hold no document can be added, at the top only elements. -/
theorem appendAll : ∀ (ts : List Tree) {d d' : Document} {parent : NodeId}, d.Shaped →
    AllSound ts → (parent = top → ∀ t ∈ ts, t.IsElement) → d.appendAll parent ts = .ok d' →
    d'.Shaped
  | [], _, _, _, hd, _, _, h => by
    cases h
    exact hd
  | t :: ts, _, _, _, hd, hts, hparent, h => by
    rw [Document.appendAll] at h
    obtain ⟨d₁, happend, h⟩ := bind_eq_ok h
    have hfirst := append t hd hts.1 (fun htop => hparent htop t List.mem_cons_self) happend
    exact appendAll ts hfirst hts.2
      (fun htop t' ht' => hparent htop t' (List.mem_cons_of_mem _ ht')) h

end

theorem empty : Shaped empty where
  nonempty := empty_size
  bounds {p c} hc := by cases p <;> cases hc
  alone {p c} hc _ := by cases c <;> cases hc
  inner {c} hc hlt := absurd hlt (Nat.not_lt.mpr hc)
  roots hc := by cases hc

/-- The trees of a sound document are made down to their leaves, which are sound. -/
theorem treeFrom (h : d.Shaped) (hsound : d.Sound) : ∀ (levels : Nat) {id : NodeId}, top < id →
    id < d.nodes.size → id ∉ d.children id → d.nodes.size ≤ id + levels →
    (d.treeFrom levels id).Sound ∧ (d.treeFrom levels id).HasValidNames := by
  intro levels
  induction levels with
  | zero => exact fun _ hlt _ hle => absurd hlt (Nat.not_lt.mpr hle)
  | succ n ih =>
    intro id htop hlt hself hle
    have hchildren : ∀ c ∈ d.children id,
        (d.treeFrom n c).Sound ∧ (d.treeFrom n c).HasValidNames := by
      intro c hc
      obtain ⟨hbehind, htop', hlt'⟩ := h.bounds hc
      have hne : id ≠ c := fun heq => hself (heq ▸ hc)
      refine ih htop' hlt' (fun hself' => hne (h.alone hself' hc)) ?_
      calc d.nodes.size ≤ id + (n + 1) := hle
        _ = id + 1 + n := (Nat.succ_add_eq_add_succ id n).symm
        _ ≤ c + n := Nat.add_le_add_right (Nat.lt_of_le_of_ne hbehind hne) n
    obtain ⟨kind, hkind, hne⟩ := h.inner htop hlt
    have hhere := hsound id kind hkind
    rw [Document.treeFrom, hkind]
    cases kind with
    | document => exact absurd rfl hne
    | element e =>
      exact ⟨allSound_iff.mpr (List.forall_mem_map.mpr fun c hc => (hchildren c hc).1), hhere.1,
        hhere.2, haveValidNames_iff.mpr (List.forall_mem_map.mpr fun c hc => (hchildren c hc).2)⟩
    | text | comment => exact ⟨hhere, trivial⟩

/-- The trees at the top of a sound document are elements, which are sound. -/
theorem roots_tree (h : d.Shaped) (hsound : d.Sound) : ∀ t ∈ (d.children top).map d.tree,
    t.IsElement ∧ t.Sound ∧ t.HasValidNames := by
  refine List.forall_mem_map.mpr fun c hc => ?_
  obtain ⟨hbehind, htop, hlt⟩ := h.bounds hc
  have hself : c ∉ d.children c := fun hself => absurd (h.alone hself hc) (Nat.ne_of_lt htop)
  refine ⟨?_, h.treeFrom hsound _ htop hlt hself (Nat.le_add_left _ _)⟩
  obtain ⟨e, he⟩ := isElement_iff.mp (h.roots hc)
  rw [tree]
  cases hsize : d.nodes.size with
  | zero =>
    have hnonempty := h.nonempty
    rw [hsize] at hnonempty
    exact absurd hnonempty (Nat.not_lt_zero _)
  | succ n =>
    rw [Document.treeFrom, he]
    trivial

end Shaped

/-- A document that is read has the shape. -/
theorem shaped_of_read {source : String} {d : Document} (h : Document.read source = .ok d) :
    d.Shaped := by
  obtain ⟨t, ht, h⟩ := bind_eq_ok h
  obtain ⟨ts, rfl, hsound, helements⟩ := readTree_sound ht
  exact Shaped.appendAll ts .empty hsound (fun _ => helements) h

/-- The document has the shape that documents have, and it is sound. -/
structure Regular (d : Document) : Prop where
  /-- It has the shape. -/
  shaped : d.Shaped
  /-- It is sound. -/
  sound : d.Sound

theorem regular_of_read {source : String} {d : Document} (h : Document.read source = .ok d) :
    d.Regular := ⟨shaped_of_read h, sound_of_read h⟩

namespace Regular

variable {d d' : Document}

theorem setAttribute (h : d.Regular) {id : NodeId} {name value : String}
    (hset : d.setAttribute id name value = .ok d') : d'.Regular :=
  ⟨h.shaped.setAttribute hset, h.sound.setAttribute hset⟩

theorem removeAttribute (h : d.Regular) (id : NodeId) (name : String) :
    (d.removeAttribute id name).Regular :=
  ⟨h.shaped.modifyAttributes id _, h.sound.removeAttribute id name⟩

theorem appendElement (h : d.Regular) {parent id : NodeId} {name : String}
    (happend : d.appendElement parent name = .ok (d', id)) : d'.Regular :=
  ⟨h.shaped.appendElement happend, h.sound.appendElement happend⟩

theorem detach (h : d.Regular) (id : NodeId) : (d.detach id).Regular :=
  ⟨h.shaped.detach id, h.sound.detach id⟩

/-- The trees at the top are elements, which are sound and have valid names. -/
theorem roots (h : d.Regular) : ∀ t ∈ (d.children top).map d.tree,
    t.IsElement ∧ t.Sound ∧ t.HasValidNames := h.shaped.roots_tree h.sound

end Regular

end Document

end PatchScript.Xml
