import PatchScript.Proofs.Xml.NormalForm
import PatchScript.Proofs.Xml.Settings

/-!
# Documents that are built from trees

A document that is built from trees holds these trees again, from the top down to the leaves
(`Document.trees_of_read`).  A tree that is added under a node leaves all nodes alone that were
there before, but for the children of that node, so the trees below them stay what they are.

This needs that no element of the trees has two attributes of one name, since the attributes are
set one after the other.  Trees that are read have none.
-/

namespace PatchScript.Xml

/-! ## Clean trees -/

mutual

/-- No text in the tree is blank, no element has two attributes of one name, and no document
stands inside of it. -/
def Tree.Clean : Tree → Prop
  | .document _ => False
  | .text content => isBlankText content = false
  | .comment _ => True
  | .element _ attributes children => attributes.names.Nodup ∧ AllClean children

@[inherit_doc Tree.Clean]
def AllClean : List Tree → Prop
  | [] => True
  | t :: ts => t.Clean ∧ AllClean ts

end

theorem allClean_iff {ts : List Tree} : AllClean ts ↔ ∀ t ∈ ts, t.Clean := by
  induction ts with
  | nil => simp [AllClean]
  | cons t ts ih => simp [AllClean, ih]

mutual

theorem resolve_clean : ∀ (outer : Scope) (r : Raw) {ts : List Tree}, resolve outer r = .ok ts →
    ∀ t ∈ ts, t.Clean
  | outer, .element tag rs, ts, h => by
    obtain ⟨inner, name, written, children, hchildren, rfl⟩ := exists_of_resolve_element h
    exact List.forall_mem_singleton.mpr ⟨Attributes.nodup_putAll written List.nodup_nil,
      allClean_iff.mpr (resolveAll_clean inner rs hchildren)⟩
  | outer, .text content, ts, h => by
    rw [resolve] at h
    split at h
    · cases h
      exact fun _ ht => absurd ht List.not_mem_nil
    · rename_i hblank
      cases h
      exact List.forall_mem_singleton.mpr (Bool.eq_false_iff.mpr hblank)
  | outer, .comment content, ts, h => by
    cases h
    exact List.forall_mem_singleton.mpr trivial
  | outer, .instruction, ts, h => by
    cases h
    exact fun _ ht => absurd ht List.not_mem_nil

/-- Content resolves to clean trees. -/
theorem resolveAll_clean : ∀ (outer : Scope) (rs : List Raw) {ts : List Tree},
    resolveAll outer rs = .ok ts → ∀ t ∈ ts, t.Clean
  | outer, [], ts, h => by
    cases h
    exact fun _ ht => absurd ht List.not_mem_nil
  | outer, r :: rs, ts, h => by
    rw [resolveAll] at h
    obtain ⟨ts₁, h₁, h⟩ := bind_eq_ok h
    obtain ⟨ts₂, h₂, h⟩ := bind_eq_ok h
    cases h
    exact List.forall_mem_append.mpr ⟨resolve_clean outer r h₁, resolveAll_clean outer rs h₂⟩

end

namespace Document

variable {d d' d'' : Document} {parent : NodeId} {ts ts' : List Tree}

/-! ## Adding trees -/

/-- The second document is the first one with trees added at the end of `parent`. -/
structure Adds (d d' : Document) (parent : NodeId) (ts : List Tree) : Prop where
  /-- Links agree as before. -/
  linked : d'.Linked
  /-- No node is gone. -/
  size : d.nodes.size ≤ d'.nodes.size
  /-- The nodes are what they were. -/
  kind {id : NodeId} : id < d.nodes.size → d'.kind? id = d.kind? id
  /-- All but one have the children that they had. -/
  children {id : NodeId} : id < d.nodes.size → id ≠ parent → d'.children id = d.children id
  /-- That one has the trees behind them. -/
  added : ∃ ids, d'.children parent = d.children parent ++ ids ∧ ids.map d'.tree = ts

namespace Adds

theorem nil (hd : d.Linked) (parent : NodeId) : d.Adds d parent [] :=
  ⟨hd, Nat.le_refl _, fun _ => rfl, fun _ _ => rfl, [], (List.append_nil _).symm, rfl⟩

/-- The trees below other nodes stay what they are. -/
theorem tree_eq (h : d.Adds d' parent ts) (hd : d.Linked) (id : NodeId) : parent < id →
    id < d.nodes.size → d'.tree id = d.tree id := by
  induction id using hd.induction with
  | step id ih =>
    intro hparent hid
    have hchildren : (d'.children id).map d'.tree = (d.children id).map d.tree := by
      rw [h.children hid (Nat.ne_of_gt hparent)]
      refine List.map_congr_left fun c hc => ?_
      obtain ⟨hbehind, hsize⟩ := hd.below (.single hc)
      exact ih c hc (Nat.lt_trans hparent hbehind) hsize
    rw [Document.tree_eq h.linked (Nat.lt_of_lt_of_le hid h.size), Document.tree_eq hd hid,
      h.kind hid, hchildren]

theorem trans (h : d.Adds d' parent ts) (h' : d'.Adds d'' parent ts') :
    d.Adds d'' parent (ts ++ ts') where
  linked := h'.linked
  size := Nat.le_trans h.size h'.size
  kind hid := (h'.kind (Nat.lt_of_lt_of_le hid h.size)).trans (h.kind hid)
  children hid hne :=
    (h'.children (Nat.lt_of_lt_of_le hid h.size) hne).trans (h.children hid hne)
  added := by
    obtain ⟨ids, hids, hts⟩ := h.added
    obtain ⟨ids', hids', hts'⟩ := h'.added
    have hkept : ids.map d''.tree = ids.map d'.tree := by
      refine List.map_congr_left fun c hc => ?_
      have hchild : c ∈ d'.children parent := by
        rw [hids]
        exact List.mem_append_right _ hc
      obtain ⟨hbehind, hsize⟩ := h.linked.below (.single hchild)
      exact h'.tree_eq h.linked c hbehind hsize
    refine ⟨ids ++ ids', ?_, ?_⟩
    · rw [hids', hids, List.append_assoc]
    · rw [List.map_append, hkept, hts, hts']

/-- A node that is pushed is a tree without content. -/
theorem push (hd : d.Linked) (hparent : parent < d.nodes.size) {kind : NodeKind} {t : Tree}
    (ht : (d.push parent kind).tree d.nodes.size = t) : d.Adds (d.push parent kind) parent [t] where
  linked := hd.push kind hparent
  size := by
    rw [size_push]
    exact Nat.le_succ _
  kind hid := by rw [kind?_push, if_neg (Nat.ne_of_lt hid)]
  children hid hne := by rw [children_push kind _ hparent, if_neg hne]
  added := by
    refine ⟨[d.nodes.size], ?_, ?_⟩
    · rw [children_push kind _ hparent, if_pos rfl]
    · rw [List.map_singleton, ht]

/-- A new element with its attributes, to which content is added, is the element with the
content. -/
theorem element {name : String} {attributes : Attributes} (hparent : parent < d.nodes.size)
    (hnodup : attributes.names.Nodup)
    (h : ((d.push parent (.element ⟨name, []⟩)).modifyAttributes d.nodes.size
      attributes.putAll).Adds d' d.nodes.size ts) :
    d.Adds d' parent [.element name attributes ts] := by
  let d₁ := d.push parent (.element ⟨name, []⟩)
  have hattributes : attributes.putAll [] = attributes := Attributes.putAll_eq hnodup
  have hgrown : (d₁.modifyAttributes d.nodes.size attributes.putAll).nodes.size =
      d.nodes.size + 1 := by rw [size_modifyAttributes, size_push]
  have hsize : d.nodes.size < d'.nodes.size := Nat.lt_of_lt_of_le (Nat.lt_succ_self _)
    (Nat.le_trans (Nat.le_of_eq hgrown.symm) h.size)
  have hkind : d'.kind? d.nodes.size = some (.element ⟨name, attributes⟩) := by
    rw [h.kind (hgrown ▸ Nat.lt_succ_self _), kind?_modifyAttributes, if_pos rfl, kind?_push,
      if_pos rfl, Option.map_some, NodeKind.mapAttributes, hattributes]
  have hold {id : NodeId} (hid : id < d.nodes.size) :
      d'.kind? id = d.kind? id ∧ d'.children id = d₁.children id := by
    have hid₁ := Nat.lt_of_lt_of_eq (Nat.lt_succ_of_lt hid) hgrown.symm
    have hne := Nat.ne_of_lt hid
    rw [h.kind hid₁, h.children hid₁ hne, kind?_modifyAttributes, children_modifyAttributes,
      if_neg hne.symm, kind?_push, if_neg hne]
    exact ⟨rfl, rfl⟩
  refine ⟨h.linked, Nat.le_of_lt hsize, fun hid => (hold hid).1, ?_, [d.nodes.size], ?_, ?_⟩
  · intro id hid hne
    rw [(hold hid).2, children_push _ _ hparent, if_neg hne]
  · rw [(hold hparent).2, children_push _ _ hparent, if_pos rfl]
  · obtain ⟨ids, hids, hts⟩ := h.added
    have hnone : d₁.children d.nodes.size = [] := by
      rw [children_push _ _ hparent, if_neg (Nat.ne_of_gt hparent)]
      simp [Document.children]
    rw [children_modifyAttributes, hnone, List.nil_append] at hids
    rw [List.map_singleton, Document.tree_eq h.linked hsize, hkind, hids, hts]

end Adds

theorem setAttributes_eq {id : NodeId} : ∀ (attributes : Attributes) {d d' : Document},
    attributes.foldlM (fun d a => d.setAttribute id a.1 a.2) d = .ok d' →
    d' = d.modifyAttributes id attributes.putAll := by
  intro attributes
  induction attributes with
  | nil =>
    intro d d' h
    cases h
    exact (modifyAttributes_id d id).symm
  | cons a attributes ih =>
    intro d d' h
    rw [List.foldlM_cons] at h
    obtain ⟨d₁, hset, h⟩ := bind_eq_ok h
    rw [ih h, setAttribute_ok hset, modifyAttributes_modifyAttributes]
    rfl

mutual

theorem append_adds : ∀ (t : Tree) {d d' : Document} {parent : NodeId}, t.Clean → d.Linked →
    parent < d.nodes.size → d.append parent t = .ok d' → d.Adds d' parent [t]
  | .document _, _, _, _, ht, _, _, _ => ht.elim
  | .text content, d, _, parent, _, hd, hparent, h => by
    cases h
    refine .push hd hparent ?_
    have hsize : d.nodes.size < (d.push parent (.text content)).nodes.size := by
      rw [size_push]
      exact Nat.lt_succ_self _
    rw [Document.tree_eq (hd.push _ hparent) hsize, kind?_push, if_pos rfl]
  | .comment content, d, _, parent, _, hd, hparent, h => by
    cases h
    refine .push hd hparent ?_
    have hsize : d.nodes.size < (d.push parent (.comment content)).nodes.size := by
      rw [size_push]
      exact Nat.lt_succ_self _
    rw [Document.tree_eq (hd.push _ hparent) hsize, kind?_push, if_pos rfl]
  | .element name attributes children, d, d', parent, ht, hd, hparent, h => by
    obtain ⟨hnodup, hchildren⟩ := ht
    rw [Document.append] at h
    obtain ⟨⟨d₁, id⟩, happend, h⟩ := bind_eq_ok h
    obtain ⟨d₂, hset, hcontent⟩ := bind_eq_ok h
    obtain ⟨rfl, rfl⟩ := appendElement_ok happend
    rw [setAttributes_eq attributes hset] at hcontent
    have hsize : d.nodes.size < ((d.push parent (.element ⟨name, []⟩)).modifyAttributes d.nodes.size
        attributes.putAll).nodes.size := by
      rw [size_modifyAttributes, size_push]
      exact Nat.lt_succ_self _
    exact .element hparent hnodup
      (appendAll_adds children hchildren ((hd.push _ hparent).modifyAttributes _ _) hsize hcontent)

/-- Clean trees can be added to a document, behind one another. -/
theorem appendAll_adds : ∀ (ts : List Tree) {d d' : Document} {parent : NodeId}, AllClean ts →
    d.Linked → parent < d.nodes.size → d.appendAll parent ts = .ok d' → d.Adds d' parent ts
  | [], _, _, _, _, hd, _, h => by
    cases h
    exact .nil hd _
  | t :: ts, _, _, _, hts, hd, hparent, h => by
    rw [Document.appendAll] at h
    obtain ⟨d₁, happend, h⟩ := bind_eq_ok h
    have first := append_adds t hts.1 hd hparent happend
    exact first.trans
      (appendAll_adds ts hts.2 first.linked (Nat.lt_of_lt_of_le hparent first.size) h)

end

/-! ## Reading -/

/-- The trees that are read from a source are clean. -/
theorem clean_of_readTree {source : String} (h : readTree source = .ok (.document ts)) :
    AllClean ts := by
  obtain ⟨ps, -, h⟩ := bind_eq_ok h
  obtain ⟨r, -, h⟩ := bind_eq_ok h
  obtain ⟨ts', hts', h⟩ := bind_eq_ok h
  cases h
  exact allClean_iff.mpr (resolve_clean [] r hts')

/-- A document that is read holds the trees that were read. -/
theorem trees_of_read {source : String} (hts : readTree source = .ok (.document ts))
    (h : Document.read source = .ok d) : (d.children top).map d.tree = ts := by
  obtain ⟨t, ht, happend⟩ := bind_eq_ok h
  rw [hts] at ht
  cases ht
  obtain ⟨ids, hids, hadded⟩ :=
    (appendAll_adds ts (clean_of_readTree hts) .empty empty_size happend).added
  rw [hids]
  exact hadded

/-- Nothing stands at the top of a document that is read but its root. -/
theorem children_top_of_read {source : String} (h : Document.read source = .ok d) :
    d.children top = [d.root] := by
  obtain ⟨t, ht, happend⟩ := bind_eq_ok h
  obtain ⟨name, attributes, children, rfl⟩ := exists_of_readTree ht
  have hclean := (clean_of_readTree ht).1
  have hroot : d.root = 1 :=
    (steps_appendAll [.element name attributes children] empty_size happend).root
  obtain ⟨d₁, happend, hnone⟩ := bind_eq_ok happend
  cases hnone
  obtain ⟨⟨d₂, id⟩, hstart, happend⟩ := bind_eq_ok happend
  obtain ⟨d₃, hset, hcontent⟩ := bind_eq_ok happend
  obtain ⟨rfl, rfl⟩ := appendElement_ok hstart
  rw [setAttributes_eq attributes hset] at hcontent
  let started := (empty.push top (.element ⟨name, []⟩)).modifyAttributes 1 attributes.putAll
  have hlinked : started.Linked := (Linked.empty.push _ empty_size).modifyAttributes _ _
  have hsize : started.nodes.size = 2 := by rw [size_modifyAttributes, size_push]; rfl
  have hone : 1 < started.nodes.size := by rw [hsize]; decide
  have hadds := appendAll_adds children hclean.2 hlinked hone hcontent
  rw [hroot, hadds.children (Nat.lt_trans (by decide) hone) (by decide), children_modifyAttributes,
    children_push _ _ empty_size]
  rfl

end Document

end PatchScript.Xml
