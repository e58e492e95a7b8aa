import PatchScript.Proofs.Xml.Joining
import PatchScript.Proofs.Xml.NormalForm

/-!
# Documents without blank texts

No text of a document that is read is blank, and no directive makes a text.  So the trees of a
document stay clean while it is changed (`Document.clean_tree`), whatever else becomes of them.
-/

namespace PatchScript.Xml

namespace Document

variable {d d' : Document}

/-- No text is blank. -/
def Filled (d : Document) : Prop :=
  ∀ id content, d.kind? id = some (.text content) → isBlankText content = false

namespace Filled

theorem push (h : d.Filled) {kind : NodeKind}
    (hkind : ∀ content, kind = .text content → isBlankText content = false) (parent : NodeId) :
    (d.push parent kind).Filled := by
  intro id content hid
  rw [kind?_push] at hid
  split at hid
  · exact hkind content (Option.some.inj hid)
  · exact h id content hid

theorem modifyAttributes (h : d.Filled) (id : NodeId) (f : Attributes → Attributes) :
    (d.modifyAttributes id f).Filled := by
  intro c content hc
  rw [kind?_modifyAttributes] at hc
  split at hc
  · obtain ⟨kind, hkind, hmap⟩ := Option.map_eq_some_iff.mp hc
    cases kind with
    | text content' =>
      cases hmap
      exact h c content hkind
    | document | element | comment => cases hmap
  · exact h c content hc

theorem detach (h : d.Filled) (id : NodeId) : (d.detach id).Filled := by
  intro c content hc
  rw [kind?_detach] at hc
  exact h c content hc

theorem setAttribute (h : d.Filled) {id : NodeId} {name value : String}
    (hset : d.setAttribute id name value = .ok d') : d'.Filled := by
  rw [setAttribute_ok hset]
  exact h.modifyAttributes id _

theorem appendElement (h : d.Filled) {parent id : NodeId} {name : String}
    (happend : d.appendElement parent name = .ok (d', id)) : d'.Filled := by
  rw [(appendElement_ok happend).1]
  exact h.push (fun _ he => by cases he) parent

/-- Clean trees can be added. -/
theorem keptByAdding : KeptByAdding Filled Tree.Clean where
  appendElement hd := hd.appendElement
  setAttribute hd := hd.setAttribute
  text {_ parent _} hd ht := hd.push (fun content hcontent => by cases hcontent; exact ht) parent
  comment {_ parent _} hd _ := hd.push (fun content hcontent => by cases hcontent) parent
  element ht := allClean_iff.mp ht.2
  document ht := ht

theorem empty : Filled empty := by
  intro id content h
  cases id <;> cases h

end Filled

/-- In a document that is read, no text is blank. -/
theorem filled_of_read {source : String} (h : Document.read source = .ok d) : d.Filled := by
  obtain ⟨t, ht, h⟩ := bind_eq_ok h
  obtain ⟨ts, rfl, -, -⟩ := readTree_sound ht
  exact Filled.keptByAdding.appendAll ts .empty (allClean_iff.mp (clean_of_readTree ht)) h

/-! ## Trees -/

/-- The trees of a document are clean and sound and have valid names, detached or not. -/
theorem clean_tree (hd : d.Reachable) (hfilled : d.Filled) (hsound : d.Sound) (id : NodeId) :
    id < d.nodes.size → id ≠ top →
      (d.tree id).Clean ∧ (d.tree id).Sound ∧ (d.tree id).HasValidNames := by
  have hlinked := hd.linked
  induction id using hlinked.induction with
  | step id ih =>
    intro hsize hne
    have htree := tree_eq hlinked hsize
    obtain ⟨kind, hkind⟩ := exists_kind hsize
    rw [hkind] at htree
    rw [htree]
    cases kind with
    | document => exact absurd ((hd.oneTop id).mp hkind) hne
    | text content => exact ⟨hfilled id content hkind, hsound id _ hkind, trivial⟩
    | comment content => exact ⟨trivial, hsound id _ hkind, trivial⟩
    | element e =>
      have hnamed := hd.steps.named .empty id e hkind
      have hchildren : ∀ c ∈ d.children id,
          (d.tree c).Clean ∧ (d.tree c).Sound ∧ (d.tree c).HasValidNames := by
        intro c hc
        obtain ⟨hbehind, hlt⟩ := hlinked.below (.single hc)
        exact ih c hc hlt (Nat.ne_of_gt (Nat.lt_of_le_of_lt (Nat.zero_le _) hbehind))
      refine ⟨⟨hnamed.distinct, allClean_iff.mpr ?_⟩, allSound_iff.mpr ?_,
        hnamed.name, hnamed.attributes, haveValidNames_iff.mpr ?_⟩
      · exact List.forall_mem_map.mpr fun c hc => (hchildren c hc).1
      · exact List.forall_mem_map.mpr fun c hc => (hchildren c hc).2.1
      · exact List.forall_mem_map.mpr fun c hc => (hchildren c hc).2.2

end Document

end PatchScript.Xml
