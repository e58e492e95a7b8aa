import PatchScript.Proofs.Xml.Elements

/-!
# Nodes that are taken away together

Nodes are taken from their parents one after the other, out of a document that changes meanwhile.
One of them may be above another one, beside it, or at the top already, so that what the first ones
leave behind is what the next ones are taken from.  All the same it is as if they were taken away
at once (`Document.removes_detachAll`): each of them has no parent, the others have the parents
that they had, and lists of children only have the nodes left out.
-/

namespace PatchScript.Xml

namespace Document

variable {a b c d : Document} {ids : List NodeId}

/-- The second document is the first one with nodes taken from their parents, all at once. -/
structure Removes (ids : List NodeId) (d d' : Document) : Prop where
  /-- No node is gone, and there is no new one. -/
  size : d'.nodes.size = d.nodes.size
  /-- The document started with the same element. -/
  root : d'.root = d.root
  /-- A node is what it was, with the same name, attributes or content. -/
  kind? (id : NodeId) : d'.kind? id = d.kind? id
  /-- What is taken away has no parent. -/
  parent?_of_mem {id : NodeId} : id ∈ ids → d'.parent? id = none
  /-- The other nodes have the parents that they had. -/
  parent?_of_not_mem {id : NodeId} : id ∉ ids → d'.parent? id = d.parent? id
  /-- The children that are left are in the order that they had. -/
  children (id : NodeId) : d'.children id = (d.children id).filter (· ∉ ids)

namespace Removes

theorem nil (d : Document) : Removes [] d d where
  size := rfl
  root := rfl
  kind? _ := rfl
  parent?_of_mem h := absurd h List.not_mem_nil
  parent?_of_not_mem _ := rfl
  children _ := by simp

/-- A node is taken away, which may have been at the top before. -/
theorem detach (hd : d.Linked) (id : NodeId) : Removes [id] d (d.detach id) := by
  -- A node is a child of its parent only, so nothing is left out elsewhere.
  have elsewhere {p : NodeId} (hp : d.parent? id ≠ some p) :
      (d.children p).filter (· ∉ [id]) = d.children p := by
    refine List.filter_eq_self.mpr fun x hx => ?_
    have hne : x ≠ id := by
      rintro rfl
      exact hp (hd.mem_children.mp hx)
    simpa using hne
  cases hid : d.parent? id with
  | none =>
    rw [detach_eq_self hid]
    refine ⟨rfl, rfl, fun _ => rfl, fun h => ?_, fun _ => rfl, fun p => ?_⟩
    · rw [List.mem_singleton.mp h]
      exact hid
    · exact (elsewhere (by rw [hid]; exact nofun)).symm
  | some p =>
    refine ⟨size_detach d id, (Step.detach id).root, kind?_detach d id, fun h => ?_, fun h => ?_,
      fun q => ?_⟩
    · rw [parent?_detach hid, if_pos (List.mem_singleton.mp h)]
    · rw [parent?_detach hid, if_neg (List.mem_singleton.not.mp h)]
    · rw [children_detach hid]
      split
      · exact List.filter_congr fun x _ => by grind
      · rename_i hq
        refine (elsewhere fun h => hq ?_).symm
        exact Option.some.inj (h.symm.trans hid)

/-- What is taken away first and what is taken away then is taken away together. -/
theorem append {others : List NodeId} (hab : Removes ids a b) (hbc : Removes others b c) :
    Removes (ids ++ others) a c where
  size := hbc.size.trans hab.size
  root := hbc.root.trans hab.root
  kind? id := (hbc.kind? id).trans (hab.kind? id)
  parent?_of_mem {id} h := by
    by_cases hother : id ∈ others
    · exact hbc.parent?_of_mem hother
    · rw [hbc.parent?_of_not_mem hother]
      exact hab.parent?_of_mem ((List.mem_append.mp h).resolve_right hother)
  parent?_of_not_mem {id} h := by
    obtain ⟨hfirst, hother⟩ := not_or.mp (List.mem_append.not.mp h)
    rw [hbc.parent?_of_not_mem hother, hab.parent?_of_not_mem hfirst]
  children id := by
    rw [hbc.children, hab.children, List.filter_filter]
    refine List.filter_congr fun x _ => ?_
    simp [Bool.and_comm]

end Removes

/-- Nodes that are taken away one after the other are taken away together. -/
theorem removes_detachAll : ∀ (ids : List NodeId) {d : Document}, d.Linked →
    Removes ids d (ids.foldl Document.detach d) := by
  intro ids
  induction ids with
  | nil => exact fun _ => .nil _
  | cons id ids ih =>
    intro d hd
    exact (Removes.detach hd id).append (ih (hd.detach id))

end Document

end PatchScript.Xml
