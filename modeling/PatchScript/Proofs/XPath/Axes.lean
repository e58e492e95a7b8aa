import PatchScript.Proofs.XPath.Order
import PatchScript.XPath.Eval

/-!
# Where steps lead

What an axis and a node test mean is said here by relations: an axis leads from one node
to others, and a node passes a test.  The functions that list the nodes along an axis
and that test them are right for nodes of a tree, and no axis leads out of the tree.
-/

namespace PatchScript.XPath

open Xml (Document NodeId)

/-! ## Axes and tests -/

/-- An axis leads from a node to another. -/
inductive Leads (d : Document) : Axis → Item → Item → Prop where
  | self (a : Item) : Leads d .self a a
  | child {p c : NodeId} : c ∈ d.children p → Leads d .child (.node p) (.node c)
  | descendant {a c : NodeId} : d.Under a c → a ≠ c → Leads d .descendant (.node a) (.node c)
  | descendantOrSelf {a c : NodeId} : d.Under a c →
    Leads d .descendantOrSelf (.node a) (.node c)
  | parent {p c : NodeId} : d.parent? c = some p → Leads d .parent (.node c) (.node p)
  | owner (o : NodeId) (i : Nat) : Leads d .parent (.attribute o i) (.node o)
  | ancestor {a c : NodeId} : d.Under a c → a ≠ c → Leads d .ancestor (.node c) (.node a)
  | ownerAncestor {a o : NodeId} (i : Nat) : d.Under a o →
    Leads d .ancestor (.attribute o i) (.node a)
  | ancestorOrSelf {a c : NodeId} : d.Under a c → Leads d .ancestorOrSelf (.node c) (.node a)
  | attributeOrAncestor (o : NodeId) (i : Nat) :
    Leads d .ancestorOrSelf (.attribute o i) (.attribute o i)
  | ownerAncestorOrSelf {a o : NodeId} (i : Nat) : d.Under a o →
    Leads d .ancestorOrSelf (.attribute o i) (.node a)
  | followingSibling {p a c : NodeId} : [a, c].Sublist (d.children p) →
    Leads d .followingSibling (.node a) (.node c)
  | precedingSibling {p a c : NodeId} : [c, a].Sublist (d.children p) →
    Leads d .precedingSibling (.node a) (.node c)
  | attribute {o : NodeId} {i : Nat} : i < (d.attributes o).length →
    Leads d .attribute (.node o) (.attribute o i)

/-- A node passes a test. -/
inductive Passes (d : Document) : NodeTest → Item → Prop where
  | node (a : Item) : Passes d .node a
  | text {id : NodeId} {s : String} : d.kind? id = some (.text s) → Passes d .text (.node id)
  | comment {id : NodeId} {s : String} : d.kind? id = some (.comment s) →
    Passes d .comment (.node id)
  | element {id : NodeId} {e : Xml.Element} : d.kind? id = some (.element e) →
    Passes d .any (.node id)
  | attribute (o : NodeId) (i : Nat) : Passes d .any (.attribute o i)
  | elementName {id : NodeId} {e : Xml.Element} : d.kind? id = some (.element e) →
    Passes d (.name e.name) (.node id)
  | attributeName {o : NodeId} {i : Nat} {name value : String} :
    (d.attributes o)[i]? = some (name, value) → Passes d (.name name) (.attribute o i)

/-! ## Siblings -/

section

variable {α : Type} [DecidableEq α]

/-- What stands behind the first occurrence of a value. -/
theorem mem_behind {a x : α} (as : List α) :
    x ∈ (as.dropWhile (· != a)).drop 1 ↔ [a, x].Sublist as := by
  induction as with
  | nil => simp
  | cons b as ih =>
    by_cases hb : b = a
    · subst hb
      simp
    · rw [List.dropWhile_cons_of_pos (by simpa using hb), ih, List.sublist_cons_iff]
      refine ⟨.inl, fun h => ?_⟩
      rcases h with h | ⟨r, hr, -⟩
      · exact h
      · cases hr
        exact absurd rfl hb

/-- What stands before the only occurrence of a value. -/
theorem mem_ahead {a x : α} {as : List α} (has : as.Nodup) (ha : a ∈ as) :
    x ∈ as.takeWhile (· != a) ↔ [x, a].Sublist as := by
  induction as with
  | nil => simp at ha
  | cons b as ih =>
    obtain ⟨hfresh, has⟩ := List.nodup_cons.mp has
    by_cases hb : b = a
    · subst hb
      rw [List.takeWhile_cons_of_neg (by simp)]
      refine ⟨fun h => absurd h List.not_mem_nil, fun h => ?_⟩
      rcases List.sublist_cons_iff.mp h with h | ⟨r, hr, h⟩
      · exact absurd (h.subset (by simp)) hfresh
      · cases hr
        exact absurd (List.singleton_sublist.mp h) hfresh
    · have hmem : a ∈ as := List.mem_of_ne_of_mem (Ne.symm hb) ha
      rw [List.takeWhile_cons_of_pos (by simpa using hb), List.mem_cons, ih has hmem,
        List.sublist_cons_iff]
      constructor
      · rintro (rfl | h)
        · exact .inr ⟨[a], rfl, List.singleton_sublist.mpr hmem⟩
        · exact .inl h
      · rintro (h | ⟨r, hr, -⟩)
        · exact .inr h
        · cases hr
          exact .inl rfl

end

variable {d : Document} {top : NodeId}

/-- The siblings on one side of a node are those that stand there among the children of
its parent. -/
theorem mem_siblings (hd : d.Linked) (following : Bool) {id x : NodeId} :
    x ∈ siblings d following id ↔
      ∃ p, if following then [id, x].Sublist (d.children p)
        else [x, id].Sublist (d.children p) := by
  rw [siblings]
  cases hp : d.parent? id with
  | none =>
    refine ⟨fun h => absurd h List.not_mem_nil, fun ⟨p, h⟩ => ?_⟩
    have hmem : id ∈ d.children p := by
      cases following <;> exact h.subset (by simp)
    rw [hd.mem_children.mp hmem] at hp
    cases hp
  | some p =>
    have hmem := hd.mem_children.mpr hp
    have only (h : ∃ q, if following then [id, x].Sublist (d.children q)
        else [x, id].Sublist (d.children q)) :
        if following then [id, x].Sublist (d.children p) else [x, id].Sublist (d.children p) := by
      obtain ⟨q, h⟩ := h
      have hq : id ∈ d.children q := by
        cases following <;> exact h.subset (by simp)
      obtain rfl := Option.some.inj (hp.symm.trans (hd.mem_children.mp hq))
      exact h
    dsimp only
    rw [if_pos (List.contains_iff_mem.mpr hmem)]
    cases following with
    | true => exact (mem_behind _).trans ⟨fun h => ⟨p, h⟩, only⟩
    | false =>
      rw [if_neg (by simp), List.mem_reverse, mem_ahead (hd.nodup p) hmem]
      exact ⟨fun h => ⟨p, h⟩, only⟩

/-! ## The functions -/

/-- The nodes above a node and the node itself, in a list. -/
theorem mem_cons_ancestors (hd : d.Linked) {a id : NodeId} :
    a ∈ id :: d.ancestors id ↔ d.Under a id := by
  rw [List.mem_cons, Document.mem_ancestors hd]
  constructor
  · rintro (rfl | ⟨h, -⟩)
    · exact .refl a
    · exact h
  · intro h
    by_cases hne : a = id
    · exact .inl hne
    · exact .inr ⟨h, hne⟩

/-- The list of the nodes along an axis from a node of the document. -/
theorem mem_nodeAxis (hd : d.Linked) {id : NodeId} (hid : id < d.nodes.size) (axis : Axis)
    (b : Item) : b ∈ nodeAxis d id axis ↔ Leads d axis (.node id) b := by
  have under {x : NodeId} : x ∈ d.descendants id ↔ d.Under id x := by
    rw [Document.descendants_eq hd hid, Document.mem_preorder hd]
  -- The walk starts with the node itself, and does not come back to it.
  have below {x : NodeId} : x ∈ (d.descendants id).drop 1 ↔ d.Under id x ∧ id ≠ x := by
    have hnodup := Document.preorder_nodup hd id
    rw [← Document.mem_preorder hd, Document.descendants_eq hd hid]
    rw [Document.preorder_eq hd] at hnodup ⊢
    obtain ⟨hfresh, -⟩ := List.nodup_cons.mp hnodup
    rw [List.drop_succ_cons, List.drop_zero, List.mem_cons]
    constructor
    · exact fun hx => ⟨.inr hx, fun heq => hfresh (heq ▸ hx)⟩
    · rintro ⟨rfl | hx, hne⟩
      · exact absurd rfl hne
      · exact hx
  constructor
  · intro h
    cases axis with
    | child =>
      obtain ⟨c, hc, rfl⟩ := List.mem_map.mp h
      exact .child hc
    | descendant =>
      obtain ⟨c, hc, rfl⟩ := List.mem_map.mp h
      exact .descendant (below.mp hc).1 (below.mp hc).2
    | descendantOrSelf =>
      obtain ⟨c, hc, rfl⟩ := List.mem_map.mp h
      exact .descendantOrSelf (under.mp hc)
    | parent =>
      obtain ⟨p, hp, rfl⟩ := List.mem_map.mp h
      exact .parent (Option.mem_toList.mp hp)
    | ancestor =>
      obtain ⟨a, ha, rfl⟩ := List.mem_map.mp h
      obtain ⟨ha, hne⟩ := (Document.mem_ancestors hd).mp ha
      exact .ancestor ha hne
    | ancestorOrSelf =>
      obtain ⟨a, ha, rfl⟩ := List.mem_map.mp h
      exact .ancestorOrSelf ((mem_cons_ancestors hd).mp ha)
    | followingSibling =>
      obtain ⟨c, hc, rfl⟩ := List.mem_map.mp h
      obtain ⟨p, hp⟩ := (mem_siblings hd true).mp hc
      exact .followingSibling hp
    | precedingSibling =>
      obtain ⟨c, hc, rfl⟩ := List.mem_map.mp h
      obtain ⟨p, hp⟩ := (mem_siblings hd false).mp hc
      exact .precedingSibling hp
    | self =>
      rw [List.mem_singleton.mp h]
      exact .self _
    | «attribute» =>
      obtain ⟨i, hi, rfl⟩ := List.mem_map.mp h
      exact .attribute (List.mem_range.mp hi)
  · intro h
    cases h with
    | self => exact List.mem_singleton.mpr rfl
    | child hc => exact List.mem_map_of_mem hc
    | descendant hc hne => exact List.mem_map_of_mem (below.mpr ⟨hc, hne⟩)
    | descendantOrSelf hc => exact List.mem_map_of_mem (under.mpr hc)
    | parent hp => exact List.mem_map_of_mem (Option.mem_toList.mpr hp)
    | ancestor ha hne => exact List.mem_map_of_mem ((Document.mem_ancestors hd).mpr ⟨ha, hne⟩)
    | ancestorOrSelf ha => exact List.mem_map_of_mem ((mem_cons_ancestors hd).mpr ha)
    | followingSibling hp => exact List.mem_map_of_mem ((mem_siblings hd true).mpr ⟨_, hp⟩)
    | precedingSibling hp => exact List.mem_map_of_mem ((mem_siblings hd false).mpr ⟨_, hp⟩)
    | «attribute» hi => exact List.mem_map_of_mem (List.mem_range.mpr hi)

/-- The list of the nodes along an axis holds those that the axis leads to. -/
theorem mem_alongAxis (hd : d.Linked) {a : Item} (ha : a.id < d.nodes.size) (axis : Axis)
    (b : Item) : b ∈ alongAxis d axis a ↔ Leads d axis a b := by
  rcases a with id | ⟨o, i⟩
  · exact mem_nodeAxis hd ha axis b
  constructor
  · intro h
    cases axis with
    | self =>
      rw [List.mem_singleton.mp h]
      exact .self _
    | parent =>
      rw [List.mem_singleton.mp h]
      exact .owner o i
    | ancestor =>
      obtain ⟨a, ha, rfl⟩ := List.mem_map.mp h
      exact .ownerAncestor i ((mem_cons_ancestors hd).mp ha)
    | ancestorOrSelf =>
      rcases List.mem_cons.mp h with rfl | h
      · exact .attributeOrAncestor o i
      · obtain ⟨a, ha, rfl⟩ := List.mem_map.mp h
        exact .ownerAncestorOrSelf i ((mem_cons_ancestors hd).mp ha)
    | _ => exact absurd h List.not_mem_nil
  · intro h
    cases h with
    | self => exact List.mem_singleton.mpr rfl
    | owner => exact List.mem_singleton.mpr rfl
    | ownerAncestor _ ha => exact List.mem_map_of_mem ((mem_cons_ancestors hd).mpr ha)
    | attributeOrAncestor => exact List.mem_cons_self ..
    | ownerAncestorOrSelf _ ha =>
      exact List.mem_cons_of_mem _ (List.mem_map_of_mem ((mem_cons_ancestors hd).mpr ha))

/-- No axis leads out of the tree. -/
theorem Leads.inTree (hd : d.Linked) (htop : d.parent? top = none) {axis : Axis} {a b : Item}
    (h : Leads d axis a b) (ha : InTree d top a) : InTree d top b := by
  have child {x p : NodeId} (hx : d.Under top p) (hc : x ∈ d.children p) : d.Under top x :=
    hx.trans (.child hc)
  have sibling {x y p : NodeId} (hx : d.Under top x) (hxp : x ∈ d.children p)
      (hyp : y ∈ d.children p) : d.Under top y :=
    child (hx.parent hd htop (hd.mem_children.mp hxp)) hyp
  cases h with
  | self => exact ha
  | child hc => exact child ha hc
  | descendant hc _ => exact ha.trans hc
  | descendantOrSelf hc => exact ha.trans hc
  | parent hp => exact ha.parent hd htop hp
  | owner => exact ha.1
  | ancestor h _ => exact ha.above hd htop h
  | ownerAncestor _ h => exact ha.1.above hd htop h
  | ancestorOrSelf h => exact ha.above hd htop h
  | attributeOrAncestor => exact ha
  | ownerAncestorOrSelf _ h => exact ha.1.above hd htop h
  | followingSibling h => exact sibling ha (h.subset (by simp)) (h.subset (by simp))
  | precedingSibling h => exact sibling ha (h.subset (by simp)) (h.subset (by simp))
  | «attribute» hi => exact ⟨ha, hi⟩

/-- Testing a node of the tree tells whether it passes. -/
theorem passes_iff {v : View} {b : Item} (hb : InTree v.document top b) (test : NodeTest) :
    passes v test b = true ↔ Passes v.document test b := by
  rcases b with id | ⟨o, i⟩
  · constructor
    · intro h
      unfold passes at h
      dsimp only at h
      split at h
      · exact .node _
      · exact .text ‹_›
      · exact .comment ‹_›
      · exact .element ‹_›
      · rename_i hkind
        rw [← beq_iff_eq.mp h]
        exact .elementName hkind
      · cases h
    · intro h
      cases h with
      | node => rfl
      | text hkind => simp [passes, hkind]
      | comment hkind => simp [passes, hkind]
      | element hkind => simp [passes, hkind]
      | elementName hkind => simp [passes, hkind]
  · obtain ⟨⟨name, value⟩, hi⟩ : ∃ a, (v.document.attributes o)[i]? = some a :=
      ⟨_, List.getElem?_eq_getElem hb.2⟩
    have hname : v.nameOf (.attribute o i) = name := by
      show (((v.document.attributes o)[i]?).map (·.1)).getD "" = name
      rw [hi]
      rfl
    cases test with
    | any => exact ⟨fun _ => .attribute o i, fun _ => rfl⟩
    | node => exact ⟨fun _ => .node _, fun _ => rfl⟩
    | text => exact ⟨nofun, nofun⟩
    | comment => exact ⟨nofun, nofun⟩
    | name s =>
      unfold passes
      dsimp only
      rw [hname, beq_iff_eq]
      constructor
      · rintro rfl
        exact .attributeName hi
      · intro h
        cases h with
        | attributeName hi' =>
          rw [hi] at hi'
          cases hi'
          rfl

end PatchScript.XPath
