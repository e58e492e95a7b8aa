import PatchScript.Proofs.XPath.NodeSets

/-!
# Axes come in pairs and run away from their node

An axis and its inverse are listed in ways of their own: one walks down with a stack, the
other climbs from parent to parent, and siblings are cut out of the children of the parent.
Since the members of both lists are known by what the axis means (`mem_alongAxis`), it is
enough that the meanings are inverse to each other.

The order of an axis is that of the document, or the opposite one for axes that run
backwards (`Axis.Outward`).  Predicates see the nodes in this order, and dropping some of
the nodes does not change it, so a position counts the nodes that are nearer
(`place_lt_iff`).
-/

namespace PatchScript.XPath

open Xml (Document NodeId)

variable {d : Document}

/-! ## Inverse axes -/

theorem Leads.child_iff (hd : d.Linked) {m n : NodeId} :
    Leads d .child (.node n) (.node m) ↔ Leads d .parent (.node m) (.node n) := by
  constructor
  · intro h
    cases h with
    | child hm => exact .parent (hd.mem_children.mp hm)
  · intro h
    cases h with
    | parent hm => exact .child (hd.mem_children.mpr hm)

theorem Leads.descendant_iff {m n : NodeId} :
    Leads d .descendant (.node n) (.node m) ↔ Leads d .ancestor (.node m) (.node n) := by
  constructor
  · intro h
    cases h with
    | descendant hm hne => exact .ancestor hm hne
  · intro h
    cases h with
    | ancestor hm hne => exact .descendant hm hne

theorem Leads.followingSibling_iff {m n : NodeId} :
    Leads d .followingSibling (.node n) (.node m) ↔
      Leads d .precedingSibling (.node m) (.node n) := by
  constructor
  · intro h
    cases h with
    | followingSibling hm => exact .precedingSibling hm
  · intro h
    cases h with
    | precedingSibling hm => exact .followingSibling hm

/-- The walk down from a node starts with the node. -/
theorem descendantOrSelf_eq (hd : d.Linked) {n : NodeId} (hn : n < d.nodes.size) :
    alongAxis d .descendantOrSelf (.node n) = .node n :: alongAxis d .descendant (.node n) := by
  show (d.descendants n).map Item.node = .node n :: ((d.descendants n).drop 1).map .node
  rw [Document.descendants_eq hd hn, Document.preorder_eq hd, List.map_cons]
  rfl

theorem not_mem_descendant (hd : d.Linked) {n : NodeId} (hn : n < d.nodes.size) :
    .node n ∉ alongAxis d .descendant (.node n) := by
  intro h
  cases (mem_nodeAxis hd hn .descendant _).mp h with
  | descendant _ hne => exact hne rfl

theorem not_mem_ancestor (hd : d.Linked) {n : NodeId} (hn : n < d.nodes.size) :
    .node n ∉ alongAxis d .ancestor (.node n) := by
  intro h
  cases (mem_nodeAxis hd hn .ancestor _).mp h with
  | ancestor _ hne => exact hne rfl

/-! ## Order -/

/-- Does the axis run against document order? -/
def Axis.isReverse : Axis → Bool
  | .ancestor | .ancestorOrSelf | .precedingSibling => true
  | _ => false

/-- Along the axis, the first of two nodes comes before the second: in document order, or
in the opposite one. -/
def Axis.Outward (axis : Axis) (d : Document) (a b : Item) : Prop :=
  if axis.isReverse then Before d b a else Before d a b

theorem Axis.Outward.irrefl (hd : d.Linked) (axis : Axis) (a : Item) :
    ¬ axis.Outward d a a := by
  unfold Axis.Outward
  split <;> exact Before.irrefl hd a

theorem Axis.Outward.asymm (hd : d.Linked) {axis : Axis} {a b : Item}
    (h : axis.Outward d a b) : ¬ axis.Outward d b a := by
  unfold Axis.Outward at *
  split at h
  · rw [if_pos ‹_›]
    exact h.asymm hd
  · rw [if_neg ‹_›]
    exact h.asymm hd

/-- A list in the order of an axis holds no node twice. -/
theorem nodup_of_outward (hd : d.Linked) {axis : Axis} {items : List Item}
    (h : items.Pairwise (axis.Outward d)) : items.Nodup := by
  refine h.imp fun hab heq => ?_
  rw [heq] at hab
  exact Axis.Outward.irrefl hd axis _ hab

/-- The nodes above a node, in the order in which one gets to them, precede the ones
before them. -/
theorem ancestors_pairwise (hd : d.Linked) (n : NodeId) :
    (n :: d.ancestors n).Pairwise fun a b => d.Precedes b a := by
  induction n using Nat.strongRecOn with
  | ind n ih =>
    rw [List.pairwise_cons]
    constructor
    · intro a ha
      obtain ⟨hunder, hne⟩ := (Document.mem_ancestors hd).mp ha
      exact .above hne hunder
    · cases hp : d.parent? n with
      | none =>
        rw [Document.ancestors_of_none hp]
        exact .nil
      | some p =>
        rw [Document.ancestors_of_some hd hp]
        exact ih p (hd.lt hp)

theorem children_pairwise (p : NodeId) : (d.children p).Pairwise d.Precedes :=
  List.pairwise_iff_forall_sublist.mpr fun h => .beside h (.refl _) (.refl _)

/-- Siblings behind a node are in document order, those before it in the opposite one. -/
theorem siblings_pairwise (n : NodeId) :
    (siblings d true n).Pairwise d.Precedes ∧
      (siblings d false n).Pairwise fun a b => d.Precedes b a := by
  unfold siblings
  cases d.parent? n with
  | none => exact ⟨.nil, .nil⟩
  | some p =>
    dsimp only
    split
    · have hbehind := (List.drop_sublist 1 _).trans
        (List.dropWhile_sublist (l := d.children p) (· != n))
      have hahead := List.takeWhile_sublist (l := d.children p) (· != n)
      exact ⟨(children_pairwise p).sublist hbehind,
        List.pairwise_reverse.mpr ((children_pairwise p).sublist hahead)⟩
    · exact ⟨.nil, .nil⟩

/-- Nodes of the document are in order if the nodes they stand for are. -/
theorem pairwise_map_node {ids : List NodeId} (h : ids.Pairwise d.Precedes) :
    (ids.map Item.node).Pairwise (Before d) :=
  List.pairwise_map.mpr (h.imp .inl)

theorem pairwise_map_node_reverse {ids : List NodeId}
    (h : ids.Pairwise fun a b => d.Precedes b a) :
    (ids.map Item.node).Pairwise fun a b => Before d b a :=
  List.pairwise_map.mpr (h.imp .inl)

theorem nodeAxis_pairwise (hd : d.Linked) {n : NodeId} (hn : n < d.nodes.size) (axis : Axis) :
    (nodeAxis d n axis).Pairwise (axis.Outward d) := by
  have hwalk : (d.descendants n).Pairwise d.Precedes := by
    rw [Document.descendants_eq hd hn]
    exact Document.preorder_pairwise hd n
  have hclimb := ancestors_pairwise hd n
  cases axis with
  | child => exact pairwise_map_node (children_pairwise n)
  | descendant => exact pairwise_map_node (hwalk.sublist (List.drop_sublist ..))
  | descendantOrSelf => exact pairwise_map_node hwalk
  | parent =>
    refine pairwise_map_node ?_
    cases d.parent? n with
    | none => exact .nil
    | some p => exact List.pairwise_singleton ..
  | ancestor => exact pairwise_map_node_reverse (List.pairwise_cons.mp hclimb).2
  | ancestorOrSelf => exact pairwise_map_node_reverse hclimb
  | followingSibling => exact pairwise_map_node (siblings_pairwise n).1
  | precedingSibling => exact pairwise_map_node_reverse (siblings_pairwise n).2
  | self => exact List.pairwise_singleton ..
  | «attribute» =>
    refine List.pairwise_map.mpr (List.pairwise_lt_range.imp fun hlt => ?_)
    exact .inr ⟨rfl, Nat.succ_lt_succ hlt⟩

/-- An axis lists the nodes along it in its order. -/
theorem alongAxis_pairwise (hd : d.Linked) {a : Item} (ha : a.id < d.nodes.size) (axis : Axis) :
    (alongAxis d axis a).Pairwise (axis.Outward d) := by
  rcases a with n | ⟨o, i⟩
  · exact nodeAxis_pairwise hd ha axis
  have hclimb := ancestors_pairwise hd o
  cases axis with
  | self => exact List.pairwise_singleton ..
  | parent => exact List.pairwise_singleton ..
  | ancestor => exact pairwise_map_node_reverse hclimb
  | ancestorOrSelf =>
    refine List.pairwise_cons.mpr ⟨fun b hb => ?_, pairwise_map_node_reverse hclimb⟩
    obtain ⟨x, hx, rfl⟩ := List.mem_map.mp hb
    rcases List.mem_cons.mp hx with rfl | hx
    · exact before_attribute x i
    · exact .inl ((List.pairwise_cons.mp hclimb).1 x hx)
  | _ => exact .nil

/-! ## Positions -/

/-- The place of a node in a list, counted from 1. -/
def place (candidates : List Item) (b : Item) : Nat := candidates.idxOf b + 1

theorem place_le_length {candidates : List Item} {b : Item} (h : b ∈ candidates) :
    place candidates b ≤ candidates.length :=
  List.idxOf_lt_length_iff.mpr h

/-- Among candidates on an axis, the place of a node is less than that of another if it
comes before it along the axis. -/
theorem place_lt_iff (hd : d.Linked) {axis : Axis} {candidates : List Item}
    (h : candidates.Pairwise (axis.Outward d)) {b c : Item} (hb : b ∈ candidates)
    (hc : c ∈ candidates) : place candidates b < place candidates c ↔ axis.Outward d b c := by
  have inOrder {x y : Item} (hx : x ∈ candidates) (hy : y ∈ candidates)
      (hlt : candidates.idxOf x < candidates.idxOf y) : axis.Outward d x y := by
    have hxy := List.pairwise_iff_getElem.mp h _ _ (List.idxOf_lt_length_iff.mpr hx)
      (List.idxOf_lt_length_iff.mpr hy) hlt
    rwa [List.getElem_idxOf, List.getElem_idxOf] at hxy
  constructor
  · exact fun hlt => inOrder hb hc (Nat.lt_of_succ_lt_succ hlt)
  · intro hbc
    rcases Nat.lt_trichotomy (candidates.idxOf b) (candidates.idxOf c) with hlt | heq | hgt
    · exact Nat.succ_lt_succ hlt
    · obtain rfl := (List.idxOf_inj hb).mp heq
      exact absurd hbc (Axis.Outward.irrefl hd axis b)
    · exact absurd hbc ((inOrder hc hb hgt).asymm hd)

/-- The nodes that a predicate keeps, by its value at each of them and their positions. -/
def keptBy (position : Item → Nat) (items : List Item) (values : List Value) : List Item :=
  ((items.zip values).filter fun (b, value) => keeps (position b) value).map (·.1)

theorem keptBy_cons (position : Item → Nat) (b : Item) (items : List Item) (value : Value)
    (values : List Value) : keptBy position (b :: items) (value :: values) =
      if keeps (position b) value then b :: keptBy position items values
      else keptBy position items values := by
  unfold keptBy
  rw [List.zip_cons_cons, List.filter_cons]
  by_cases h : keeps (position b) value
  · rw [if_pos h, if_pos h, List.map_cons]
  · rw [if_neg h, if_neg h]

/-- A predicate is evaluated at each node of a list, at the position of the node. -/
theorem keepFrom_eq (predicate : Focus → Except Error Value) (size : Nat)
    (position : Item → Nat) : ∀ (items : List Item) (before : Nat),
    (∀ i (hi : i < items.length), position items[i] = before + i + 1) →
    keepFrom predicate size before items =
      (items.mapM fun b => predicate ⟨b, position b, size⟩) >>= fun values =>
        .ok (keptBy position items values) := by
  intro items
  induction items with
  | nil => exact fun before _ => rfl
  | cons b items ih =>
    intro before h
    have hb : position b = before + 1 := h 0 (Nat.succ_pos _)
    have hrest := ih (before + 1) fun i hi => by
      have hi := h (i + 1) (Nat.succ_lt_succ hi)
      rw [List.getElem_cons_succ] at hi
      omega
    rw [keepFrom, hrest, List.mapM_cons, hb]
    simp only [bind_assoc, pure_bind, keptBy_cons, hb]
    rfl

/-- Predicates see each node of a list at its place. -/
theorem evalPredicates_cons (v : View) (p : Expr) (ps : List Expr) {items : List Item}
    (h : items.Nodup) : evalPredicates v (p :: ps) items =
      (items.mapM fun b => p.eval v ⟨b, place items b, items.length⟩) >>= fun values =>
        evalPredicates v ps (keptBy (place items) items values) := by
  rw [evalPredicates, keepFrom_eq _ _ (place items)]
  · rw [bind_assoc]
    rfl
  · intro i hi
    rw [place, h.idxOf_getElem, Nat.zero_add]

/-! ## Results -/

/-- In every document that can be made, at any of its nodes, attached or not: child and
parent, descendant and ancestor, and the two sibling axes are inverse to each other; the
axes that include the node list it first, and then what the proper axis lists, which is
not the node; every axis lists its nodes strictly in document order, or strictly in the
opposite one if it runs backwards; and a predicate on nodes of the axis is evaluated at
each of them with a position that counts from the nearest. -/
theorem axes_are_inverse_and_ordered (hd : d.Reachable) :
    (∀ m n, m < d.nodes.size → n < d.nodes.size →
      (.node m ∈ alongAxis d .child (.node n) ↔ .node n ∈ alongAxis d .parent (.node m)) ∧
      (.node m ∈ alongAxis d .descendant (.node n) ↔
        .node n ∈ alongAxis d .ancestor (.node m)) ∧
      (.node m ∈ alongAxis d .followingSibling (.node n) ↔
        .node n ∈ alongAxis d .precedingSibling (.node m))) ∧
    (∀ n, n < d.nodes.size →
      (alongAxis d .descendantOrSelf (.node n) =
          .node n :: alongAxis d .descendant (.node n) ∧
        .node n ∉ alongAxis d .descendant (.node n)) ∧
      (alongAxis d .ancestorOrSelf (.node n) = .node n :: alongAxis d .ancestor (.node n) ∧
        .node n ∉ alongAxis d .ancestor (.node n))) ∧
    ∀ (a : Item) (axis : Axis), a.id < d.nodes.size →
      (alongAxis d axis a).Pairwise (axis.Outward d) ∧
      (∀ b, ¬ axis.Outward d b b) ∧
      ∀ (v : View) (p : Expr) (candidates : List Item),
        candidates.Sublist (alongAxis d axis a) →
        (∀ b ∈ candidates, 1 ≤ place candidates b ∧ place candidates b ≤ candidates.length) ∧
        (∀ b ∈ candidates, ∀ c ∈ candidates,
          (place candidates b < place candidates c ↔ axis.Outward d b c)) ∧
        evalPredicates v [p] candidates =
          ((candidates.mapM fun b =>
              p.eval v ⟨b, place candidates b, candidates.length⟩) >>= fun values =>
            .ok (keptBy (place candidates) candidates values)) ∧
        ∀ b ∈ candidates,
          (Expr.call "position" []).eval v ⟨b, place candidates b, candidates.length⟩ =
            .ok (.number (.ofNat (place candidates b))) := by
  have hl := hd.linked
  have hmem {n : NodeId} (hn : n < d.nodes.size) (axis : Axis) (b : Item) :
      b ∈ alongAxis d axis (.node n) ↔ Leads d axis (.node n) b := mem_nodeAxis hl hn axis b
  refine ⟨fun m n hm hn => ⟨?_, ?_, ?_⟩, fun n hn => ⟨⟨?_, ?_⟩, rfl, ?_⟩, ?_⟩
  · rw [hmem hn, hmem hm]
    exact Leads.child_iff hl
  · rw [hmem hn, hmem hm]
    exact Leads.descendant_iff
  · rw [hmem hn, hmem hm]
    exact Leads.followingSibling_iff
  · exact descendantOrSelf_eq hl hn
  · exact not_mem_descendant hl hn
  · exact not_mem_ancestor hl hn
  · intro a axis ha
    have hordered := alongAxis_pairwise hl ha axis
    refine ⟨hordered, Axis.Outward.irrefl hl axis, fun v p candidates hsub => ?_⟩
    have hcandidates := hordered.sublist hsub
    refine ⟨fun b hb => ⟨Nat.succ_pos _, place_le_length hb⟩, ?_, ?_, fun b _ => rfl⟩
    · exact fun b hb c hc => place_lt_iff hl hcandidates hb hc
    · rw [evalPredicates_cons v p [] (nodup_of_outward hl hcandidates)]
      simp only [evalPredicates]

/-- At the children of an element that was detached: the second is a following sibling of
the first, the first a preceding sibling of the second, and at place 1 from there. -/
theorem axes_are_inverse_and_ordered_when_detached :
    let element (name : String) : Xml.NodeKind := .element ⟨name, []⟩
    let whole := (((Document.empty.push 0 (element "a")).push 1 (element "b")).push 2
      (element "c")).push 2 (element "e")
    let d := whole.detach 2
    d.Reachable ∧ d.parent? 2 = none ∧ 3 < d.nodes.size ∧ 4 < d.nodes.size ∧
      .node 4 ∈ alongAxis d .followingSibling (.node 3) ∧
      .node 3 ∈ alongAxis d .precedingSibling (.node 4) ∧
      (alongAxis d .precedingSibling (.node 4)).Pairwise (Axis.precedingSibling.Outward d) ∧
      1 ≤ place (alongAxis d .precedingSibling (.node 4)) (.node 3) := by
  intro element whole d
  have ha : Document.ofName "a" = .ok (Document.empty.push 0 (element "a")) := rfl
  have hb : (Document.empty.push 0 (element "a")).appendElement 1 "b" =
    .ok ((Document.empty.push 0 (element "a")).push 1 (element "b"), 2) := rfl
  have hc : ((Document.empty.push 0 (element "a")).push 1 (element "b")).appendElement 2 "c" =
    .ok (((Document.empty.push 0 (element "a")).push 1 (element "b")).push 2 (element "c"), 3) :=
    rfl
  have he : (((Document.empty.push 0 (element "a")).push 1 (element "b")).push 2
    (element "c")).appendElement 2 "e" = .ok (whole, 4) := rfl
  have hd : d.Reachable := .detach 2 (.appendElement (.appendElement (.appendElement
    (.ofName ha) (by decide) hb) (by decide) hc) (by decide) he)
  have h₃ : 3 < d.nodes.size := by decide
  have h₄ : 4 < d.nodes.size := by decide
  obtain ⟨inverse, -, ordered⟩ := axes_are_inverse_and_ordered hd
  have hfollowing : .node 4 ∈ alongAxis d .followingSibling (.node 3) := by decide
  have hpreceding := (inverse 4 3 h₄ h₃).2.2.mp hfollowing
  obtain ⟨hpairwise, -, positions⟩ := ordered (.node 4) .precedingSibling h₄
  obtain ⟨hplace, -⟩ := positions (.of d 4) (.call "true" []) _ (.refl _)
  exact ⟨hd, by decide, h₃, h₄, hfollowing, hpreceding, hpairwise, (hplace _ hpreceding).1⟩

end PatchScript.XPath
