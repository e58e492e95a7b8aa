import PatchScript.Proofs.Xml.Arena
import Mathlib.Logic.Relation

/-!
# Trees of a document

A linked document is a forest.  The nodes under a node are those that one gets to by
going from nodes to their children; the tree of a node is all that is under the topmost
node above it.

The nodes under a node are listed by `preorder`, which follows the tree, and the walk
with a stack gives the same list (`descendants_eq`).  The list is in document order: a
node precedes what is under it, and of two siblings, the first and all under it precede
the second and all under that.
-/

namespace PatchScript.Xml

namespace Document

/-- The nodes under a node, itself included. -/
def Under (d : Document) : NodeId → NodeId → Prop :=
  Relation.ReflTransGen fun p c => c ∈ d.children p

/-- Document order between nodes. -/
inductive Precedes (d : Document) : NodeId → NodeId → Prop where
  /-- A node precedes what is under it. -/
  | above {a b : NodeId} : a ≠ b → d.Under a b → Precedes d a b
  /-- Siblings precede each other with all that is under them. -/
  | beside {p c₁ c₂ a b : NodeId} : [c₁, c₂].Sublist (d.children p) → d.Under c₁ a →
    d.Under c₂ b → Precedes d a b

variable {d : Document}

/-! ## Above and under -/

theorem Under.refl (id : NodeId) : d.Under id id := Relation.ReflTransGen.refl

theorem Under.trans {a b c : NodeId} (hab : d.Under a b) (hbc : d.Under b c) : d.Under a c :=
  Relation.ReflTransGen.trans hab hbc

theorem Under.child {p c : NodeId} (h : c ∈ d.children p) : d.Under p c :=
  Relation.ReflTransGen.single h

/-- A node that is under another is that node or under the parent of its own. -/
theorem Under.cases_parent (hd : d.Linked) {a c : NodeId} (h : d.Under a c) :
    a = c ∨ ∃ p, d.parent? c = some p ∧ d.Under a p := by
  rcases Relation.ReflTransGen.cases_tail h with rfl | ⟨p, hap, hpc⟩
  · exact .inl rfl
  · exact .inr ⟨p, hd.mem_children.mp hpc, hap⟩

/-- A node that is under another is made after it. -/
theorem Under.le (hd : d.Linked) {a c : NodeId} (h : d.Under a c) : a ≤ c := by
  induction h with
  | refl => exact Nat.le_refl a
  | tail _ hpc ih => exact Nat.le_trans ih (Nat.le_of_lt (hd.lt (hd.mem_children.mp hpc)))

theorem Under.antisymm (hd : d.Linked) {a b : NodeId} (hab : d.Under a b) (hba : d.Under b a) :
    a = b :=
  Nat.le_antisymm (hab.le hd) (hba.le hd)

/-- What is under a node of the arena is in the arena. -/
theorem Under.lt_size (hd : d.Linked) {a c : NodeId} (h : d.Under a c) (ha : a < d.nodes.size) :
    c < d.nodes.size := by
  rcases h.cases_parent hd with rfl | ⟨p, hp, -⟩
  · exact ha
  · exact lt_size_of_parent? hp

/-- Of two nodes above the same node, one is above the other. -/
theorem Under.total (hd : d.Linked) {a b x : NodeId} (ha : d.Under a x) (hb : d.Under b x) :
    d.Under a b ∨ d.Under b a := by
  have unique : Relator.RightUnique (Function.swap fun p c => c ∈ d.children p) := by
    intro c p q hp hq
    have hp := hd.mem_children.mp hp
    have hq := hd.mem_children.mp hq
    exact Option.some.inj (hp.symm.trans hq)
  rcases Relation.ReflTransGen.total_of_right_unique unique
    (Relation.reflTransGen_swap.mpr ha) (Relation.reflTransGen_swap.mpr hb) with h | h
  · exact .inr (Relation.reflTransGen_swap.mp h)
  · exact .inl (Relation.reflTransGen_swap.mp h)

/-- Nothing is under two siblings. -/
theorem Under.sibling_unique (hd : d.Linked) {p c₁ c₂ x : NodeId} (h₁ : c₁ ∈ d.children p)
    (h₂ : c₂ ∈ d.children p) (hx₁ : d.Under c₁ x) (hx₂ : d.Under c₂ x) : c₁ = c₂ := by
  -- If one were above the other, it would be above its own parent too.
  have impossible {a b : NodeId} (ha : a ∈ d.children p) (hb : b ∈ d.children p)
      (hab : d.Under a b) : a = b := by
    rcases hab.cases_parent hd with heq | ⟨q, hq, haq⟩
    · exact heq
    · have hqp := Option.some.inj (hq.symm.trans (hd.mem_children.mp hb))
      subst hqp
      exact absurd (haq.le hd) (Nat.not_le.mpr (hd.lt (hd.mem_children.mp ha)))
  rcases hx₁.total hd hx₂ with h | h
  · exact impossible h₁ h₂ h
  · exact (impossible h₂ h₁ h).symm

/-- Behind a child there are fewer nodes than behind its parent. -/
theorem Linked.behind_lt (hd : d.Linked) {p c : NodeId} (h : c ∈ d.children p) :
    d.nodes.size - c < d.nodes.size - p := by
  have hparent := hd.mem_children.mp h
  have hlt := hd.lt hparent
  exact Nat.sub_lt_sub_left (Nat.lt_trans hlt (lt_size_of_parent? hparent)) hlt

/-- What holds of a node if it holds of its children holds of every node. -/
theorem Linked.induction (hd : d.Linked) {motive : NodeId → Prop}
    (step : ∀ id, (∀ c ∈ d.children id, motive c) → motive id) (id : NodeId) : motive id := by
  generalize hn : d.nodes.size - id = n
  induction n using Nat.strongRecOn generalizing id with
  | ind n ih =>
    refine step id fun c hc => ih _ ?_ c rfl
    rw [← hn]
    exact hd.behind_lt hc

/-! ## Preorder -/

/-- A node and all under it, a node before its children, down to a number of levels. -/
def preorderFrom (d : Document) : (levels : Nat) → NodeId → List NodeId
  | 0, _ => []
  | n + 1, id => id :: (d.children id).flatMap (preorderFrom d n)

/-- A node and all under it, a node before its children. -/
def preorder (d : Document) (id : NodeId) : List NodeId :=
  d.preorderFrom (d.nodes.size - id + 1) id

theorem preorderFrom_eq (hd : d.Linked) : ∀ {n m : Nat} {id : NodeId},
    d.nodes.size - id < n → d.nodes.size - id < m → d.preorderFrom n id = d.preorderFrom m id := by
  intro n
  induction n with
  | zero => exact fun h => absurd h (Nat.not_lt_zero _)
  | succ n ih =>
    intro m id hn hm
    cases m with
    | zero => exact absurd hm (Nat.not_lt_zero _)
    | succ m =>
      rw [preorderFrom, preorderFrom]
      refine congrArg (id :: ·) (List.flatMap_congr fun c hc => ?_)
      have hlt := hd.behind_lt hc
      exact ih (by omega) (by omega)

/-- The list of a node goes through the lists of its children. -/
theorem preorder_eq (hd : d.Linked) (id : NodeId) :
    d.preorder id = id :: (d.children id).flatMap d.preorder := by
  rw [preorder, preorderFrom]
  refine congrArg (id :: ·) (List.flatMap_congr fun c hc => ?_)
  exact preorderFrom_eq hd (hd.behind_lt hc) (Nat.lt_succ_self _)

/-- The list of a node holds what is under it. -/
theorem mem_preorder (hd : d.Linked) {id x : NodeId} : x ∈ d.preorder id ↔ d.Under id x := by
  constructor
  · induction id using hd.induction with
    | step id ih =>
      intro hx
      rw [preorder_eq hd, List.mem_cons, List.mem_flatMap] at hx
      rcases hx with rfl | ⟨c, hc, hx⟩
      · exact .refl x
      · exact (Under.child hc).trans (ih c hc hx)
  · intro h
    induction h using Relation.ReflTransGen.head_induction_on with
    | refl =>
      rw [preorder_eq hd]
      exact List.mem_cons_self ..
    | head hpc _ ih =>
      rw [preorder_eq hd]
      exact List.mem_cons_of_mem _ (List.mem_flatMap.mpr ⟨_, hpc, ih⟩)

theorem preorder_nodup (hd : d.Linked) (id : NodeId) : (d.preorder id).Nodup := by
  induction id using hd.induction with
  | step id ih =>
    rw [preorder_eq hd, List.nodup_cons, List.nodup_flatMap]
    refine ⟨?_, ih, ?_⟩
    · intro hmem
      obtain ⟨c, hc, hx⟩ := List.mem_flatMap.mp hmem
      have hle := ((mem_preorder hd).mp hx).le hd
      exact absurd hle (Nat.not_le.mpr (hd.lt (hd.mem_children.mp hc)))
    · refine (hd.nodup id).imp_of_mem fun hc₁ hc₂ hne x hx₁ hx₂ => hne ?_
      exact Under.sibling_unique hd hc₁ hc₂ ((mem_preorder hd).mp hx₁) ((mem_preorder hd).mp hx₂)

/-! ## Document order -/

/-- The list of a node is in document order. -/
theorem preorder_pairwise (hd : d.Linked) (id : NodeId) :
    (d.preorder id).Pairwise d.Precedes := by
  induction id using hd.induction with
  | step id ih =>
    rw [preorder_eq hd, List.pairwise_cons, List.pairwise_flatMap]
    refine ⟨?_, ih, ?_⟩
    · intro x hx
      obtain ⟨c, hc, hx⟩ := List.mem_flatMap.mp hx
      have hcx := (mem_preorder hd).mp hx
      refine .above ?_ ((Under.child hc).trans hcx)
      rintro rfl
      exact absurd (hcx.le hd) (Nat.not_le.mpr (hd.lt (hd.mem_children.mp hc)))
    · refine List.pairwise_iff_forall_sublist.mpr fun hsub x hx y hy => ?_
      exact .beside hsub ((mem_preorder hd).mp hx) ((mem_preorder hd).mp hy)

/-- Siblings that precede each other are different. -/
theorem Linked.ne_of_sublist (hd : d.Linked) {p c₁ c₂ : NodeId}
    (h : [c₁, c₂].Sublist (d.children p)) : c₁ ∈ d.children p ∧ c₂ ∈ d.children p ∧ c₁ ≠ c₂ := by
  have hnodup := h.nodup (hd.nodup p)
  refine ⟨h.subset (by simp), h.subset (by simp), ?_⟩
  simpa using hnodup

/-- No node precedes itself. -/
theorem Precedes.irrefl (hd : d.Linked) (a : NodeId) : ¬ d.Precedes a a := by
  intro h
  cases h with
  | above hne _ => exact hne rfl
  | beside hsub h₁ h₂ =>
    obtain ⟨hc₁, hc₂, hne⟩ := hd.ne_of_sublist hsub
    exact hne (Under.sibling_unique hd hc₁ hc₂ h₁ h₂)

/-- Of two different siblings only one stands before the other. -/
theorem Linked.not_both_sublist (hd : d.Linked) {p a b : NodeId}
    (hab : [a, b].Sublist (d.children p)) : ¬ [b, a].Sublist (d.children p) := by
  intro hba
  have hnodup := hd.nodup p
  have places : (d.children p).Pairwise fun a b =>
      (d.children p).idxOf a < (d.children p).idxOf b := by
    rw [List.pairwise_iff_getElem]
    intro i j hi hj hij
    rwa [hnodup.idxOf_getElem, hnodup.idxOf_getElem]
  have h₁ := List.pairwise_iff_forall_sublist.mp places hab
  have h₂ := List.pairwise_iff_forall_sublist.mp places hba
  exact Nat.lt_asymm h₁ h₂

/-- No two nodes precede each other. -/
theorem Precedes.asymm (hd : d.Linked) {a b : NodeId} (hab : d.Precedes a b) :
    ¬ d.Precedes b a := by
  intro hba
  cases hab with
  | above hne hab =>
    cases hba with
    | above _ hba => exact hne (hab.antisymm hd hba)
    | beside hsub hb ha =>
      obtain ⟨hc₁, hc₂, hne⟩ := hd.ne_of_sublist hsub
      exact hne (Under.sibling_unique hd hc₁ hc₂ hb (ha.trans hab))
  | @beside p c₁ c₂ _ _ hsub ha hb =>
    obtain ⟨hc₁, hc₂, hne⟩ := hd.ne_of_sublist hsub
    cases hba with
    | above _ hba => exact hne (Under.sibling_unique hd hc₁ hc₂ ha (hb.trans hba))
    | @beside q e₁ e₂ _ _ hsub' hb' ha' =>
      obtain ⟨he₁, he₂, hne'⟩ := hd.ne_of_sublist hsub'
      -- The branches towards `a` are above each other, so they start from the same node.
      have same : c₁ ≠ e₂ := by
        rintro rfl
        have hp := hd.mem_children.mp hc₁
        obtain rfl := Option.some.inj (hp.symm.trans (hd.mem_children.mp he₂))
        obtain rfl := Under.sibling_unique hd hc₂ he₁ hb hb'
        exact hd.not_both_sublist hsub hsub'
      rcases ha.total hd ha' with h | h
      · rcases h.cases_parent hd with heq | ⟨r, hr, hcr⟩
        · exact same heq
        · obtain rfl := Option.some.inj (hr.symm.trans (hd.mem_children.mp he₂))
          exact hne (Under.sibling_unique hd hc₁ hc₂ ((hcr.trans (.child he₁)).trans hb') hb)
      · rcases h.cases_parent hd with heq | ⟨r, hr, her⟩
        · exact same heq.symm
        · obtain rfl := Option.some.inj (hr.symm.trans (hd.mem_children.mp hc₁))
          exact hne' (Under.sibling_unique hd he₁ he₂ hb' ((her.trans (.child hc₂)).trans hb))

/-! ## The walk -/

/-- The walk lists the nodes on the stack with all under them, if there are steps
enough. -/
theorem walk_eq (hd : d.Linked) : ∀ (n : Nat) (found stack : List NodeId),
    (stack.flatMap d.preorder).length ≤ n →
    d.walk n found stack = found.reverse ++ stack.flatMap d.preorder := by
  intro n
  induction n with
  | zero =>
    intro found stack h
    cases stack with
    | nil => simp [walk]
    | cons id stack =>
      rw [List.flatMap_cons, preorder_eq hd] at h
      simp at h
  | succ n ih =>
    intro found stack h
    cases stack with
    | nil => simp [walk]
    | cons id stack =>
      have htail : ((d.children id ++ stack).flatMap d.preorder).length ≤ n := by
        rw [List.flatMap_cons, preorder_eq hd] at h
        rw [List.flatMap_append]
        simpa using h
      rw [walk, ih _ _ htail, List.flatMap_cons, preorder_eq hd, List.flatMap_append]
      simp

/-- Under a node there are no more nodes than in the arena. -/
theorem length_preorder_le (hd : d.Linked) {id : NodeId} (hid : id < d.nodes.size) :
    (d.preorder id).length ≤ d.nodes.size := by
  have hsub : d.preorder id ⊆ List.range d.nodes.size := by
    intro x hx
    rw [List.mem_range]
    exact ((mem_preorder hd).mp hx).lt_size hd hid
  have hle := (preorder_nodup hd id).length_le_of_subset hsub
  rwa [List.length_range] at hle

/-- With as many steps as there are nodes, or more, the walk lists all that is under a node. -/
theorem walk_eq_preorder (hd : d.Linked) {id : NodeId} (hid : id < d.nodes.size) {steps : Nat}
    (hsteps : d.nodes.size ≤ steps) : d.walk steps [] [id] = d.preorder id := by
  have hbound := Nat.le_trans (length_preorder_le hd hid) hsteps
  rw [walk_eq hd]
  · simp
  · simpa using hbound

/-- A node and all below it are what is under it, in document order. -/
theorem descendants_eq (hd : d.Linked) {id : NodeId} (hid : id < d.nodes.size) :
    d.descendants id = d.preorder id :=
  walk_eq_preorder hd hid (Nat.le_refl _)

/-- The walk down from a node goes through what is below its children, one after the other. -/
theorem descendants_eq_cons (hd : d.Linked) {id : NodeId} (hid : id < d.nodes.size) :
    d.descendants id = id :: (d.children id).flatMap d.descendants := by
  rw [descendants_eq hd hid, preorder_eq hd]
  refine congrArg (id :: ·) (List.flatMap_congr fun c hc => ?_)
  exact (descendants_eq hd ((Under.child hc).lt_size hd hid)).symm

/-! ## The ways up -/

theorem ancestorsFrom_eq (hd : d.Linked) : ∀ {n m : Nat} {id : NodeId}, id ≤ n → id ≤ m →
    d.ancestorsFrom n id = d.ancestorsFrom m id := by
  -- The node that stands for the document is nobody's child, so at level 0 nothing is lost.
  have zero (m : Nat) : d.ancestorsFrom m 0 = [] := by
    cases m with
    | zero => rfl
    | succ m =>
      rw [ancestorsFrom]
      cases hp : d.parent? 0 with
      | none => rfl
      | some p => exact absurd (hd.lt hp) (Nat.not_lt_zero p)
  intro n
  induction n with
  | zero =>
    intro m id hn hm
    obtain rfl := Nat.le_zero.mp hn
    rw [zero m]
    rfl
  | succ n ih =>
    intro m id hn hm
    cases m with
    | zero =>
      obtain rfl := Nat.le_zero.mp hm
      exact zero (n + 1)
    | succ m =>
      rw [ancestorsFrom, ancestorsFrom]
      cases hp : d.parent? id with
      | none => rfl
      | some p =>
        have hlt := hd.lt hp
        exact congrArg (p :: ·)
          (ih (Nat.le_of_lt_succ (Nat.lt_of_lt_of_le hlt hn))
            (Nat.le_of_lt_succ (Nat.lt_of_lt_of_le hlt hm)))

theorem ancestors_of_none {id : NodeId} (h : d.parent? id = none) : d.ancestors id = [] := by
  rw [ancestors]
  cases d.nodes.size with
  | zero => rfl
  | succ n => rw [ancestorsFrom, h]

/-- The nodes above a node are its parent and the nodes above that. -/
theorem ancestors_of_some (hd : d.Linked) {id p : NodeId} (h : d.parent? id = some p) :
    d.ancestors id = p :: d.ancestors p := by
  have hsize := lt_size_of_parent? h
  have hlt := hd.lt h
  rw [ancestors]
  rw [ancestorsFrom_eq hd (Nat.le_of_lt hsize) (m := id + 1) (Nat.le_succ id), ancestorsFrom, h]
  exact congrArg (p :: ·)
    (ancestorsFrom_eq hd (Nat.le_of_lt hlt) (Nat.le_of_lt (Nat.lt_trans hlt hsize)))

/-- The nodes above a node are those that it is under, but for itself. -/
theorem mem_ancestors (hd : d.Linked) {a id : NodeId} :
    a ∈ d.ancestors id ↔ d.Under a id ∧ a ≠ id := by
  induction id using Nat.strongRecOn with
  | ind id ih =>
    cases hp : d.parent? id with
    | none =>
      rw [ancestors_of_none hp]
      refine ⟨fun h => absurd h List.not_mem_nil, fun ⟨h, hne⟩ => ?_⟩
      rcases h.cases_parent hd with heq | ⟨q, hq, -⟩
      · exact absurd heq hne
      · rw [hp] at hq
        cases hq
    | some p =>
      have hlt := hd.lt hp
      rw [ancestors_of_some hd hp, List.mem_cons, ih p hlt]
      constructor
      · intro h
        have hap : d.Under a p := by
          rcases h with rfl | ⟨h, -⟩
          · exact .refl a
          · exact h
        refine ⟨hap.trans (.child (hd.mem_children.mpr hp)), ?_⟩
        exact Nat.ne_of_lt (Nat.lt_of_le_of_lt (hap.le hd) hlt)
      · rintro ⟨h, hne⟩
        rcases h.cases_parent hd with heq | ⟨q, hq, haq⟩
        · exact absurd heq hne
        · obtain rfl := Option.some.inj (hp.symm.trans hq)
          by_cases hap : a = p
          · exact .inl hap
          · exact .inr ⟨haq, hap⟩

/-- The topmost node of the tree of a node is above it and has no parent. -/
theorem topOf_spec (hd : d.Linked) (id : NodeId) :
    d.Under (d.topOf id) id ∧ d.parent? (d.topOf id) = none := by
  induction id using Nat.strongRecOn with
  | ind id ih =>
    rw [topOf]
    cases hp : d.parent? id with
    | none =>
      rw [ancestors_of_none hp]
      exact ⟨.refl id, hp⟩
    | some p =>
      obtain ⟨hunder, hnone⟩ := ih p (hd.lt hp)
      rw [ancestors_of_some hd hp, List.getLastD_cons]
      exact ⟨hunder.trans (.child (hd.mem_children.mpr hp)), hnone⟩

/-- All nodes of a tree have the same topmost node. -/
theorem topOf_unique (hd : d.Linked) {top id : NodeId} (h : d.Under top id)
    (htop : d.parent? top = none) : d.topOf id = top := by
  have root {a b : NodeId} (hab : d.Under a b) (hb : d.parent? b = none) : a = b := by
    rcases hab.cases_parent hd with heq | ⟨q, hq, -⟩
    · exact heq
    · rw [hb] at hq
      cases hq
  obtain ⟨hunder, hnone⟩ := topOf_spec hd id
  rcases hunder.total hd h with h | h
  · exact root h htop
  · exact (root h hnone).symm

/-- The parent of a node of a tree is in the tree. -/
theorem Under.parent (hd : d.Linked) {top id p : NodeId} (h : d.Under top id)
    (htop : d.parent? top = none) (hp : d.parent? id = some p) : d.Under top p := by
  rcases h.cases_parent hd with rfl | ⟨q, hq, htq⟩
  · rw [htop] at hp
    cases hp
  · obtain rfl := Option.some.inj (hp.symm.trans hq)
    exact htq

/-- What is above a node of a tree is in the tree. -/
theorem Under.above (hd : d.Linked) {top id a : NodeId} (h : d.Under top id)
    (htop : d.parent? top = none) (ha : d.Under a id) : d.Under top a := by
  rcases h.total hd ha with h | h
  · exact h
  · rcases h.cases_parent hd with rfl | ⟨q, hq, -⟩
    · exact .refl a
    · rw [htop] at hq
      cases hq

end Document

end PatchScript.Xml
