import PatchScript.Proofs.XPath.Axes

/-!
# What expressions select

An expression that denotes nodes denotes a set of them: the list is in document order,
no node stands in it twice, and all are in the tree in which the expression is evaluated.
Predicates only drop nodes, so this does not depend on what they say.

Without predicates, a location path selects the nodes that one gets to by taking its
steps one after the other (`Chain`), and a union selects what either side selects.
-/

namespace PatchScript.XPath

open Xml (Document NodeId)

/-! ## Node sets -/

/-- The list is a set of nodes of the tree. -/
structure NodeSet (d : Document) (top : NodeId) (items : List Item) : Prop where
  /-- The nodes are in document order. -/
  ordered : items.Pairwise (Before d)
  /-- They are in the tree. -/
  inTree : ∀ a ∈ items, InTree d top a

variable {v : View} {top : NodeId}

theorem NodeSet.sublist {d : Document} {items kept : List Item} (h : NodeSet d top items)
    (hsub : kept.Sublist items) : NodeSet d top kept :=
  ⟨h.ordered.sublist hsub, fun a ha => h.inTree a (hsub.subset ha)⟩

theorem NodeSet.singleton {d : Document} {a : Item} (ha : InTree d top a) :
    NodeSet d top [a] :=
  ⟨List.pairwise_singleton .., fun _ hb => List.mem_singleton.mp hb ▸ ha⟩

/-- Putting nodes of the tree in order makes a set of them. -/
theorem Sees.nodeSet (h : Sees v top) {items : List Item}
    (hitems : ∀ a ∈ items, InTree v.document top a) :
    NodeSet v.document top (v.inOrder items) :=
  ⟨h.inOrder_pairwise hitems, fun a ha => hitems a ((Sees.mem_inOrder v).mp ha)⟩

/-! ## Predicates -/

theorem keepFrom_sublist {predicate : Focus → Except Error Value} {size : Nat} :
    ∀ {items kept : List Item} {before : Nat}, keepFrom predicate size before items = .ok kept →
    kept.Sublist items := by
  intro items
  induction items with
  | nil =>
    intro kept before h
    cases h
    exact .slnil
  | cons a items ih =>
    intro kept before h
    obtain ⟨value, -, h⟩ := bind_eq_ok h
    obtain ⟨rest, hrest, h⟩ := bind_eq_ok h
    have hsub := ih hrest
    split at h
    · cases h
      exact hsub.cons_cons a
    · cases h
      exact hsub.cons a

/-- Predicates drop nodes of a list, and change nothing else. -/
theorem evalPredicates_sublist : ∀ {ps : List Expr} {items kept : List Item},
    evalPredicates v ps items = .ok kept → kept.Sublist items := by
  intro ps
  induction ps with
  | nil =>
    intro items kept h
    rw [evalPredicates] at h
    cases h
    exact .refl _
  | cons p ps ih =>
    intro items kept h
    rw [evalPredicates] at h
    obtain ⟨first, hfirst, h⟩ := bind_eq_ok h
    exact (ih h).trans (keepFrom_sublist hfirst)

/-! ## Steps -/

theorem mem_of_mapM {ε α β : Type} {f : α → Except ε β} :
    ∀ {as : List α} {bs : List β}, as.mapM f = .ok bs → ∀ b ∈ bs, ∃ a ∈ as, f a = .ok b := by
  intro as
  induction as with
  | nil =>
    intro bs h b hb
    cases h
    exact absurd hb List.not_mem_nil
  | cons a as ih =>
    intro bs h b hb
    rw [List.mapM_cons] at h
    obtain ⟨b₁, hb₁, h⟩ := bind_eq_ok h
    obtain ⟨bs₁, hbs₁, h⟩ := bind_eq_ok h
    cases h
    rcases List.mem_cons.mp hb with rfl | hb
    · exact ⟨a, List.mem_cons_self .., hb₁⟩
    · obtain ⟨a', ha', hf⟩ := ih hbs₁ b hb
      exact ⟨a', List.mem_cons_of_mem _ ha', hf⟩

/-- Steps lead from a set of nodes to a set of nodes. -/
theorem evalSteps_nodeSet (h : Sees v top) : ∀ {steps : List Step} {items reached : List Item},
    NodeSet v.document top items → evalSteps v steps items = .ok reached →
    NodeSet v.document top reached := by
  intro steps
  induction steps with
  | nil =>
    intro items reached hitems hr
    rw [evalSteps] at hr
    cases hr
    exact hitems
  | cons step steps ih =>
    intro items reached hitems hr
    obtain ⟨axis, test, ps⟩ := step
    rw [evalSteps] at hr
    obtain ⟨lists, hlists, hr⟩ := bind_eq_ok hr
    refine ih (h.nodeSet fun b hb => ?_) hr
    obtain ⟨kept, hkept, hb⟩ := List.mem_flatten.mp hb
    obtain ⟨a, ha, hpred⟩ := mem_of_mapM hlists kept hkept
    have ha := hitems.inTree a ha
    have hb := List.mem_filter.mp ((evalPredicates_sublist hpred).subset hb)
    have hleads := (mem_alongAxis h.linked (ha.under.lt_size h.linked h.size) axis b).mp hb.1
    exact hleads.inTree h.linked h.parent? ha

/-! ## Expressions -/

theorem unaryOf_ne_nodes {function : String} {arg : Value} {items : List Item} :
    unaryOf v function arg ≠ .ok (.nodes items) := by
  fun_cases unaryOf v function arg <;> exact nofun

/-- No function gives nodes. -/
theorem callOf_ne_nodes {f : Focus} {function : String} {args : List Value}
    {items : List Item} : callOf v f function args ≠ .ok (.nodes items) := by
  unfold callOf
  split
  · dsimp only
    split
    · rw [constantOf]
      split
      · exact nofun
      · split <;> exact nofun
    all_goals first | exact unaryOf_ne_nodes | exact nofun
  · split <;> exact nofun

theorem nodesOf_eq_ok {what : String} {value : Value} {items : List Item}
    (h : nodesOf what value = .ok items) : value = .nodes items := by
  cases value with
  | nodes items' =>
    cases h
    rfl
  | _ => cases h

/-- The union of two expressions is made of two sets of nodes. -/
theorem eval_union {l r : Expr} {f : Focus} {items : List Item}
    (h : (Expr.union l r).eval v f = .ok (.nodes items)) :
    ∃ left right, l.eval v f = .ok (.nodes left) ∧ r.eval v f = .ok (.nodes right) ∧
      items = v.inOrder (left ++ right) := by
  rw [Expr.eval] at h
  obtain ⟨lv, hl, h⟩ := bind_eq_ok h
  obtain ⟨left, hleft, h⟩ := bind_eq_ok h
  obtain ⟨rv, hr, h⟩ := bind_eq_ok h
  obtain ⟨right, hright, h⟩ := bind_eq_ok h
  cases h
  rw [nodesOf_eq_ok hleft] at hl
  rw [nodesOf_eq_ok hright] at hr
  exact ⟨left, right, hl, hr, rfl⟩

/-- The topmost node of the tree of a node of the tree. -/
theorem Sees.topOf (h : Sees v top) {a : Item} (ha : InTree v.document top a) :
    v.document.topOf a.id = top :=
  Document.topOf_unique h.linked ha.under h.parent?

/-- An expression that denotes nodes denotes a set of nodes of the tree. -/
theorem eval_nodeSet (h : Sees v top) : ∀ (e : Expr) {f : Focus} {items : List Item},
    InTree v.document top f.item → e.eval v f = .ok (.nodes items) →
    NodeSet v.document top items
  | .union l r, f, items, hf, he => by
    obtain ⟨left, right, hl, hr, rfl⟩ := eval_union he
    refine h.nodeSet fun a ha => ?_
    rcases List.mem_append.mp ha with ha | ha
    · exact (eval_nodeSet h l hf hl).inTree a ha
    · exact (eval_nodeSet h r hf hr).inTree a ha
  | .path absolute steps, f, items, hf, he => by
    rw [Expr.eval] at he
    obtain ⟨reached, hreached, he⟩ := bind_eq_ok he
    cases he
    refine evalSteps_nodeSet h (.singleton ?_) hreached
    split
    · rw [h.topOf hf]
      exact .refl top
    · exact hf
  | .filter primary ps steps, f, items, hf, he => by
    rw [Expr.eval] at he
    obtain ⟨value, hvalue, he⟩ := bind_eq_ok he
    split at he
    · cases he
      exact eval_nodeSet h primary hf hvalue
    · obtain ⟨all, hall, he⟩ := bind_eq_ok he
      obtain ⟨kept, hkept, he⟩ := bind_eq_ok he
      obtain ⟨reached, hreached, he⟩ := bind_eq_ok he
      cases he
      rw [nodesOf_eq_ok hall] at hvalue
      have hset := h.nodeSet (eval_nodeSet h primary hf hvalue).inTree
      exact evalSteps_nodeSet h (hset.sublist (evalPredicates_sublist hkept)) hreached
  | .call function args, f, items, hf, he => by
    rw [Expr.eval] at he
    obtain ⟨values, -, he⟩ := bind_eq_ok he
    exact absurd he callOf_ne_nodes
  | .or l r, f, items, hf, he | .and l r, f, items, hf, he => by
    rw [Expr.eval] at he
    obtain ⟨left, -, he⟩ := bind_eq_ok he
    split at he
    all_goals first
      | cases he
      | obtain ⟨right, -, he⟩ := bind_eq_ok he; cases he
  | .compare op l r, f, items, hf, he => by
    rw [Expr.eval] at he
    obtain ⟨left, -, he⟩ := bind_eq_ok he
    obtain ⟨right, -, he⟩ := bind_eq_ok he
    cases he
  | .add l r, f, items, hf, he | .subtract l r, f, items, hf, he => by
    rw [Expr.eval] at he
    obtain ⟨left, -, he⟩ := bind_eq_ok he
    obtain ⟨right, -, he⟩ := bind_eq_ok he
    cases he
  | .negate e, f, items, hf, he => by
    rw [Expr.eval] at he
    obtain ⟨value, -, he⟩ := bind_eq_ok he
    cases he
  | .literal s, f, items, hf, he => by
    rw [Expr.eval] at he
    cases he
  | .number x, f, items, hf, he => by
    rw [Expr.eval] at he
    cases he

/-! ## Paths without predicates -/

/-- One gets from a node to another by taking steps one after the other, each along an
axis to a node that passes a test. -/
inductive Chain (d : Document) : List (Axis × NodeTest) → Item → Item → Prop where
  | nil (a : Item) : Chain d [] a a
  | cons {axis : Axis} {test : NodeTest} {steps : List (Axis × NodeTest)} {a b c : Item} :
    Leads d axis a b → Passes d test b → Chain d steps b c →
    Chain d ((axis, test) :: steps) a c

/-- Steps without predicates. -/
def plain (steps : List (Axis × NodeTest)) : List Step :=
  steps.map fun (axis, test) => .along axis test []

/-- Without predicates steps always lead somewhere, and exactly to the nodes at the ends
of chains. -/
theorem evalSteps_plain (h : Sees v top) : ∀ (steps : List (Axis × NodeTest)) (items : List Item),
    (∀ a ∈ items, InTree v.document top a) → ∃ reached,
      evalSteps v (plain steps) items = .ok reached ∧
      ∀ b, b ∈ reached ↔ ∃ a ∈ items, Chain v.document steps a b := by
  intro steps
  induction steps with
  | nil =>
    intro items _
    refine ⟨items, rfl, fun b => ⟨fun hb => ⟨b, hb, .nil b⟩, ?_⟩⟩
    rintro ⟨a, ha, hab⟩
    cases hab
    exact ha
  | cons step steps ih =>
    intro items hitems
    obtain ⟨axis, test⟩ := step
    let along (a : Item) := (alongAxis v.document axis a).filter (passes v test)
    have hmem (a b : Item) (ha : InTree v.document top a) : b ∈ along a ↔
        Leads v.document axis a b ∧ Passes v.document test b := by
      rw [List.mem_filter, mem_alongAxis h.linked (ha.under.lt_size h.linked h.size)]
      refine and_congr_right fun hab => passes_iff (hab.inTree h.linked h.parent? ha) test
    have hlists : (items.mapM fun a => evalPredicates v [] (along a)) = .ok (items.map along) :=
      List.mapM_pure
    have hstep : evalSteps v (plain ((axis, test) :: steps)) items =
        evalSteps v (plain steps) (v.inOrder (items.map along).flatten) := by
      show evalSteps v (.along axis test [] :: plain steps) items = _
      rw [evalSteps, hlists]
      rfl
    have hnext (b : Item) : b ∈ v.inOrder (items.map along).flatten ↔
        ∃ a ∈ items, Leads v.document axis a b ∧ Passes v.document test b := by
      rw [Sees.mem_inOrder, ← List.flatMap_def, List.mem_flatMap]
      exact exists_congr fun a => and_congr_right fun ha => hmem a b (hitems a ha)
    obtain ⟨reached, hreached, hb⟩ := ih (v.inOrder (items.map along).flatten) fun b hb => by
      obtain ⟨a, ha, hab, -⟩ := (hnext b).mp hb
      exact hab.inTree h.linked h.parent? (hitems a ha)
    refine ⟨reached, hstep.trans hreached, fun c => (hb c).trans ⟨?_, ?_⟩⟩
    · rintro ⟨b, hb, hbc⟩
      obtain ⟨a, ha, hab, hpass⟩ := (hnext b).mp hb
      exact ⟨a, ha, .cons hab hpass hbc⟩
    · rintro ⟨a, ha, hac⟩
      cases hac with
      | cons hab hpass hbc => exact ⟨_, (hnext _).mpr ⟨a, ha, hab, hpass⟩, hbc⟩

/-- A location path without predicates selects what chains lead to, from the topmost node
or from the current one. -/
theorem eval_path_plain (h : Sees v top) (absolute : Bool) (steps : List (Axis × NodeTest))
    {f : Focus} (hf : InTree v.document top f.item) : ∃ items,
      (Expr.path absolute (plain steps)).eval v f = .ok (.nodes items) ∧
      ∀ b, b ∈ items ↔
        Chain v.document steps (if absolute then .node top else f.item) b := by
  have hstart : InTree v.document top (if absolute then .node top else f.item) := by
    split
    · exact Document.Under.refl top
    · exact hf
  obtain ⟨items, hitems, hb⟩ := evalSteps_plain h steps
    [if absolute then .node top else f.item] fun a ha => List.mem_singleton.mp ha ▸ hstart
  refine ⟨items, ?_, fun b => (hb b).trans ?_⟩
  · rw [Expr.eval, h.topOf hf, hitems]
    rfl
  · simp

/-- A location path of one step is evaluated: the predicates are left with the nodes that they keep,
and these are put in order. -/
theorem evaluate_step {d : Document} {context : NodeId} {expression : String} {axis : Axis}
    {test : NodeTest} {ps : List Expr} {kept : List Item}
    (hread : read expression = .ok (.path false [.along axis test ps]))
    (hkept : evalPredicates (.of d context) ps
      ((alongAxis (View.of d context).document axis (.node context)).filter
        (passes (.of d context) test)) = .ok kept) :
    evaluate d context expression = .ok (.nodes ((View.of d context).inOrder kept)) := by
  rw [evaluate, hread]
  show (Expr.path false [.along axis test ps]).eval _ _ = _
  rw [Expr.eval, evalSteps]
  simp [List.mapM_cons, hkept, evalSteps]

/-! ## Results -/

/-- In every document that can be made, seen from any of its nodes, attached or not:
nodes that an expression denotes are in document order, without repetition, and in the
tree of the node; a path without predicates selects what its chains of steps lead to; and
a union selects what one of its sides selects. -/
theorem node_sets_are_ordered {d : Document} (hd : d.Reachable) {context : NodeId}
    (hcontext : context < d.nodes.size) : ∃ top,
      (d.Under top context ∧ d.parent? top = none) ∧
      (∀ (e : Expr) (items : List Item),
        e.eval (.of d context) ⟨.node context, 1, 1⟩ = .ok (.nodes items) →
        items.Pairwise (Before d) ∧ items.Nodup ∧ ∀ a ∈ items, InTree d top a) ∧
      (∀ (absolute : Bool) (steps : List (Axis × NodeTest)), ∃ items,
        (Expr.path absolute (plain steps)).eval (.of d context) ⟨.node context, 1, 1⟩ =
          .ok (.nodes items) ∧
        ∀ b, b ∈ items ↔ Chain d steps (.node (if absolute then top else context)) b) ∧
      ∀ (l r : Expr) (items : List Item),
        (Expr.union l r).eval (.of d context) ⟨.node context, 1, 1⟩ = .ok (.nodes items) →
        ∃ left right,
          l.eval (.of d context) ⟨.node context, 1, 1⟩ = .ok (.nodes left) ∧
          r.eval (.of d context) ⟨.node context, 1, 1⟩ = .ok (.nodes right) ∧
          ∀ b, b ∈ items ↔ b ∈ left ∨ b ∈ right := by
  have h := Sees.of hd.linked hcontext
  have hspec := Document.topOf_spec hd.linked context
  refine ⟨d.topOf context, hspec, fun e items he => ?_, fun absolute steps => ?_, ?_⟩
  · have hset := eval_nodeSet (f := ⟨.node context, 1, 1⟩) h e hspec.1 he
    exact ⟨hset.ordered, nodup_of_before hd.linked hset.ordered, hset.inTree⟩
  · obtain ⟨items, hitems, hb⟩ := eval_path_plain (f := ⟨.node context, 1, 1⟩) h absolute steps
      hspec.1
    refine ⟨items, hitems, fun b => (hb b).trans ?_⟩
    cases absolute <;> rfl
  · intro l r items he
    obtain ⟨left, right, hl, hr, rfl⟩ := eval_union he
    refine ⟨left, right, hl, hr, fun b => ?_⟩
    rw [Sees.mem_inOrder, List.mem_append]

/-- At an element that was detached, with an element below it. -/
theorem node_sets_are_ordered_when_detached :
    let element (name : String) : Xml.NodeKind := .element ⟨name, []⟩
    let whole := ((Document.empty.push 0 (element "a")).push 1 (element "b")).push 2 (element "c")
    let d := whole.detach 2
    d.Reachable ∧ 3 < d.nodes.size ∧ ∃ top, d.parent? top = none ∧ d.Under top 3 ∧ ∃ items,
      (Expr.path true (plain [(.descendantOrSelf, .any)])).eval (.of d 3) ⟨.node 3, 1, 1⟩ =
        .ok (.nodes items) ∧ items.Pairwise (Before d) ∧ items.Nodup := by
  intro element whole d
  have ha : Document.ofName "a" = .ok (Document.empty.push 0 (element "a")) := rfl
  have hb : (Document.empty.push 0 (element "a")).appendElement 1 "b" =
    .ok ((Document.empty.push 0 (element "a")).push 1 (element "b"), 2) := rfl
  have hc : ((Document.empty.push 0 (element "a")).push 1 (element "b")).appendElement 2 "c" =
    .ok (whole, 3) := rfl
  have hd : d.Reachable :=
    .detach 2 (.appendElement (.appendElement (.ofName ha) (by decide) hb) (by decide) hc)
  have hlt : 3 < d.nodes.size := by decide
  obtain ⟨top, ⟨hunder, hparent⟩, ordered, paths, -⟩ := node_sets_are_ordered hd hlt
  obtain ⟨items, hitems, -⟩ := paths true [(.descendantOrSelf, .any)]
  have hset := ordered _ items hitems
  exact ⟨hd, hlt, top, hparent, hunder, items, hitems, hset.1, hset.2.1⟩

end PatchScript.XPath
